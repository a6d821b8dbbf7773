import SheetFormula.Stream.Final

/-!
# The passes, item by item

The three passes together make of each item at most one token, and which one depends on the item and
on its neighbours in the list as it was before any pass (`TokenList.outcomeAt`): nothing that a pass
has already changed, dropped or made is looked at again. Main statements:

* `classified_classifyToken`: what becomes of an item that is classified;
* `finalize_tokens`: the passes are this one pass, `TokenList.outcomes`;
* `finalize_dropped`, `finalize_intersections`, `finalize_noops`: the counts of the passes are counts
  of its outcomes;
* `finalize_pointwise`: both together, with what they add to the metrics.

The proof goes through `Stream.outcomesFrom`, the same pass as a recursion that carries the left
neighbour and whether a sign would stand between two operands.
-/

namespace SheetFormula

namespace Stream

/-- What the passes make of an item. A sign is between two operands if `follows`, and a run of spaces
is if `meets`. -/
def outcome (follows meets : Bool) (t : Token) : Option Token :=
  match t.kind with
  | .whitespace => if meets then some ⟨"", .infixOp, .intersection⟩ else none
  | .noop => none
  | .infixOp =>
    if t.value = "-" then
      some (if follows then { t with subkind := .math } else { t with kind := .prefixOp })
    else if t.value = "+" then
      if follows then some { t with subkind := .math } else none
    else if t.subkind = .plain then some { t with subkind := infixSubkind t.value }
    else some t
  | .operand =>
    some (if t.subkind = .plain then { t with subkind := operandSubkind t.value } else t)
  | .function => some { t with value := dropCallMark t.value }
  | _ => some t

/-- The outcomes of some items, in order, given the item before the first and whether a sign in the
place of the first would stand between two operands. -/
def outcomesFrom (follows : Bool) (left : Option Token) : List Token → List (Option Token)
  | [] => []
  | t :: ts =>
    outcome follows (isIntersection left ts.head?) t ::
      outcomesFrom (if t.kind = .whitespace then follows else precedesInfix t) (some t) ts

end Stream

open SheetFormula.Stream

namespace TokenList

/-- What the passes make of the item `t` that is `i` items after the next one, by the original items:
a sign is between two operands if the nearest item before it that is no space, of those after the
cursor, precedes an infix operator; a run of spaces is if it is neither the first nor the last item of
the whole list, the item before it ends an operand, and the item after it begins one. -/
def outcomeAt (l : TokenList) (i : Nat) (t : Token) : Option Token :=
  let items := l.toList
  let place := l.visited.length + i
  outcome
    (((l.ahead.take i).filter (·.kind ≠ .whitespace)).getLast?.any precedesInfix)
    (0 < place && place + 1 < items.length && items[place - 1]?.any Token.endsOperand &&
      items[place + 1]?.any Token.beginsOperand)
    t

/-- What the passes make of each item after the cursor, in order. -/
def outcomes (l : TokenList) : List (Option Token) := l.ahead.mapIdx l.outcomeAt

end TokenList

namespace Stream

variable {t : Token} {ts : List Token} {follows : Bool} {left : Option Token}

/-! ## One pass as a recursion -/

/-- What becomes of an item that is classified, given whether a sign in its place stands between two
operands. -/
inductive Classified : Bool → Token → Token → Prop
  | math {value : String} (h : value = "+" ∨ value = "-") (subkind : Subkind) :
    Classified true ⟨value, .infixOp, subkind⟩ ⟨value, .infixOp, .math⟩
  | minus (subkind : Subkind) : Classified false ⟨"-", .infixOp, subkind⟩ ⟨"-", .prefixOp, subkind⟩
  | plus (subkind : Subkind) : Classified false ⟨"+", .infixOp, subkind⟩ ⟨"+", .noop, subkind⟩
  | operator {follows : Bool} {value : String} (h : value ≠ "+" ∧ value ≠ "-") :
    Classified follows ⟨value, .infixOp, .plain⟩ ⟨value, .infixOp, infixSubkind value⟩
  | operand {follows : Bool} (value : String) :
    Classified follows ⟨value, .operand, .plain⟩ ⟨value, .operand, operandSubkind value⟩
  | function {follows : Bool} (name : String) (subkind : Subkind) :
    Classified follows ⟨name, .function, subkind⟩ ⟨dropCallMark name, .function, subkind⟩
  | same {follows : Bool} {t : Token}
      (hoperator : t.kind = .infixOp → t.subkind ≠ .plain ∧ t.value ≠ "+" ∧ t.value ≠ "-")
      (hoperand : t.kind = .operand → t.subkind ≠ .plain) (hfunction : t.kind ≠ .function) :
    Classified follows t t

theorem classified_classifyToken (follows : Bool) (t : Token) :
    Classified follows t (classifyToken follows t) := by
  obtain ⟨value, kind, subkind⟩ := t
  cases kind
  case infixOp =>
    by_cases hminus : value = "-"
    · subst hminus
      cases follows
      · exact .minus subkind
      · exact .math (.inr rfl) subkind
    · by_cases hplus : value = "+"
      · subst hplus
        cases follows
        · exact .plus subkind
        · exact .math (.inl rfl) subkind
      · simp only [classifyToken, hminus, hplus, if_false]
        split
        · rename_i hplain
          subst hplain
          exact .operator ⟨hplus, hminus⟩
        · rename_i hplain
          exact .same (fun _ => ⟨hplain, hplus, hminus⟩) (by simp) (by simp)
  case operand =>
    simp only [classifyToken]
    split
    · rename_i hplain
      subst hplain
      exact .operand value
    · rename_i hplain
      exact .same (by simp) (fun _ => hplain) (by simp)
  case function => exact .function value subkind
  all_goals exact .same (by simp) (by simp) (by simp)

/-- Classifying an item changes neither the scope that it opens or closes nor whether it is an operand
or a postfix operator. -/
theorem Classified.role {t u : Token} (h : Classified follows t u) :
    u.isStart = t.isStart ∧ u.isStop = t.isStop ∧ (u.kind == .operand) = (t.kind == .operand) ∧
      (u.kind == .postfixOp) = (t.kind == .postfixOp) := by
  cases h <;> exact ⟨rfl, rfl, rfl, rfl⟩

theorem endsOperand_classifyToken (follows : Bool) (t : Token) :
    (classifyToken follows t).endsOperand = t.endsOperand := by
  obtain ⟨-, hstop, hoperand, -⟩ := (classified_classifyToken follows t).role
  rw [Token.endsOperand, Token.endsOperand, hstop, hoperand]

theorem beginsOperand_classifyToken (follows : Bool) (t : Token) :
    (classifyToken follows t).beginsOperand = t.beginsOperand := by
  obtain ⟨hstart, -, hoperand, -⟩ := (classified_classifyToken follows t).role
  rw [Token.beginsOperand, Token.beginsOperand, hstart, hoperand]

/-- So a sign may as well look at the original item before it. -/
theorem precedesInfix_classifyToken (follows : Bool) (t : Token) :
    precedesInfix (classifyToken follows t) = precedesInfix t := by
  obtain ⟨-, -, -, hpostfix⟩ := (classified_classifyToken follows t).role
  rw [precedesInfix, precedesInfix, endsOperand_classifyToken, hpostfix]

/-- Apart from spaces, an item is classified, and dropped if this shows that it does nothing. -/
theorem outcome_of_ne_whitespace (h : t.kind ≠ .whitespace) (follows meets : Bool) :
    outcome follows meets t =
      (some (classifyToken follows t)).filter (·.kind ≠ .noop) := by
  obtain ⟨value, kind, subkind⟩ := t
  cases kind <;> simp only [outcome, classifyToken]
  case infixOp =>
    split
    · cases follows <;> rfl
    · split
      · cases follows <;> rfl
      · split <;> rfl
  case operand => split <;> rfl
  all_goals first | rfl | exact absurd rfl h

/-- Only signs are classified by what stands before them. -/
theorem classifyToken_of_beginsOperand (h : t.beginsOperand = true) (f g : Bool) :
    classifyToken f t = classifyToken g t := by
  obtain ⟨value, kind, subkind⟩ := t
  cases kind <;> first | rfl | simp [Token.beginsOperand, Token.isStart, Kind.isScope] at h

theorem ne_whitespace_of_beginsOperand (h : t.beginsOperand = true) : t.kind ≠ .whitespace := by
  intro hk
  simp [Token.beginsOperand, Token.isStart, Kind.isScope, hk] at h

theorem removeNoops_cons (t : Token) (ts : List Token) :
    removeNoops (t :: ts) = ((some t).filter (·.kind ≠ .noop)).toList ++ removeNoops ts := by
  by_cases h : t.kind = .noop <;> simp [removeNoops, h, Option.filter]

theorem filterMap_id_cons (o : Option Token) (os : List (Option Token)) :
    (o :: os).filterMap id = o.toList ++ os.filterMap id := by
  cases o <;> rfl

theorem countNoops_cons (t : Token) (ts : List Token) :
    countNoops (t :: ts) = countNoops ts + if t.kind = .noop then 1 else 0 := by
  simp [countNoops, List.countP_cons]

theorem getD_map_eq_any (p : Token → Bool) (o : Option Token) : (o.map p).getD false = o.any p := by
  cases o <;> rfl

/-- The three passes in a row make one pass. Here `before` is the classified item before the first; it
may be an intersection that was made from spaces, and then the first item is no sign. -/
theorem classifyAfter_resolveSpaces (follows : Bool) (left before : Option Token)
    (hempty : ∀ t ∈ ts, t.kind = .whitespace → t.value = "")
    (hbefore : before.any precedesInfix = follows ∨ ts.head?.any Token.beginsOperand = true) :
    removeNoops (classifyAfter before (resolveSpaces left ts).tokens) =
        (outcomesFrom follows left ts).filterMap id ∧
      countNoops (classifyAfter before (resolveSpaces left ts).tokens) =
        (ts.zip (outcomesFrom follows left ts)).countP
          fun (t, made) => t.kind ≠ .whitespace && made.isNone := by
  induction ts generalizing follows left before with
  | nil => exact ⟨rfl, rfl⟩
  | cons t ts ih =>
    have htail : ∀ t ∈ ts, t.kind = .whitespace → t.value = "" :=
      fun u hu => hempty u (List.mem_cons_of_mem _ hu)
    rw [outcomesFrom, filterMap_id_cons, List.zip_cons_cons, List.countP_cons]
    by_cases ht : t.kind = .whitespace
    · have hv : t.value = "" := hempty t List.mem_cons_self ht
      have hbefore : before.any precedesInfix = follows := by
        refine hbefore.resolve_right fun h => ?_
        exact ne_whitespace_of_beginsOperand (by simpa using h) ht
      by_cases hm : isIntersection left ts.head? = true
      · have hnext : ts.head?.any Token.beginsOperand = true := by
          simp only [isIntersection, getD_map_eq_any, Bool.and_eq_true] at hm
          exact hm.2
        simp only [resolveSpaces, ht, hm, ne_eq, not_true_eq_false, ↓reduceIte, Spaced.intersect, hv,
          classifyAfter, outcome]
        obtain ⟨hkept, hcount⟩ := ih follows (some t) _ htail (.inr hnext)
        rw [removeNoops_cons, countNoops_cons, hkept, hcount]
        exact ⟨rfl, rfl⟩
      · simp only [resolveSpaces, ht, hm, ne_eq, not_true_eq_false, ↓reduceIte, Spaced.drop, outcome]
        exact ih follows (some t) before htail (.inl hbefore)
    · have hsame : classifyToken (before.any precedesInfix) t = classifyToken follows t := by
        rcases hbefore with h | h
        · rw [h]
        · exact classifyToken_of_beginsOperand (by simpa using h) _ _
      have hnext : (some (classifyToken follows t)).any precedesInfix = precedesInfix t :=
        precedesInfix_classifyToken follows t
      obtain ⟨hkept, hcount⟩ := ih (precedesInfix t) (some t) _ htail (.inl hnext)
      simp only [resolveSpaces, ne_eq, ht, not_false_eq_true, ↓reduceIte, Spaced.keep, classifyAfter,
        getD_map_eq_any, hsame]
      rw [removeNoops_cons, countNoops_cons, outcome_of_ne_whitespace ht, hkept, hcount]
      refine ⟨rfl, ?_⟩
      by_cases hn : (classifyToken follows t).kind = .noop <;> simp [hn, Option.filter]

/-- The spaces that were dropped, and those that became intersections. -/
theorem resolveSpaces_counts (follows : Bool) (left : Option Token) (ts : List Token) :
    (resolveSpaces left ts).dropped =
        (ts.zip (outcomesFrom follows left ts)).countP
          (fun (t, made) => t.kind = .whitespace && made.isNone) ∧
      (resolveSpaces left ts).intersections =
        (ts.zip (outcomesFrom follows left ts)).countP
          (fun (t, made) => t.kind = .whitespace && made.isSome) := by
  induction ts generalizing follows left with
  | nil => exact ⟨rfl, rfl⟩
  | cons t ts ih =>
    rw [outcomesFrom, List.zip_cons_cons, List.countP_cons, List.countP_cons]
    by_cases ht : t.kind = .whitespace
    · obtain ⟨hd, hi⟩ := ih follows (some t)
      by_cases hm : isIntersection left ts.head? = true <;>
        simp [resolveSpaces, ht, hm, Spaced.intersect, Spaced.drop, outcome, hd, hi]
    · obtain ⟨hd, hi⟩ := ih (precedesInfix t) (some t)
      simp [resolveSpaces, ht, Spaced.keep, hd, hi]

/-! ## The recursion, item by item -/

theorem getLast?_filter_take_succ (p : Token → Bool) (t : Token) (ts : List Token) (i : Nat) :
    (((t :: ts).take (i + 1)).filter p).getLast? =
      (((ts.take i).filter p).getLast?).or (if p t then some t else none) := by
  rw [List.take_succ_cons, List.filter_cons]
  split
  · rw [List.getLast?_cons]
    cases ((ts.take i).filter p).getLast? <;> rfl
  · cases ((ts.take i).filter p).getLast? <;> rfl

/-- Each outcome from the items around it. -/
theorem outcomesFrom_eq_mapIdx (follows : Bool) (left : Option Token) (ts : List Token) :
    outcomesFrom follows left ts = ts.mapIdx fun i t =>
      outcome
        (((((ts.take i).filter (·.kind ≠ .whitespace)).getLast?).map precedesInfix).getD follows)
        (isIntersection (if i = 0 then left else ts[i - 1]?) ts[i + 1]?) t := by
  induction ts generalizing follows left with
  | nil => rfl
  | cons t ts ih =>
    rw [outcomesFrom, List.mapIdx_cons, ih]
    refine List.cons_eq_cons.2 ⟨?_, List.mapIdx_eq_mapIdx_iff.2 fun i hi => ?_⟩
    · rw [List.head?_eq_getElem?]
      rfl
    · rw [getLast?_filter_take_succ]
      congr 1
      · cases ((ts.take i).filter (·.kind ≠ .whitespace)).getLast? with
        | some u => rfl
        | none => by_cases ht : t.kind = .whitespace <;> simp [ht]
      · cases i <;> rfl

end Stream

namespace TokenList

theorem getElem?_toList_ahead (l : TokenList) (i : Nat) :
    l.toList[l.visited.length + i]? = l.ahead[i]? := by
  rw [toList, List.getElem?_append_right (by simp)]
  simp

theorem getElem?_toList_before (l : TokenList) {i : Nat} (h : 0 < l.visited.length + i) :
    l.toList[l.visited.length + i - 1]? = if i = 0 then l.current? else l.ahead[i - 1]? := by
  cases i with
  | zero =>
    have hlt : l.visited.length - 1 < l.visited.length := by omega
    rw [toList, Nat.add_zero, List.getElem?_append_left (by simpa using hlt),
      List.getElem?_reverse hlt, current?, List.head?_eq_getElem?]
    congr 1
    omega
  | succ i => exact l.getElem?_toList_ahead i

/-- An item is between operands, by its place in the whole list, if it is by its neighbours. -/
theorem isIntersection_of_place (l : TokenList) (i : Nat) :
    (0 < l.visited.length + i && l.visited.length + i + 1 < l.toList.length &&
        l.toList[l.visited.length + i - 1]?.any Token.endsOperand &&
        l.toList[l.visited.length + i + 1]?.any Token.beginsOperand) =
      isIntersection (if i = 0 then l.current? else l.ahead[i - 1]?) l.ahead[i + 1]? := by
  simp only [isIntersection, getD_map_eq_any, Nat.add_assoc, getElem?_toList_ahead]
  by_cases hfirst : 0 < l.visited.length + i
  · rw [getElem?_toList_before l hfirst]
    by_cases hlast : l.visited.length + (i + 1) < l.toList.length
    · simp only [hfirst, hlast, decide_true, Bool.true_and]
    · have hnone : l.ahead[i + 1]? = none := by
        rw [← getElem?_toList_ahead, List.getElem?_eq_none_iff]
        omega
      simp only [hnone, Option.any_none, Bool.and_false]
  · have hv : l.visited = [] := List.length_eq_zero_iff.1 (by omega)
    have hi : i = 0 := by omega
    simp [hv, hi, current?]

/-- The outcomes of the items after the cursor, as a recursion over them. -/
theorem outcomes_eq_outcomesFrom (l : TokenList) :
    l.outcomes = outcomesFrom false l.current? l.ahead := by
  rw [outcomes, outcomesFrom_eq_mapIdx]
  refine List.mapIdx_eq_mapIdx_iff.2 fun i _ => ?_
  simp only [outcomeAt, isIntersection_of_place, getD_map_eq_any]

/-! ## The passes -/

theorem length_outcomes (l : TokenList) : l.outcomes.length = l.ahead.length := List.length_mapIdx

variable {l : TokenList}

/-- The passes are one pass: each item gives way to its outcome, if it has one. -/
theorem finalize_tokens (h : ∀ t ∈ l.ahead, t.kind = .whitespace → t.value = "") :
    l.finalize.tokens = l.outcomes.filterMap id := by
  rw [outcomes_eq_outcomesFrom]
  exact (classifyAfter_resolveSpaces false l.current? none h (.inl rfl)).1

/-- The no-ops are the items other than spaces that are dropped. -/
theorem finalize_noops (h : ∀ t ∈ l.ahead, t.kind = .whitespace → t.value = "") :
    l.finalize.noops = (l.ahead.zip l.outcomes).countP
      fun (t, made) => t.kind ≠ .whitespace && made.isNone := by
  rw [outcomes_eq_outcomesFrom]
  exact (classifyAfter_resolveSpaces false l.current? none h (.inl rfl)).2

/-- The dropped spaces are the spaces without an outcome. -/
theorem finalize_dropped (l : TokenList) :
    l.finalize.dropped = (l.ahead.zip l.outcomes).countP
      fun (t, made) => t.kind = .whitespace && made.isNone := by
  rw [outcomes_eq_outcomesFrom]
  exact (resolveSpaces_counts false l.current? l.ahead).1

/-- The intersections are the spaces with an outcome. -/
theorem finalize_intersections (l : TokenList) :
    l.finalize.intersections = (l.ahead.zip l.outcomes).countP
      fun (t, made) => t.kind = .whitespace && made.isSome := by
  rw [outcomes_eq_outcomesFrom]
  exact (resolveSpaces_counts false l.current? l.ahead).2

/-- The passes replace each item after the cursor by its outcome and drop those without one; they add
to the metrics the spaces that were dropped, the spaces that were kept and the other items that were
dropped, and set the number of final tokens. -/
theorem finalize_pointwise (l : TokenList) (m : Metrics)
    (h : ∀ t ∈ l.toList, t.kind = .whitespace → t.value = "") :
    let fates := l.ahead.zip l.outcomes
    fates.map Prod.fst = l.ahead ∧
      l.finalize.tokens = fates.filterMap Prod.snd ∧
      l.finalize.addTo m =
        { m with
          finalTokens := (fates.filterMap Prod.snd).length
          whitespaceDropped := m.whitespaceDropped +
            fates.countP fun (t, made) => t.kind = .whitespace && made.isNone
          intersectionsCreated := m.intersectionsCreated +
            fates.countP fun (t, made) => t.kind = .whitespace && made.isSome
          noopsRemoved := m.noopsRemoved +
            fates.countP fun (t, made) => t.kind ≠ .whitespace && made.isNone } := by
  intro fates
  have hahead : ∀ t ∈ l.ahead, t.kind = .whitespace → t.value = "" :=
    fun t ht => h t (List.mem_append_right _ ht)
  have hlen : l.ahead.length = l.outcomes.length := l.length_outcomes.symm
  have htokens : l.finalize.tokens = fates.filterMap Prod.snd := by
    rw [finalize_tokens hahead, ← List.map_snd_zip (Nat.le_of_eq hlen.symm), List.filterMap_map]
    rfl
  refine ⟨List.map_fst_zip (Nat.le_of_eq hlen), htokens, ?_⟩
  rw [Stream.Final.addTo, finalize_noops hahead, finalize_dropped, finalize_intersections, htokens]

/-- A list with its cursor on the second item, with spaces that are dropped and spaces that meet, and
with signs of every sort. -/
def mixed : TokenList where
  visited := [⟨"A1", .operand, .plain⟩, ⟨"(", .unknown, .plain⟩]
  ahead :=
    [⟨"", .whitespace, .plain⟩, ⟨"@SUM", .function, .start⟩, ⟨"+", .infixOp, .plain⟩,
      ⟨"", .whitespace, .plain⟩, ⟨"-", .infixOp, .plain⟩, ⟨"2", .operand, .plain⟩,
      ⟨"", .whitespace, .plain⟩, ⟨"+", .infixOp, .union⟩, ⟨"+", .noop, .plain⟩,
      ⟨"<", .infixOp, .plain⟩, ⟨"", .whitespace, .plain⟩]

theorem finalize_pointwise_mixed :
    (∀ t ∈ mixed.toList, t.kind = .whitespace → t.value = "") ∧
      mixed.finalize.tokens =
        [⟨"", .infixOp, .intersection⟩, ⟨"SUM", .function, .start⟩, ⟨"-", .prefixOp, .plain⟩,
          ⟨"2", .operand, .number⟩, ⟨"+", .infixOp, .math⟩, ⟨"<", .infixOp, .logical⟩] := by
  have h : ∀ t ∈ mixed.toList, t.kind = .whitespace → t.value = "" := by decide
  refine ⟨h, ?_⟩
  rw [(finalize_pointwise mixed {} h).2.1]
  decide

end TokenList

end SheetFormula
