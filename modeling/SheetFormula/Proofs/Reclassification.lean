import SheetFormula.Proofs.PassesPointwise

/-!
# Classifying tokens again

The classifier looks at the item before a token after it has classified that item. A second run finds
the same there as far as signs are concerned, and so it changes nothing but the names of functions, of
which one more mark of an explicit call is dropped. It does so too when the items that do nothing have
been taken out: none of them precedes an infix operator, so a sign that was found to stand between two
operands still does, and no other sign is left for the second run. Main statements:

* `TokenList.classify_eq`, `TokenList.removeNoops_eq`: the passes over a list with a cursor;
* `Classified.again`: classifying one token twice;
* `classifyAfter_filter`: a second run, after some items were taken out;
* `TokenList.reclassified`: so the classifier is stable, on every list.
-/

namespace SheetFormula

/-! ## The passes over a list with a cursor -/

open SheetFormula.Stream

namespace TokenList

/-- The item under the cursor, classified. -/
theorem classifyCurrent_eq (t : Token) (before ahead : List Token) :
    classifyCurrent ⟨t :: before, ahead⟩ =
      ⟨classifyToken ((before.head?.map precedesInfix).getD false) t :: before, ahead⟩ := by
  cases before <;> rfl

/-- The items ahead of the cursor, classified one after the other. -/
theorem classifyAhead_eq (visited ahead : List Token) :
    classifyAhead ⟨visited, ahead⟩ = ⟨(classifyAfter visited.head? ahead).reverse ++ visited, []⟩ := by
  induction ahead generalizing visited with
  | nil =>
    rw [classifyAhead]
    rfl
  | cons t ahead ih =>
    rw [classifyAhead]
    show (classifyCurrent ⟨t :: visited, ahead⟩).classifyAhead = _
    rw [classifyCurrent_eq, ih]
    simp [classifyAfter]

/-- All items are classified, wherever the cursor is. -/
theorem classify_eq (l : TokenList) : l.classify = ofList (Stream.classify l.toList) := by
  have hahead : l.reset.classifyAhead = ⟨(Stream.classify l.toList).reverse, []⟩ := by
    have h := classifyAhead_eq [] l.toList
    rwa [List.append_nil] at h
  rw [classify, hahead, reset, toList, List.reverse_reverse, List.append_nil]

theorem removeNoops_eq (l : TokenList) : l.removeNoops = ofList (Stream.removeNoops l.toList) := by
  have hfoldl : ∀ (ts kept : List Token),
      ts.foldl (fun (kept : TokenList) t => if t.kind = .noop then kept else kept.add t) (ofList kept) =
        ofList (kept ++ Stream.removeNoops ts) := by
    intro ts
    induction ts with
    | nil => simp [Stream.removeNoops]
    | cons t ts ih =>
      intro kept
      rw [List.foldl_cons, Stream.removeNoops_cons]
      by_cases h : t.kind = .noop
      · simp [h, ih, Option.filter]
      · have hadd : (ofList kept).add t = ofList (kept ++ [t]) := rfl
        simp [h, hadd, ih, Option.filter]
  exact hfoldl l.toList []

/-- The passes of a parse are these. -/
theorem finalize_eq (l : TokenList) :
    ofList l.finalize.tokens = (ofList l.resolveSpaces.tokens).classify.removeNoops := by
  rw [removeNoops_eq, classify_eq]
  rfl

end TokenList

/-! ## One token -/

namespace Stream

variable {b b' : Bool} {left left' : Option Token} {t u : Token} {ts : List Token} {q : Token → Bool}

/-- The token, with one mark of an explicit call dropped if it is a function. -/
def dropMark (t : Token) : Token :=
  if t.kind = .function then { t with value := dropCallMark t.value } else t

/-- A token that is classified for the second time only loses a mark, if a sign that was between two
operands is so again. -/
theorem Classified.again (hu : Classified b t u) (h : b = true → b' = true) :
    classifyToken b' u = dropMark u := by
  cases hu with
  | math hvalue _ =>
    cases h rfl
    rcases hvalue with rfl | rfl <;> rfl
  | minus _ => rfl
  | plus _ => rfl
  | @operator _ value hvalue =>
    have hclassified : infixSubkind value ≠ .plain := infixSubkind_ne (by decide) value
    simp [classifyToken, dropMark, hvalue, hclassified]
  | operand value =>
    have hclassified : operandSubkind value ≠ .plain := operandSubkind_ne (by decide) value
    simp [classifyToken, dropMark, hclassified]
  | function _ _ => rfl
  | same hoperator hoperand hfunction =>
    obtain ⟨value, kind, subkind⟩ := t
    cases kind
    case infixOp => simp [classifyToken, dropMark, hoperator rfl]
    case operand => simp [classifyToken, dropMark, hoperand rfl]
    case function => exact absurd rfl hfunction
    all_goals rfl

/-! ## Lists of tokens -/

/-- A second run only drops marks, if the items that were taken out in the meantime precede no infix
operator. -/
theorem classifyAfter_filter (hq : ∀ t, q t = false → precedesInfix t = false)
    (h : left.any precedesInfix = true → left'.any precedesInfix = true) :
    classifyAfter left' ((classifyAfter left ts).filter q) =
      ((classifyAfter left ts).filter q).map dropMark := by
  induction ts generalizing left left' with
  | nil => rfl
  | cons t ts ih =>
    rw [classifyAfter, getD_map_eq_any]
    cases hkept : q (classifyToken (left.any precedesInfix) t) with
    | false =>
      have hprecedes := hq _ hkept
      rw [List.filter_cons_of_neg (by simp [hkept])]
      exact ih fun h => by simp [hprecedes] at h
    | true =>
      have hnext : ∀ u, (some u).any precedesInfix = true →
          (some (classifyToken (left'.any precedesInfix) u)).any precedesInfix = true := by
        intro u hu
        rw [Option.any_some, precedesInfix_classifyToken]
        exact hu
      rw [List.filter_cons_of_pos hkept, classifyAfter, getD_map_eq_any, ih (hnext _),
        (classified_classifyToken _ t).again h, List.map_cons]

/-- A second run only drops marks. -/
theorem classify_classify (ts : List Token) : classify (classify ts) = (classify ts).map dropMark := by
  have hall : ∀ us : List Token, us.filter (fun _ => true) = us := fun _ =>
    List.filter_eq_self.2 fun _ _ => rfl
  have h : classify ((classify ts).filter fun _ => true) =
      ((classify ts).filter fun _ => true).map dropMark :=
    classifyAfter_filter (fun _ hfalse => nomatch hfalse) id
  rwa [hall] at h

/-- It only drops marks when the items that do nothing have been taken out, too. -/
theorem classify_removeNoops (ts : List Token) :
    classify (removeNoops (classify ts)) = (removeNoops (classify ts)).map dropMark := by
  have hnoop : ∀ t : Token, decide (t.kind ≠ .noop) = false → precedesInfix t = false := by
    intro t ht
    have hk : t.kind = .noop := by simpa using ht
    simp [precedesInfix, Token.endsOperand, Token.isStop, Kind.isScope, hk]
  exact classifyAfter_filter hnoop id

/-! ## Marks -/

@[simp] theorem kind_dropMark (t : Token) : (dropMark t).kind = t.kind := by
  unfold dropMark
  split <;> rfl

@[simp] theorem subkind_dropMark (t : Token) : (dropMark t).subkind = t.subkind := by
  unfold dropMark
  split <;> rfl

/-- Without a mark at its front a name stays as it is. -/
theorem dropCallMark_of_head (name : String) (h : name.toList.head? ≠ some '@') :
    dropCallMark name = name := by
  unfold dropCallMark
  split
  · rename_i heq
    simp [heq] at h
  · rfl

/-- What is left of a name has no mark at its front, unless there were two. -/
theorem head_dropCallMark {name : String} (h : ¬ ['@', '@'] <+: name.toList) :
    (dropCallMark name).toList.head? ≠ some '@' := by
  unfold dropCallMark
  split
  · rename_i cs hname
    rw [String.toList_ofList]
    intro hhead
    obtain ⟨ds, rfl⟩ : ∃ ds, cs = '@' :: ds := List.head?_eq_some_iff.1 hhead
    exact h (hname ▸ List.prefix_append ['@', '@'] ds)
  · rename_i hname
    intro hhead
    obtain ⟨cs, hcs⟩ := List.head?_eq_some_iff.1 hhead
    exact hname cs hcs

/-- A classified token has no mark to lose, unless its name had two. -/
theorem Classified.dropMark_eq (hu : Classified b t u)
    (h : t.kind = .function → ¬ ['@', '@'] <+: t.value.toList) : dropMark u = u := by
  cases hu with
  | function name subkind =>
    have hname := dropCallMark_of_head _ (head_dropCallMark (h rfl))
    simp [dropMark, hname]
  | same _ _ hfunction => exact if_neg hfunction
  | _ => rfl

theorem map_dropMark_classifyAfter (left : Option Token)
    (h : ∀ t ∈ ts, t.kind = .function → ¬ ['@', '@'] <+: t.value.toList) :
    (classifyAfter left ts).map dropMark = classifyAfter left ts := by
  induction ts generalizing left with
  | nil => rfl
  | cons t ts ih =>
    rw [List.forall_mem_cons] at h
    rw [classifyAfter, List.map_cons, (classified_classifyToken _ t).dropMark_eq h.1, ih _ h.2]

end Stream

/-! ## The classifier is stable -/

/-- The kind and the subkind of a token. -/
def Token.role (t : Token) : Kind × Subkind := (t.kind, t.subkind)

theorem Stream.map_role_dropMark (ts : List Token) :
    (ts.map dropMark).map Token.role = ts.map Token.role := by
  rw [List.map_map]
  refine List.map_congr_left fun t _ => ?_
  simp [Token.role]

namespace TokenList

/-- What is the same when the items of a list are classified again. -/
structure Reclassified (l : TokenList) : Prop where
  /-- Kinds and subkinds are the same. -/
  roles : l.classify.classify.toList.map Token.role = l.classify.toList.map Token.role
  /-- Values are the same, but for one more mark of an explicit call that is dropped. -/
  values : l.classify.classify.toList.map Token.value =
    l.classify.toList.map fun t => if t.kind = .function then dropCallMark t.value else t.value
  /-- Everything is the same if no function has two marks. -/
  idempotent : (∀ t ∈ l.toList, t.kind = .function → ¬ ['@', '@'] <+: t.value.toList) →
    l.classify.classify = l.classify
  /-- Kinds and subkinds are the same if the items that do nothing are taken out in the meantime. -/
  withoutNoops : l.classify.removeNoops.classify.toList.map Token.role =
    l.classify.removeNoops.toList.map Token.role

/-- The classifier is stable on every list of tokens, wherever the cursor is. -/
theorem reclassified (l : TokenList) : l.Reclassified where
  roles := by
    rw [classify_eq l.classify, classify_eq l, toList_ofList, toList_ofList, classify_classify,
      map_role_dropMark]
  values := by
    rw [classify_eq l.classify, classify_eq l, toList_ofList, toList_ofList, classify_classify,
      List.map_map]
    refine List.map_congr_left fun t _ => ?_
    exact apply_ite Token.value _ _ _
  idempotent h := by
    have hmarks : (Stream.classify l.toList).map dropMark = Stream.classify l.toList :=
      map_dropMark_classifyAfter none h
    rw [classify_eq l.classify, classify_eq l, toList_ofList, classify_classify, hmarks]
  withoutNoops := by
    rw [classify_eq, removeNoops_eq, classify_eq, toList_ofList, toList_ofList, toList_ofList,
      classify_removeNoops, map_role_dropMark]

theorem reclassified_mixed :
    (∀ t ∈ mixed.toList, t.kind = .function → ¬ ['@', '@'] <+: t.value.toList) ∧
      mixed.classify.classify = mixed.classify := by
  have h : ∀ t ∈ mixed.toList, t.kind = .function → ¬ ['@', '@'] <+: t.value.toList := by decide
  exact ⟨h, mixed.reclassified.idempotent h⟩

end TokenList

end SheetFormula
