import SheetFormula.Proofs.Vocabulary

/-!
# Where operators stand in final streams

Signs are told apart by what is before them, and spaces are resolved by what is on both sides, while the
signs that do nothing are still in the list. The result holds for the neighbours that are left all the
same: a sign is taken out only where no operand is complete, so what is before it stands for it, and
spaces mean something only directly before the beginning of an operand, which is never taken out. Main
statements:

* `Classified.fitsBetween`: a token that is kept fits in, if the last token before it that is kept is the
  same to signs as the one that the pass looked at;
* `fitFrom_outcomesFrom`: so all tokens that are kept fit in, by induction over the raw tokens;
* `parse_operator_placement`: so does every token of the final stream of every formula.
-/

namespace SheetFormula

namespace Stream

variable {follows meets : Bool} {left last right : Option Token} {t u : Token} {ts : List Token}

/-- A token fits between the tokens directly before and after it. -/
structure FitsBetween (left : Option Token) (t : Token) (right : Option Token) : Prop where
  /-- An operator before its operand is a minus sign, and no operand is complete before it. -/
  sign : t.kind = .prefixOp →
    t.value = "-" ∧ ∀ u ∈ left, u.endsOperand = false ∧ u.kind ≠ .postfixOp
  /-- A sign between two operands is a mathematical operator, and an operand is complete before it. -/
  between : t.kind = .infixOp → t.value = "+" ∨ t.value = "-" →
    t.subkind = .math ∧ ∃ u ∈ left, u.endsOperand = true ∨ u.kind = .postfixOp
  /-- There is no plus sign before its operand. -/
  plus : t.value = "+" → t.kind ≠ .noop ∧ t.kind ≠ .prefixOp
  /-- An intersection stands between the end of an operand and the beginning of one. -/
  intersection : t.subkind = .intersection →
    (∃ u ∈ left, u.endsOperand = true) ∧ ∃ v ∈ right, v.beginsOperand = true

/-- Each of some tokens fits between its neighbours, of which `left` is the one before the first. -/
def FitFrom (left : Option Token) : List Token → Prop
  | [] => True
  | t :: ts => FitsBetween left t ts.head? ∧ FitFrom (some t) ts

/-- What it says of one token in the midst of others. -/
theorem FitFrom.split {before after : List Token}
    (h : FitFrom left (before ++ t :: after)) :
    FitsBetween (before.getLast?.or left) t after.head? := by
  induction before generalizing left with
  | nil => exact h.1
  | cons u before ih =>
    have hfit := ih h.2
    rw [List.getLast?_cons]
    cases hlast : before.getLast? <;> simpa [hlast] using hfit

/-! ## The neighbours of a token -/

theorem precedesInfix_iff : precedesInfix t = true ↔ t.endsOperand = true ∨ t.kind = .postfixOp := by
  simp [precedesInfix]

theorem any_precedesInfix :
    left.any precedesInfix = true ↔ ∃ u ∈ left, u.endsOperand = true ∨ u.kind = .postfixOp := by
  cases left <;> simp [precedesInfix_iff]

theorem not_any_precedesInfix (h : left.any precedesInfix = false) :
    ∀ u ∈ left, u.endsOperand = false ∧ u.kind ≠ .postfixOp := by
  rintro u rfl
  simpa [precedesInfix] using h

/-- A token that begins an operand has some meaning. -/
theorem ne_noop_of_beginsOperand (h : t.beginsOperand = true) : t.kind ≠ .noop := by
  intro hk
  simp [Token.beginsOperand, Token.isStart, Kind.isScope, hk] at h

/-- A token other than spaces that has some meaning is kept as it is classified. -/
theorem outcome_of_kept (h : t.kind ≠ .whitespace) (hkept : (classifyToken follows t).kind ≠ .noop) :
    outcome follows meets t = some (classifyToken follows t) := by
  simp [outcome_of_ne_whitespace h, Option.filter, hkept]

/-- A token without meaning is taken out. -/
theorem outcome_of_noop (h : t.kind ≠ .whitespace) (hnoop : (classifyToken follows t).kind = .noop) :
    outcome follows meets t = none := by
  simp [outcome_of_ne_whitespace h, Option.filter, hnoop]

/-- What begins an operand is not taken out, and still begins one. -/
theorem beginsOperand_head_outcomesFrom (follows : Bool) (left : Option Token)
    (h : ts.head?.any Token.beginsOperand = true) :
    ∃ v ∈ ((outcomesFrom follows left ts).filterMap id).head?, v.beginsOperand = true := by
  cases ts with
  | nil => cases h
  | cons t ts =>
    have hbegins : t.beginsOperand = true := h
    have hclassified : (classifyToken follows t).beginsOperand = true := by
      rw [beginsOperand_classifyToken, hbegins]
    have hkept := ne_noop_of_beginsOperand hclassified
    rw [outcomesFrom, outcome_of_kept (ne_whitespace_of_beginsOperand hbegins) hkept]
    exact ⟨classifyToken follows t, rfl, hclassified⟩

/-! ## The tokens that are kept -/

/-- A token that is neither a sign nor an intersection fits in everywhere. -/
theorem fitsBetween_of_ne (hnoop : t.kind ≠ .noop) (hsign : t.kind ≠ .prefixOp)
    (hother : t.kind = .infixOp → t.value ≠ "+" ∧ t.value ≠ "-")
    (hintersection : t.subkind ≠ .intersection) : FitsBetween left t right where
  sign h := absurd h hsign
  between h hvalue := by
    obtain ⟨hplus, hminus⟩ := hother h
    exact absurd hvalue (not_or.2 ⟨hplus, hminus⟩)
  plus _ := ⟨hnoop, hsign⟩
  intersection h := absurd h hintersection

/-- A token that is kept fits in, if a sign is classified by the token that is before it then. -/
theorem Classified.fitsBetween (h : Classified follows t u) (hnoop : t.kind ≠ .noop)
    (hsign : t.kind ≠ .prefixOp) (hintersection : t.subkind ≠ .intersection)
    (hfollows : t.kind = .infixOp → left.any precedesInfix = follows) (hkept : u.kind ≠ .noop) :
    FitsBetween left u right := by
  cases h with
  | math hvalue _ =>
    exact {
      sign := fun h => by cases h
      between := fun _ _ => ⟨rfl, any_precedesInfix.1 (hfollows rfl)⟩
      plus := fun _ => by simp
      intersection := fun h => by cases h }
  | minus _ =>
    exact {
      sign := fun _ => ⟨rfl, not_any_precedesInfix (hfollows rfl)⟩
      between := fun h => by cases h
      plus := fun h => absurd (show "-" = "+" from h) (by decide)
      intersection := fun h => absurd h hintersection }
  | plus _ => exact absurd rfl hkept
  | operator hvalue =>
    exact fitsBetween_of_ne (by simp) (by simp) (fun _ => hvalue) (infixSubkind_ne (by decide) _)
  | operand value =>
    exact fitsBetween_of_ne (by simp) (by simp) (fun h => by cases h)
      (operandSubkind_ne (by decide) value)
  | function _ _ => exact fitsBetween_of_ne (by simp) (by simp) (fun h => by cases h) hintersection
  | same hoperator _ _ => exact fitsBetween_of_ne hnoop hsign (fun h => (hoperator h).2) hintersection

/-- No raw token is a no-op, an operator before its operand, or an intersection. -/
theorem unclassified_of_vocabulary (h : Scan.Vocabulary t) :
    t.kind ≠ .noop ∧ t.kind ≠ .prefixOp ∧ t.subkind ≠ .intersection := by
  cases h with
  | @stop kind h => cases kind <;> simp [Kind.isScope] at h ⊢
  | _ => simp

/-- Only a sign is found to do nothing, and only where no operand is complete. -/
theorem Classified.of_noop (h : Classified follows t u) (hnoop : u.kind = .noop)
    (hraw : t.kind ≠ .noop) : t.kind = .infixOp ∧ follows = false := by
  cases h with
  | plus _ => exact ⟨rfl, rfl⟩
  | same _ _ _ => exact absurd hnoop hraw
  | _ => cases hnoop

/-- An intersection fits between the end of an operand and the beginning of one. -/
theorem fitsBetween_intersection (hleft : left.any Token.endsOperand = true)
    (hright : ∃ v ∈ right, v.beginsOperand = true) :
    FitsBetween left ⟨"", .infixOp, .intersection⟩ right where
  sign h := by cases h
  between _ h := by simp at h
  plus h := by simp at h
  intersection _ := ⟨by cases left <;> simp_all, hright⟩

/-- All raw tokens that are kept fit between their neighbours. Here `last` is the last token before them that is
kept: signs may look at it as well, unless it is an intersection that was made from spaces, and then the
first of the tokens is no sign; and where an operand ends directly before them, `last` is its end. -/
theorem fitFrom_outcomesFrom (hwords : ∀ t ∈ ts, Scan.Vocabulary t)
    (hsign : last.any precedesInfix = follows ∨ ts.head?.any Token.beginsOperand = true)
    (hend : left.any Token.endsOperand = true → last.any Token.endsOperand = true) :
    FitFrom last ((outcomesFrom follows left ts).filterMap id) := by
  induction ts generalizing follows left last with
  | nil => trivial
  | cons t ts ih =>
    rw [List.forall_mem_cons] at hwords
    obtain ⟨hword, hwords⟩ := hwords
    have hfollows : t.beginsOperand = false → last.any precedesInfix = follows := fun h =>
      hsign.resolve_right fun hbegins => by simp [h] at hbegins
    rw [outcomesFrom, filterMap_id_cons]
    by_cases ht : t.kind = .whitespace
    · have hspace : t.beginsOperand = false ∧ t.endsOperand = false := by
        simp [Token.beginsOperand, Token.endsOperand, Token.isStart, Token.isStop, Kind.isScope, ht]
      have hnext : (some t).any Token.endsOperand = true → ∀ {p : Prop}, p := fun h => by
        simp [hspace.2] at h
      rw [if_pos ht, outcome, ht]
      cases hmeets : isIntersection left ts.head? with
      | true =>
        simp only [isIntersection, getD_map_eq_any, Bool.and_eq_true] at hmeets
        obtain ⟨hbefore, hafter⟩ := hmeets
        exact ⟨fitsBetween_intersection (hend hbefore) (beginsOperand_head_outcomesFrom _ _ hafter),
          ih hwords (.inr hafter) fun h => hnext h⟩
      | false => exact ih hwords (.inl (hfollows hspace.1)) fun h => hnext h
    · have hinner : t.kind = .infixOp → last.any precedesInfix = follows := by
        intro hk
        apply hfollows
        simp [Token.beginsOperand, Token.isStart, Kind.isScope, hk]
      obtain ⟨hraw, hplain, hintersection⟩ := unclassified_of_vocabulary hword
      rw [if_neg ht]
      by_cases hnoop : (classifyToken follows t).kind = .noop
      · -- no operand is complete before a sign that is taken out, and none is after it
        obtain ⟨hk, rfl⟩ := (classified_classifyToken follows t).of_noop hnoop hraw
        have hends : t.endsOperand = false := by
          simp [Token.endsOperand, Token.isStop, Kind.isScope, hk]
        have hprecedes : precedesInfix t = false := by simp [precedesInfix, hends, hk]
        rw [outcome_of_noop ht hnoop]
        refine ih hwords (.inl ?_) fun h => by simp [hends] at h
        rw [hinner hk, hprecedes]
      · have hfit : ∀ right, FitsBetween last (classifyToken follows t) right := fun _ =>
          (classified_classifyToken follows t).fitsBetween hraw hplain hintersection hinner hnoop
        have hsame := precedesInfix_classifyToken follows t
        have hends := endsOperand_classifyToken follows t
        rw [outcome_of_kept ht hnoop]
        exact ⟨hfit _, ih hwords (.inl hsame) fun h => hends.trans h⟩

end Stream

/-- Every token of the final stream of a formula, well-formed or not, fits between its neighbours in this
stream. -/
theorem parse_operator_placement (p : ScanPreferences) (formula : String)
    {before after : List Token} {t : Token} (h : (parse p formula).tokens = before ++ t :: after) :
    Stream.FitsBetween before.getLast? t after.head? := by
  have hwords : ∀ u ∈ (parse p formula).raw, Scan.Vocabulary u := fun _ => Scan.vocabulary_of_mem_scan
  have hfit : Stream.FitFrom none (parse p formula).tokens := by
    rw [tokens_parse]
    exact Stream.fitFrom_outcomesFrom hwords (.inl rfl) (by simp)
  rw [h] at hfit
  have hsplit := hfit.split
  rwa [Option.or_none] at hsplit

theorem parse_operator_placement_signs :
    let before : List Token :=
      [⟨"-", .prefixOp, .plain⟩, ⟨"-", .prefixOp, .plain⟩, ⟨"A1", .operand, .range⟩]
    let after : List Token := [⟨"B1", .operand, .range⟩, ⟨"-", .infixOp, .math⟩,
      ⟨"-", .prefixOp, .plain⟩, ⟨"2", .operand, .number⟩]
    let t : Token := ⟨"", .infixOp, .intersection⟩
    (parse {} "=-+-+A1 B1-+ -2").tokens = before ++ t :: after ∧
      Stream.FitsBetween before.getLast? t after.head? := by
  intro before after t
  have h : (parse {} "=-+-+A1 B1-+ -2").tokens = before ++ t :: after := by decide +kernel
  exact ⟨h, parse_operator_placement {} _ h⟩

end SheetFormula
