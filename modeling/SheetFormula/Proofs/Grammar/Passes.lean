import SheetFormula.Proofs.Grammar.Tree

/-!
# The passes on a well-formed formula

What the passes make of the raw tokens of a well-formed formula. A run of spaces is an intersection
exactly where two operands meet, and a sign is between two operands exactly where it is a binary operator,
for what stands before a lexeme (`Side`) is what the passes look at (`Side.Sees`). Main statements:

* `outcomes_gap`, `outcomes_lexeme`: the outcomes of the spaces before a lexeme, and of the lexeme;
* `outcomes_rawTokens`: the passes give the tokens of the lexemes.
-/

namespace SheetFormula.Grammar

open SheetFormula.Scan SheetFormula.Stream

/-- The raw token of a run of spaces. -/
def spaceToken : Token := ⟨"", .whitespace, .plain⟩

/-- The raw tokens of so many spaces. -/
def gapTokens (n : Nat) : List Token := if n = 0 then [] else [spaceToken]

/-- The raw tokens of some lexemes with spaces before them. -/
def rawTokens (pad : Nat → Nat) : List Word → List Token
  | [] => []
  | w :: ws =>
    gapTokens (w.gap (pad 0)) ++ (w.lexeme.raw ++ rawTokens (fun i => pad (i + 1)) ws)

/-- What the passes know of what stands before a lexeme: whether a sign would stand between two
operands, and the item before. -/
def Side.Sees (follows : Bool) (left : Option Token) : Side → Prop
  | .before => follows = false ∧ left.any Token.endsOperand = false
  | .atom => follows = true ∧ left.any Token.endsOperand = true
  | .value => follows = true

variable {side : Side} {follows : Bool} {left : Option Token} {t : Token} {ts : List Token}

/-- Only spaces look at the item before them. -/
theorem outcomesFrom_cons_of_ne_whitespace (ht : t.kind ≠ .whitespace) :
    (outcomesFrom follows left (t :: ts)).filterMap id =
      (outcome follows false t).toList ++
        (outcomesFrom (precedesInfix t) (some t) ts).filterMap id := by
  rw [outcomesFrom, filterMap_id_cons, if_neg ht, outcome_of_ne_whitespace ht,
    outcome_of_ne_whitespace ht]

/-! ## Spaces -/

/-- The first raw token of a lexeme begins an operand if the lexeme does. -/
theorem Lexeme.raw_head (l : Lexeme) :
    ∃ t ts, l.raw = t :: ts ∧ t.kind ≠ .whitespace ∧ t.beginsOperand = l.begins := by
  cases l with
  | literal l => cases l <;> exact ⟨_, [], rfl, nofun, rfl⟩
  | comma s => cases s <;> exact ⟨_, [], rfl, nofun, rfl⟩
  | _ => exact ⟨_, _, rfl, nofun, rfl⟩

theorem Lexeme.Stands.cases {l : Lexeme} {meets : Bool} (h : l.Stands side meets) :
    l.begins = true ∧ side = (if meets then .atom else .before) ∨
      l.begins = false ∧ meets = false := by
  cases l with
  | literal _ | call _ | group | array => exact .inl ⟨rfl, h⟩
  | sign _ | binary _ => exact .inr ⟨rfl, h.2⟩
  | _ => exact .inr ⟨rfl, h⟩

/-- A lexeme that may stand somewhere meets what is before it if spaces there would be an
intersection. -/
theorem Lexeme.Stands.isIntersection_eq {l : Lexeme} {meets : Bool} (h : l.Stands side meets)
    (hside : side.Sees follows left) (ht : t.beginsOperand = l.begins) :
    isIntersection left (some t) = meets := by
  simp only [isIntersection, getD_map_eq_any, Option.any_some, ht]
  rcases h.cases with ⟨hbegins, rfl⟩ | ⟨hbegins, rfl⟩
  · rw [hbegins, Bool.and_true]
    cases meets <;> exact hside.2
  · rw [hbegins, Bool.and_false]

/-- The spaces before a lexeme are an intersection if two operands meet there. -/
theorem outcomes_gap {w : Word} (hw : w.lexeme.Stands side w.meets) (hside : side.Sees follows left)
    (spaces : Nat) (ts : List Token) :
    (outcomesFrom follows left (gapTokens (w.gap spaces) ++ (w.lexeme.raw ++ ts))).filterMap id =
      (if w.meets then [meetToken] else []) ++
        (outcomesFrom follows left (w.lexeme.raw ++ ts)).filterMap id := by
  obtain ⟨t, us, hraw, ht, hbegins⟩ := w.lexeme.raw_head
  rw [hraw, List.cons_append]
  by_cases hgap : w.gap spaces = 0
  · rw [gapTokens, if_pos hgap, Word.meets_of_gap_eq_zero hgap]
    rfl
  · have hspace : outcome follows w.meets spaceToken = if w.meets then some meetToken else none := rfl
    rw [gapTokens, if_neg hgap, List.singleton_append, outcomesFrom, filterMap_id_cons,
      List.head?_cons, hw.isIntersection_eq hside hbegins, hspace,
      outcomesFrom_cons_of_ne_whitespace ht, outcomesFrom_cons_of_ne_whitespace ht]
    cases w.meets <;> rfl

/-! ## Lexemes -/

theorem operandSubkind_scientific (n : Scientific) :
    operandSubkind (String.ofList n.value) = .number := by
  rw [operandSubkind, String.toList_ofList, n.isDecimal_value, if_pos rfl]

theorem outcome_literal (l : Literal) (follows : Bool) :
    outcome follows false l.raw = some l.token := by
  cases l with
  | scientific n =>
    show some (Token.mk _ _ (operandSubkind (String.ofList n.value))) = _
    rw [operandSubkind_scientific]
    rfl
  | _ => rfl

theorem dropCallMark_name (n : CallName) :
    dropCallMark (String.ofList n.spelling) = String.ofList n.name := by
  obtain ⟨marked, name, hne, -, hname⟩ := n
  rw [dropCallMark, String.toList_ofList]
  cases marked with
  | true => rfl
  | false =>
    cases name with
    | nil => exact absurd rfl hne
    | cons c cs =>
      split
      · rename_i heq
        exact absurd (congrArg List.head? heq) hname
      · rfl

theorem outcome_binary (op : BinaryOp) :
    outcome true false ⟨String.ofList op.spelling, .infixOp, op.rawSubkind⟩ = some op.token := by
  cases op <;> decide

/-- The outcome of the one raw token of a lexeme. -/
theorem outcomes_single (l : Lexeme) {made : Option Token} (ht : t.kind ≠ .whitespace)
    (hraw : l.raw = [t]) (hmade : outcome follows false t = made) (htokens : l.tokens = made.toList)
    (ts : List Token) :
    (outcomesFrom follows left (l.raw ++ ts)).filterMap id =
      l.tokens ++ (outcomesFrom (precedesInfix t) (some t) ts).filterMap id := by
  rw [hraw, htokens, ← hmade]
  exact outcomesFrom_cons_of_ne_whitespace ht

/-- The outcomes of a lexeme that may stand where it does are its tokens, whatever stands after it, and
the passes then see what stands before the next. -/
theorem outcomes_lexeme {l : Lexeme} {meets : Bool} (hl : l.Stands side meets)
    (hside : side.Sees follows left) :
    ∃ follows' left', l.after.Sees follows' left' ∧ ∀ ts,
      (outcomesFrom follows left (l.raw ++ ts)).filterMap id =
        l.tokens ++ (outcomesFrom follows' left' ts).filterMap id := by
  cases l with
  | literal l =>
    refine ⟨_, _, ?_, outcomes_single (.literal l) ?_ rfl (outcome_literal l follows) rfl⟩
    · cases l <;> exact ⟨rfl, rfl⟩
    · cases l <;> nofun
  | call n =>
    have hcall : outcome follows false ⟨String.ofList n.spelling, .function, .start⟩ =
        some ⟨String.ofList n.name, .function, .start⟩ := by
      rw [← dropCallMark_name]
      rfl
    exact ⟨_, _, ⟨rfl, rfl⟩, outcomes_single (.call n) (by nofun) rfl hcall rfl⟩
  | group => exact ⟨_, _, ⟨rfl, rfl⟩, outcomes_single .group (by nofun) rfl rfl rfl⟩
  | array => exact ⟨_, _, ⟨rfl, rfl⟩, fun ts => rfl⟩
  | endCall => exact ⟨_, _, ⟨rfl, rfl⟩, outcomes_single .endCall (by nofun) rfl rfl rfl⟩
  | endGroup => exact ⟨_, _, ⟨rfl, rfl⟩, outcomes_single .endGroup (by nofun) rfl rfl rfl⟩
  | endArray => exact ⟨_, _, ⟨rfl, rfl⟩, fun ts => rfl⟩
  | row => exact ⟨_, _, ⟨rfl, rfl⟩, fun ts => rfl⟩
  | comma s => cases s <;> exact ⟨_, _, ⟨rfl, rfl⟩, outcomes_single (.comma _) (by nofun) rfl rfl rfl⟩
  | sign s =>
    obtain ⟨rfl, -⟩ := hl
    obtain ⟨rfl, -⟩ := hside
    cases s <;> exact ⟨_, _, ⟨rfl, rfl⟩, outcomes_single (.sign _) (by nofun) rfl rfl rfl⟩
  | binary op =>
    have hfollows : follows = true := by
      cases side with
      | before => exact absurd rfl hl.1
      | atom => exact hside.1
      | value => exact hside
    rw [hfollows]
    exact ⟨_, _, ⟨rfl, rfl⟩, outcomes_single (.binary op) (by nofun) rfl (outcome_binary op) rfl⟩
  | percent => exact ⟨_, _, rfl, outcomes_single .percent (by nofun) rfl rfl rfl⟩

/-- The passes give the tokens of the lexemes. -/
theorem outcomes_rawTokens {σ : ScopeStack} {ws : List Word} (h : Sentence side σ ws)
    (hside : side.Sees follows left) (pad : Nat → Nat) :
    (outcomesFrom follows left (rawTokens pad ws)).filterMap id = ws.flatMap Word.tokens := by
  induction ws generalizing side σ follows left pad with
  | nil => rfl
  | cons w ws ih =>
    obtain ⟨hw, -, hws⟩ := h
    obtain ⟨follows', left', hsees, hlexeme⟩ := outcomes_lexeme hw hside
    rw [rawTokens, outcomes_gap hw hside, hlexeme, ih hws hsees, List.flatMap_cons, Word.tokens,
      List.append_assoc]

end SheetFormula.Grammar
