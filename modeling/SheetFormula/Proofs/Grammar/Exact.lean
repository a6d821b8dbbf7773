import SheetFormula.Proofs.Grammar.Reading

/-!
# Parsing is exact on well-formed formulas

A well-formed formula, written down with any spaces between its lexemes, is parsed into exactly the
tokens that its tree stands for, and nothing is found wrong with it. Main statements:

* `normalize_formulaText`: the scanner leaves out the spaces at the end and nothing else;
* `scan_formulaText`: the raw tokens of a formula, and the state in which its scan ends;
* `parse_formulaText`: the tokens of a formula, its check, and the absence of recoveries.
-/

namespace SheetFormula.Grammar

open SheetFormula.Scan

/-! ## The normalized formula -/

theorem trimRight_append_spaces (cs : List Char) (n : Nat) :
    Text.trimRight (cs ++ List.replicate n ' ') = Text.trimRight cs := by
  have hspaces : ∀ c ∈ List.replicate n ' ', Text.isBlank c = true := by
    intro c hc
    rw [(List.mem_replicate.1 hc).2]
    decide
  rw [Text.trimRight, List.reverse_append, List.reverse_replicate,
    List.dropWhile_append_of_pos hspaces, Text.trimRight]

theorem normalize_formulaText (e : Tree .expr) (pad : Nat → Nat) (trailing : Nat) :
    Scan.normalize (formulaText e pad trailing).toList = '=' :: layout pad e.words := by
  have hlast : Text.trimRight ('=' :: layout pad e.words) = '=' :: layout pad e.words := by
    rcases layout_last pad e.words with hnil | ⟨cs, c, hs, hc⟩
    · rw [hnil]
      rfl
    · rw [hs, ← List.cons_append]
      exact Text.trimRight_append_singleton hc
  have htrim : Text.trim (formulaText e pad trailing).toList = '=' :: layout pad e.words := by
    rw [formulaText, String.toList_ofList, Text.trim, List.dropWhile_cons_of_neg (by decide),
      ← List.cons_append, trimRight_append_spaces, hlast]
  rw [Scan.normalize, htrim]
  rfl

/-! ## The scan -/

theorem shows_start (formula : String) :
    Shows .code ((Scan.normalize formula.toList).drop 1) [] {} [] (State.start formula) :=
  ⟨rfl, rfl, rfl, rfl, rfl, fun _ he => nomatch he⟩

/-- Where no text is left, the scan is at its end. -/
theorem Reads.finish {formula : String} {fresh : Bool} {σ : ScopeStack} {raw : List Token}
    (h : Reads (State.start formula).run fresh [] σ raw) :
    Shows .code [] [] σ raw (State.start formula).finish := by
  obtain ⟨pending, out, ⟨s, hrun, hs⟩, hraw, -, -⟩ := h
  rw [State.run_of_nil hs.rest] at hrun
  rw [State.finish, ← hrun, ← hraw]
  exact hs.flush

/-- The scan of a well-formed formula puts out the raw tokens of its lexemes and ends outside all literals
with no scope open. -/
theorem scan_formulaText (e : Tree .expr) (pad : Nat → Nat) (trailing : Nat) :
    ∃ σ, σ.isEmpty = true ∧
      Shows .code [] [] σ (rawTokens pad e.words) (State.start (formulaText e pad trailing)).finish := by
  have hstart := shows_start (formulaText e pad trailing)
  rw [normalize_formulaText, List.drop_one, List.tail_cons] at hstart
  have hvisit : Visits (State.start (formulaText e pad trailing)).run .code (layout pad e.words) [] {} [] :=
    ⟨_, rfl, hstart⟩
  obtain ⟨fresh, σ, hσ, hend⟩ := reads_layout e.sentence_expr pad (hvisit.reads true)
  rw [List.nil_append] at hend
  exact ⟨σ, hσ, hend.finish⟩

/-- No raw token of a lexeme is unknown. -/
theorem Lexeme.known_raw (l : Lexeme) : ∀ t ∈ l.raw, t.kind ≠ .unknown := by
  cases l with
  | literal l => cases l <;> simp [Lexeme.raw, Literal.raw]
  | comma s => cases s <;> simp [Lexeme.raw, Separator.token, argumentToken]
  | _ => simp [Lexeme.raw, callEnd, arrayToken, rowToken, argumentToken]

theorem known_rawTokens (pad : Nat → Nat) (ws : List Word) :
    ∀ t ∈ rawTokens pad ws, t.kind ≠ .unknown := by
  induction ws generalizing pad with
  | nil => exact fun _ ht => nomatch ht
  | cons w ws ih =>
    intro t ht
    rw [rawTokens, List.mem_append, List.mem_append] at ht
    rcases ht with ht | ht | ht
    · rw [gapTokens] at ht
      split at ht
      · cases ht
      · rw [List.mem_singleton.1 ht]
        decide
    · exact w.lexeme.known_raw t ht
    · exact ih _ t ht

/-! ## The result -/

/-- A well-formed formula, however it is spaced, is parsed into the tokens of its tree, does not end
inside an error literal, passes the check, and makes the scanner recover from nothing. -/
theorem parse_formulaText (p : ScanPreferences) (e : Tree .expr) (pad : Nat → Nat) (trailing : Nat) :
    let r := parse p (formulaText e pad trailing)
    r.tokens = e.tokens ∧ r.inError = false ∧ r.check = .ok () ∧ r.metrics.hasRecoveries = false := by
  intro r
  obtain ⟨σ, hσ, hend⟩ := scan_formulaText e pad trailing
  have hraw : r.raw = rawTokens pad e.words := hend.tokens
  have htokens : r.tokens = e.tokens := by
    rw [tokens_parse]
    show ((Stream.outcomesFrom false none r.raw).filterMap id) = _
    rw [hraw, outcomes_rawTokens e.sentence_expr ⟨rfl, rfl⟩, e.tokens_words]
  have herror : r.inError = false := by
    show ((State.start (formulaText e pad trailing)).finish.mode == .error) = false
    rw [hend.mode]
    rfl
  have hunknown : r.metrics.unknownTokens = 0 := by
    rw [unknownTokens_parse, List.countP_eq_zero]
    show ∀ t ∈ r.raw, _
    rw [hraw]
    simpa using known_rawTokens pad e.words
  have hunder : r.metrics.underflows = 0 := by
    rw [underflows_parse, List.countP_eq_zero]
    intro entry hentry
    rw [Bool.not_eq_true]
    exact hend.clean entry hentry
  refine ⟨htokens, herror, check_eq_ok p herror hunknown hunder ?_, ?_⟩
  · rw [hend.scopes, hσ]
  · rw [Metrics.hasRecoveries, hunknown, hunder]
    rfl

-- A sign, two operands that meet, and a percent sign in parentheses, with no more spaces than needed.
example :
    let text : String → Tree .expr := fun s => .operands (.single (.literal (.text s)))
    let e : Tree .expr :=
      .unary .minus (.operands (.meet (.single (.literal (.text "a")))
        (.group (.item .union (.percent (text "b"))))))
    formulaText e (fun _ => 0) 0 = "=-\"a\" (\"b\"%)" ∧
      e.tokens =
        [⟨"-", .prefixOp, .plain⟩, ⟨"a", .operand, .text⟩, ⟨"", .infixOp, .intersection⟩,
          ⟨"", .subexpression, .start⟩, ⟨"b", .operand, .text⟩, ⟨"%", .postfixOp, .plain⟩,
          ⟨"", .subexpression, .stop⟩] := by
  decide

end SheetFormula.Grammar
