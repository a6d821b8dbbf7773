import SheetFormula.Proofs.StructureCheck

/-!
# Error literals

What becomes of a `#` in the formula as a whole: a literal that stands there is one raw token, and the
scan goes on after it; text in which no literal stands is the last token of the formula, which survives
the passes as a range and is what the structure check reports. Main statements:

* `parse_unfinished`: a `#` at which no error literal stands;
* `parse_error_literals`: every `#` of every formula.
-/

namespace SheetFormula

open Scan

/-- A text that begins with a `#` denotes a range. -/
theorem Stream.operandSubkind_hash (cs : List Char) :
    operandSubkind (String.ofList ('#' :: cs)) = .range := by
  have hword : ∀ word : String, word.toList.head? ≠ some '#' → String.ofList ('#' :: cs) ≠ word := by
    rintro _ h rfl
    exact h (by rw [String.toList_ofList, List.head?_cons])
  have hdecimal : Text.isDecimal ('#' :: cs) = false := by
    simp [Text.isDecimal, Text.dropSign, Text.isWord, Text.isUnsignedDecimal, Text.isDigit]
  rw [operandSubkind, String.toList_ofList, hdecimal, if_neg Bool.false_ne_true, if_neg]
  exact not_or.2 ⟨hword _ (by decide), hword _ (by decide)⟩

section Parse

variable (p : ScanPreferences) {formula : String} {s : State}

/-- A `#` at which no error literal stands makes all that is left of the formula its last token. -/
theorem parse_unfinished (hs : s ∈ (State.start formula).heads) (hmet : s.met? = some '#')
    (h : ∀ e ∈ errorLiterals, ¬ e.toList <+: s.rest) :
    let r := parse p formula
    let text := String.ofList s.rest
    r.raw = s.tokens ++ tokensOf (s.strayEntries '#') ++ [⟨text, .operand, .plain⟩] ∧
      r.inError = true ∧ r.tokens.getLast? = some ⟨text, .operand, .range⟩ ∧
      r.check = .error (.unterminatedError text) := by
  intro r text
  have hrun : (State.start formula).run = s.reading s.rest.length := by
    rw [← State.run_of_mem_heads hs, State.run_of_unfinished hmet h]
  have hraw : r.raw = s.tokens ++ tokensOf (s.strayEntries '#') ++ [⟨text, .operand, .plain⟩] := by
    show (State.start formula).run.flush.tokens = _
    rw [hrun, State.tokens_flush_reading hmet]
  have herror : r.inError = true := by
    show ((State.start formula).run.flush.mode == .error) = true
    rw [State.mode_flush, hrun]
    rfl
  have hlast : r.tokens.getLast? = some ⟨text, .operand, .range⟩ := by
    obtain ⟨-, rest, hrest⟩ := State.rest_of_met hmet
    rw [getLast?_tokens_of_raw p hraw]
    show some (Token.mk text .operand (Stream.operandSubkind (String.ofList s.rest))) = _
    rw [hrest, Stream.operandSubkind_hash]
  refine ⟨hraw, herror, hlast, ?_⟩
  obtain ⟨t, ht, hcheck⟩ := check_of_inError p herror
  rw [hlast, Option.some.injEq] at ht
  rw [hcheck, ← ht]

/-- What becomes of each `#` that is met outside the literals. If an error literal stands there, it is
the next token, and the scan goes on right after it, outside the literals, with nothing pending. If none
does, all that is left of the formula is its last token, which denotes a range, and is reported as an
unterminated literal. A formula ends inside an error literal only in that way. -/
theorem parse_error_literals (formula : String) :
    let r := parse p formula
    (∀ s ∈ (State.start formula).heads, s.met? = some '#' →
      s.rest = r.formula.toList.drop s.offset ∧
      (∀ e ∈ errorLiterals, e.toList <+: s.rest →
        let t := State.step^[e.length] s
        t.tokens = s.tokens ++ tokensOf (s.strayEntries '#') ++ [⟨e, .operand, .error⟩] ∧
          t.tokens <+: r.raw ∧ t.run = (State.start formula).run ∧ t.mode = .code ∧
          t.pending = "" ∧ t.offset = s.offset + e.length ∧ t.rest = s.rest.drop e.length ∧
          t.scopes = s.scopes) ∧
      ((∀ e ∈ errorLiterals, ¬ e.toList <+: s.rest) →
        let text := String.ofList s.rest
        r.raw = s.tokens ++ tokensOf (s.strayEntries '#') ++ [⟨text, .operand, .plain⟩] ∧
          r.inError = true ∧ r.tokens.getLast? = some ⟨text, .operand, .range⟩ ∧
          r.check = .error (.unterminatedError text))) ∧
    (r.inError = true → ∃ s ∈ (State.start formula).heads, s.met? = some '#' ∧
      ∀ e ∈ errorLiterals, ¬ e.toList <+: s.rest) := by
  intro r
  refine ⟨fun s hs hmet => ⟨?_, fun e he hstands => ?_, parse_unfinished p hs hmet⟩, fun herror => ?_⟩
  · show s.rest = (scan formula).formula.toList.drop s.offset
    rw [formula_scan, String.toList_ofList]
    exact (State.located_of_mem_heads hs).rest
  · have hrun : (s.afterLiteral e).run = (State.start formula).run := by
      rw [← State.iterate_literal hmet he hstands, State.run_iterate, State.run_of_mem_heads hs]
    have hraw : (s.afterLiteral e).tokens <+: r.raw := by
      have h := (s.afterLiteral e).tokens_prefix_finish
      rw [State.finish, hrun] at h
      exact h
    rw [State.iterate_literal hmet he hstands]
    exact ⟨s.tokens_afterLiteral e, hraw, hrun, rfl, rfl, rfl, rfl, rfl⟩
  · obtain ⟨s, hs, hmet, hnone, -⟩ := State.run_of_error (mode_of_inError herror)
    exact ⟨s, hs, hmet, hnone⟩

/-- Text before a literal is unknown, and a literal that is not complete takes all that is left. -/
example : tokenize "=1#N/A#REF+2" =
    [⟨"1", .unknown, .plain⟩, ⟨"#N/A", .operand, .error⟩, ⟨"#REF+2", .operand, .range⟩] := by
  decide +kernel

end Parse

end SheetFormula
