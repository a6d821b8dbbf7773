import SheetFormula.Scan.Step

/-!
# Scanning a formula

A scan takes steps until no text is left; what is pending then is put out as an operand. The result
holds the normalized formula, the raw tokens, whether the formula ended inside an error literal, and
the trace from which the metrics and the log are made.
-/

namespace SheetFormula

namespace Scan.State

variable {ρ : Type} [Recorder ρ]

/-- The state when no text is left. -/
def run (s : State ρ) : State ρ :=
  if s.rest = [] then s else s.step.run
termination_by s.rest.length
decreasing_by exact length_rest_step_lt (by assumption)

/-- The state at the end of the formula, with nothing pending. -/
def finish (s : State ρ) : State ρ := s.run.flush

theorem run_of_nil {s : State ρ} (h : s.rest = []) : s.run = s := by
  rw [run, if_pos h]

theorem run_of_ne_nil {s : State ρ} (h : s.rest ≠ []) : s.run = s.step.run := by
  conv => lhs; rw [run, if_neg h]

end Scan.State

/-- What a scan finds. -/
structure Scan.Result where
  /-- The normalized formula. -/
  formula : String
  /-- The formula ends inside an error literal. -/
  inError : Bool
  /-- The offset at which the scan ended. -/
  stop : Nat
  trace : List Scan.Entry
deriving DecidableEq, Repr

/-- The raw tokens, in order. -/
def Scan.Result.tokens (r : Scan.Result) : List Token := Scan.tokensOf r.trace

/-- Scans a formula. -/
def scan (formula : String) : Scan.Result :=
  let s := (Scan.State.start formula).finish
  { formula := s.formula
    inError := s.mode == .error
    stop := s.offset
    trace := s.trace.toList }

end SheetFormula
