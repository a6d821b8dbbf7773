import SheetFormula.Log.Journal
import SheetFormula.Scan.Log

/-!
# Analyzers

An analyzer scans one formula after the other with fixed preferences. It keeps no trace: whatever the
scanner does is counted and logged at once, as the preferences and the logger ask for it, and a token is
put in the list of tokens besides. The metrics of a formula stay with the analyzer until they are taken,
or until the next formula is scanned.
-/

namespace SheetFormula

open Scan (Entry Recorder State)

/-- Measures the depth of the open scopes, if that is asked for. -/
def Metrics.recordDepth (p : ScanPreferences) (m : Metrics) (depth : Nat) : Metrics :=
  if p.detailedMetrics then { m with maxScopeDepth := max m.maxScopeDepth depth } else m

/-- Counts a scope that is closed where none is open. -/
def Metrics.recordUnderflow (m : Metrics) : Metrics := { m with underflows := m.underflows + 1 }

/-- What an analyzer records while it scans a formula. -/
structure Meter where
  preferences : ScanPreferences := {}
  /-- The tokens that were put out. -/
  tokens : Array Token := #[]
  metrics : Metrics := {}
  journal : Log.Journal := {}
deriving DecidableEq, Repr

namespace Meter

/-- Makes a report. -/
def report (m : Meter) (r : Log.Report) : Meter := { m with journal := m.journal.report r }

/-- Puts a token in the list and counts it. -/
def add (m : Meter) (t : Token) : Meter :=
  { m with tokens := m.tokens.push t, metrics := m.metrics.recordToken m.preferences t }

/-- Puts a token in the list and counts it, and logs it if tokens are to be logged. -/
def emit (m : Meter) (offset : Nat) (t : Token) : Meter :=
  if m.preferences.tokenEvents then (m.add t).report (Scan.tokenReport offset t) else m.add t

/-- Takes note of something that the scanner does; the end of a scope is not logged. -/
def note (m : Meter) : Entry → Meter
  | .token offset t => m.emit offset t
  | .opened offset depth t =>
    let m := m.emit offset t
    { m with metrics := m.metrics.recordDepth m.preferences depth }
  | .closed t => m.add t
  | .unopened offset delimiter =>
    { m with metrics := m.metrics.recordUnderflow }.report (Scan.unopenedReport offset delimiter)
  | .stray offset delimiter pending => m.report (Scan.strayReport offset delimiter pending)

instance : Recorder Meter := ⟨note⟩

/-- Reports the end of a scan, and before it that the formula ended inside an error literal, if it did. -/
def complete (m : Meter) (stop : Nat) (inError : Bool) : Meter :=
  let m :=
    if inError then m.report (Scan.unterminatedReport stop m.tokens.toList.getLast?) else m
  m.report (Scan.completeReport m.metrics inError)

end Meter

/-- What a scan hands on. -/
structure Scanned where
  /-- The normalized formula. -/
  formula : String
  tokens : List Token
  /-- The formula ends inside an error literal. -/
  inError : Bool
deriving DecidableEq, Repr

/-- An analyzer between two formulas. -/
structure Analyzer where
  preferences : ScanPreferences := {}
  /-- What was counted of the last formula and not taken since. -/
  metrics : Metrics := {}
deriving DecidableEq, Repr

namespace Analyzer

/-- Scans the next formula. All counts begin at zero, whatever the analyzer still holds. -/
def scan (a : Analyzer) (j : Log.Journal) (formula : String) : Analyzer × Log.Journal × Scanned :=
  let start := State.start formula
  let meter : Meter :=
    { preferences := a.preferences
      journal := j.report (Scan.startReport start.text.length) }
  let s := (start.recording meter).finish
  let inError := s.mode == .error
  let m := s.trace.complete s.offset inError
  ({ a with metrics := m.metrics }, m.journal,
    { formula := s.formula, tokens := m.tokens.toList, inError := inError })

/-- Hands over what was counted. -/
def takeMetrics (a : Analyzer) : Analyzer × Metrics := ({ a with metrics := {} }, a.metrics)

end Analyzer

end SheetFormula
