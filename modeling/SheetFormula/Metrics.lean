import SheetFormula.Scan.Trace
import SheetFormula.SortedMap

/-!
# Metrics of a formula

Counts of what happened to a formula: how many tokens the scan put out, how often it recovered from a
fault, what the later passes dropped and made. Three of the metrics are kept on request only: the
deepest nesting, the number of tokens of each kind, and the number of uses of each operator.
-/

namespace SheetFormula

/-- What is measured and logged while a formula is scanned; nothing here changes the tokens. -/
structure ScanPreferences where
  /-- Count the tokens of each kind and measure the deepest nesting. -/
  detailedMetrics : Bool := true
  /-- Count the uses of each operator too. -/
  operatorUsage : Bool := false
  /-- Log every token. -/
  tokenEvents : Bool := false
deriving DecidableEq, Repr, Inhabited

/-- The counts of one formula. -/
structure Metrics where
  rawTokens : Nat := 0
  finalTokens : Nat := 0
  /-- How often a scope was closed where none was open. -/
  underflows : Nat := 0
  unknownTokens : Nat := 0
  whitespaceDropped : Nat := 0
  intersectionsCreated : Nat := 0
  noopsRemoved : Nat := 0
  /-- The most scopes that were open at once. -/
  maxScopeDepth : Nat := 0
  /-- The number of raw tokens of each kind, by the kind's name. -/
  kindCounts : SortedMap Nat := .empty
  /-- The number of uses of each operator. -/
  operatorUsage : SortedMap Nat := .empty
deriving DecidableEq, Repr

namespace Metrics

/-- Counts a raw token. -/
def recordToken (p : ScanPreferences) (m : Metrics) (t : Token) : Metrics :=
  { m with
    rawTokens := m.rawTokens + 1
    unknownTokens := if t.kind = .unknown then m.unknownTokens + 1 else m.unknownTokens
    kindCounts := if p.detailedMetrics then m.kindCounts.increment t.kind.name else m.kindCounts
    operatorUsage :=
      if p.detailedMetrics && p.operatorUsage && t.kind.isOperator then
        m.operatorUsage.increment t.value
      else m.operatorUsage }

/-- Counts what one entry of a trace says. -/
def record (p : ScanPreferences) (m : Metrics) : Scan.Entry → Metrics
  | .token _ t => m.recordToken p t
  | .opened _ depth t =>
    let m := m.recordToken p t
    if p.detailedMetrics then { m with maxScopeDepth := max m.maxScopeDepth depth } else m
  | .closed t => m.recordToken p t
  | .unopened _ _ => { m with underflows := m.underflows + 1 }
  | .stray _ _ _ => m

/-- The metrics of a trace. -/
def ofTrace (p : ScanPreferences) (trace : List Scan.Entry) : Metrics :=
  trace.foldl (record p) {}

/-- The scan recovered from some fault of the formula. -/
def hasRecoveries (m : Metrics) : Bool := 0 < m.underflows || 0 < m.unknownTokens

/-- How many raw tokens of a kind were counted. -/
def countOf (m : Metrics) (k : Kind) : Nat := (m.kindCounts.get? k.name).getD 0

end Metrics

end SheetFormula
