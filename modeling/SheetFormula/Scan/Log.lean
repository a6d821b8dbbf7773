import SheetFormula.Log.Report
import SheetFormula.Metrics
import SheetFormula.Scan.Result

/-!
# What a scan logs

The start and the end of a scan are logged, every recovery from a fault of the formula with the offset
of the delimiter that showed it, and on request every token that the scanner puts out by itself. A
token that closes a scope is not logged.
-/

namespace SheetFormula.Scan

open Log (Report)

/-- The report that a token was put out. -/
def tokenReport (offset : Nat) (t : Token) : Report :=
  (Report.debug "Token emitted").withPairs
    [("value", t.value), ("type", t.kind.name), ("subtype", t.subkind.name),
      ("offset", toString offset)]

/-- The warning that a delimiter closes a scope and none is open. -/
def unopenedReport (offset : Nat) (delimiter : Char) : Report where
  level := .warning
  code := .scopeUnderflow
  message := "Closing character without an open scope; emitting Function Stop"
  position := some offset
  pairs := [("char", String.singleton delimiter)]

/-- The warning that a delimiter cannot follow the pending text. -/
def strayReport (offset : Nat) (delimiter : Char) (pending : String) : Report where
  level := .warning
  code := .strayText
  message := "Operand text pending before a delimiter; kept as Unknown token"
  position := some offset
  pairs := [("char", String.singleton delimiter), ("pending", pending)]

/-- What is reported of an entry of the trace. -/
def Entry.reports (p : ScanPreferences) : Entry → List Report
  | .token offset t => if p.tokenEvents then [tokenReport offset t] else []
  | .opened offset _ t => if p.tokenEvents then [tokenReport offset t] else []
  | .closed _ => []
  | .unopened offset delimiter => [unopenedReport offset delimiter]
  | .stray offset delimiter pending => [strayReport offset delimiter pending]

/-- The report that the scan of a formula of so many characters begins. -/
def startReport (length : Nat) : Report :=
  (Report.debug "Starting lexical analysis").withPairs [("char_count", toString length)]

/-- The warning that the formula ended inside an error literal, of which the last of some tokens is the
text. -/
def unterminatedReport (stop : Nat) (last? : Option Token) : Report where
  level := .warning
  code := .unterminatedError
  message := "Formula ended inside an error literal"
  position := some stop
  pairs := [("literal", (last?.map Token.value).getD "")]

/-- The report that a scan with these metrics is complete. -/
def completeReport (m : Metrics) (inError : Bool) : Report :=
  (Report.success .scanned "Lexical analysis completed").withPairs
    [("raw_tokens", toString m.rawTokens), ("max_scope_depth", toString m.maxScopeDepth),
      ("unknown_tokens", toString m.unknownTokens), ("stack_underflows", toString m.underflows),
      ("in_error", toString inError)]

/-- The report that a scan begins. -/
def Result.startReport (r : Result) : Report := Scan.startReport r.formula.length

/-- The report that the formula ended inside an error literal, if it did. -/
def Result.errorReports (r : Result) : List Report :=
  if r.inError then [unterminatedReport r.stop r.tokens.getLast?] else []

/-- The report that a scan is complete. -/
def Result.endReport (p : ScanPreferences) (r : Result) : Report :=
  completeReport (Metrics.ofTrace p r.trace) r.inError

/-- All that a scan reports, in order. -/
def Result.reports (p : ScanPreferences) (r : Result) : List Report :=
  r.startReport :: (r.trace.flatMap (Entry.reports p) ++ (r.errorReports ++ [r.endReport p]))

end SheetFormula.Scan
