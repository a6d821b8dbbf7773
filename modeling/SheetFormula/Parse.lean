import SheetFormula.Analyzer
import SheetFormula.Render
import SheetFormula.Stream.Final
import SheetFormula.Structure

/-!
# Parsing formulas

To parse a formula is to scan it and to refine its raw tokens into the final ones. A parser works on
one formula after the other with fixed preferences, numbers them from one, and keeps the result of the
last; what it has to say of a formula goes into a journal, attributed to the formula.
-/

namespace SheetFormula

/-- The result of parsing a formula. -/
structure Parsed where
  /-- The normalized formula. -/
  formula : String := ""
  /-- The tokens as the scanner put them out. -/
  raw : List Token := []
  /-- The final tokens. -/
  tokens : List Token := []
  /-- The formula ended inside an error literal. -/
  inError : Bool := false
  metrics : Metrics := {}
deriving DecidableEq, Repr

namespace Parsed

/-- The final tokens as a formula. -/
def render (p : Parsed) : String := SheetFormula.render p.tokens

/-- The final tokens as an outline. -/
def outline (p : Parsed) : String := SheetFormula.outline p.tokens

/-- Checks that the final tokens are structurally complete. -/
def check (p : Parsed) : Except StructureError Unit := checkStructure p.tokens p.inError

/-- The report that parsing is complete. -/
def report (p : Parsed) : Log.Report :=
  (Log.Report.success .parsed "Formula tokenized").withPairs
    [("tokens", toString p.tokens.length), ("raw_tokens", toString p.raw.length),
      ("in_error", toString p.inError)]

end Parsed

/-- What parsing a formula gives, and what it reports on the way. -/
def parseReporting (p : ScanPreferences) (formula : String) : Parsed × List Log.Report :=
  let scanned := scan formula
  let raw := scanned.tokens
  let final := (TokenList.ofList raw).finalize
  let parsed : Parsed :=
    { formula := scanned.formula
      raw := raw
      tokens := final.tokens
      inError := scanned.inError
      metrics := final.addTo (Metrics.ofTrace p scanned.trace) }
  (parsed, scanned.reports p ++ (final.reports ++ [parsed.report]))

/-- Parses a formula. -/
def parse (p : ScanPreferences) (formula : String) : Parsed := (parseReporting p formula).1

/-- The final tokens of a formula. -/
def tokenize (formula : String) : List Token := (parse {} formula).tokens

/-- A parser between two formulas: an analyzer that numbers the formulas. -/
structure Parser extends Analyzer where
  /-- How many formulas were parsed. -/
  count : Nat := 0
  /-- The result of the last formula, empty before the first. -/
  last : Parsed := {}
deriving DecidableEq, Repr

namespace Parser

/-- Parses the next formula, to which events are attributed in the meantime. -/
def parseLogged (p : Parser) (j : Log.Journal) (formula : String) : Parser × Log.Journal :=
  let count := p.count + 1
  let (analyzer, j, scanned) := p.toAnalyzer.scan (j.enter formula count) formula
  let (analyzer, metrics) := analyzer.takeMetrics
  let final := (TokenList.ofList scanned.tokens).finalize
  let parsed : Parsed :=
    { formula := scanned.formula
      raw := scanned.tokens
      tokens := final.tokens
      inError := scanned.inError
      metrics := final.addTo metrics }
  let j := (j.reportAll final.reports).report parsed.report
  ({ toAnalyzer := analyzer, count := count, last := parsed }, j.leave)

/-- Parses the next formula; the events are those that a minimum level lets through. -/
def parse (p : Parser) (min : Log.Level) (formula : String) : Parser × List Log.Event :=
  let (p, j) := p.parseLogged { logger := some min } formula
  (p, j.events.toList)

end Parser

end SheetFormula
