import SheetFormula.Log.Report
import SheetFormula.Metrics
import SheetFormula.Stream.Classes
import SheetFormula.Stream.Spaces

/-!
# From raw tokens to final ones

The raw tokens of a scan become the final ones in three passes: spaces are resolved, operators and
operands are classified, and the unary plus signs that this brings to light are removed.
-/

namespace SheetFormula.Stream

/-- The items other than those that do nothing. -/
def removeNoops (ts : List Token) : List Token := ts.filter (·.kind ≠ .noop)

/-- How many items do nothing. -/
def countNoops (ts : List Token) : Nat := ts.countP (·.kind = .noop)

/-- What the passes make of some raw tokens. -/
structure Final where
  tokens : List Token
  dropped : Nat
  intersections : Nat
  /-- How many items there were before the unary plus signs were removed. -/
  classified : Nat
  noops : Nat
deriving DecidableEq, Repr

namespace Final

/-- The metrics of a formula after the passes. -/
def addTo (f : Final) (m : Metrics) : Metrics :=
  { m with
    finalTokens := f.tokens.length
    whitespaceDropped := m.whitespaceDropped + f.dropped
    intersectionsCreated := m.intersectionsCreated + f.intersections
    noopsRemoved := m.noopsRemoved + f.noops }

/-- The passes report as each of them is complete. -/
def reports (f : Final) : List Log.Report :=
  [(Log.Report.success .whitespaceReduced "Whitespace reduction completed").withPairs
      [("dropped", toString f.dropped), ("intersections", toString f.intersections)],
    (Log.Report.success .classified "Classification completed").withPairs
      [("tokens", toString f.classified)],
    (Log.Report.success .noopsRemoved "No-op elimination completed").withPairs
      [("removed", toString f.noops), ("tokens", toString f.tokens.length)]]

end Final

end SheetFormula.Stream

namespace SheetFormula

/-- A new list of the items other than those that do nothing, with the cursor before the first. -/
def TokenList.removeNoops (l : TokenList) : TokenList :=
  l.toList.foldl (fun kept t => if t.kind = .noop then kept else kept.add t) (ofList [])

/-- All three passes, on the items ahead of the cursor. -/
def TokenList.finalize (l : TokenList) : Stream.Final :=
  let spaced := l.resolveSpaces
  let classified := Stream.classify spaced.tokens
  { tokens := Stream.removeNoops classified
    dropped := spaced.dropped
    intersections := spaced.intersections
    classified := classified.length
    noops := Stream.countNoops classified }

end SheetFormula
