import SheetFormula.Json.Decode
import SheetFormula.Json.Print
import SheetFormula.Json.Read
import SheetFormula.Parse

/-!
# Outcomes and their JSON form

The outcome of parsing a formula is what is kept of it: the normalized formula, the final tokens,
whether it ended inside an error literal, and the metrics. Outcomes and tokens are written as JSON and
read back.
-/

namespace SheetFormula

namespace Token

/-- The object that describes a token. -/
def toJson (t : Token) : Json :=
  .ofFields [("value", .text t.value), ("type", .text t.kind.name),
    ("subtype", .text t.subkind.name)]

/-- The token that a JSON value describes. -/
def ofJson? (v : Json) : Option Token := do
  match ← v.record? ["value", "type", "subtype"] with
  | [value, kind, subkind] =>
    let value ← value.text?
    let kind ← kind.name? >>= Kind.ofName?
    let subkind ← subkind.name? >>= Subkind.ofName?
    pure ⟨value, kind, subkind⟩
  | _ => none

/-- The token that a JSON text describes. -/
def read? (s : String) : Option Token := Json.read? s >>= ofJson?

end Token

namespace Metrics

/-- The names of the metrics, in the order in which they are written. -/
def fieldNames : List String :=
  ["raw_tokens", "final_tokens", "stack_underflows", "unknown_tokens", "whitespace_dropped",
    "intersections_created", "noops_removed", "max_scope_depth", "token_type_counts",
    "operator_usage"]

/-- The object that describes some metrics. -/
def toJson (m : Metrics) : Json :=
  .ofFields (fieldNames.zip
    [.nat m.rawTokens, .nat m.finalTokens, .nat m.underflows, .nat m.unknownTokens,
      .nat m.whitespaceDropped, .nat m.intersectionsCreated, .nat m.noopsRemoved,
      .nat m.maxScopeDepth, .ofCounts m.kindCounts, .ofCounts m.operatorUsage])

/-- The metrics that a JSON value describes. -/
def ofJson? (v : Json) : Option Metrics := do
  match ← v.record? fieldNames with
  | [raw, final, underflows, unknown, dropped, intersections, noops, depth, kinds, operators] =>
    pure
      { rawTokens := ← raw.count?
        finalTokens := ← final.count?
        underflows := ← underflows.count?
        unknownTokens := ← unknown.count?
        whitespaceDropped := ← dropped.count?
        intersectionsCreated := ← intersections.count?
        noopsRemoved := ← noops.count?
        maxScopeDepth := ← depth.count?
        kindCounts := ← kinds.counts?
        operatorUsage := ← operators.counts? }
  | _ => none

end Metrics

/-- What is kept of a parsed formula. -/
structure Outcome where
  /-- The normalized formula. -/
  formula : String
  /-- The final tokens. -/
  tokens : List Token
  /-- The formula ended inside an error literal. -/
  inError : Bool
  metrics : Metrics
deriving DecidableEq, Repr

namespace Outcome

/-- Checks that the tokens are structurally complete. -/
def check (o : Outcome) : Except StructureError Unit := checkStructure o.tokens o.inError

/-- The object that describes an outcome. -/
def toJson (o : Outcome) : Json :=
  .ofFields [("formula", .text o.formula), ("tokens", .array (o.tokens.map Token.toJson)),
    ("in_error", .bool o.inError), ("metrics", o.metrics.toJson)]

/-- The outcome as an indented JSON text. -/
def toText (o : Outcome) : String := o.toJson.indented

/-- The items of an array. -/
def items? : Json → Option (List Json)
  | .array items => some items
  | _ => none

/-- The outcome that a JSON value describes. -/
def ofJson? (v : Json) : Option Outcome := do
  match ← v.record? ["formula", "tokens", "in_error", "metrics"] with
  | [formula, tokens, inError, metrics] =>
    pure
      { formula := ← formula.text?
        tokens := ← (← items? tokens).mapM Token.ofJson?
        inError := ← inError.bool?
        metrics := ← Metrics.ofJson? metrics }
  | _ => none

/-- The outcome that a JSON text describes. -/
def read? (s : String) : Option Outcome := Json.read? s >>= ofJson?

end Outcome

/-- What is kept of a parsed formula. -/
def Parsed.outcome (p : Parsed) : Outcome := ⟨p.formula, p.tokens, p.inError, p.metrics⟩

end SheetFormula
