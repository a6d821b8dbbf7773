import SheetFormula.Json.Value
import SheetFormula.SortedMap

/-!
# Decoding JSON values

What a JSON value stands for where a record, a count, a name or a map of counts is expected. A record
is an object in which every expected key occurs exactly once, other keys being ignored, or an array of
the fields' values in order.
-/

namespace SheetFormula.Json

/-- The values of the named fields of a record, in the order of the names. -/
def record? (names : List String) : Json → Option (List Json)
  | .array items => if items.length = names.length then some items else none
  | v => do
    let fields ← v.fields?
    names.mapM fun name =>
      match fields.filter (·.1 = name) with
      | [(_, v)] => some v
      | _ => none

/-- A count: a number below `2 ^ 64`. -/
def count? (v : Json) : Option Nat := do
  let n ← v.nat?
  if n < UInt64.size then some n else none

/-- A name out of a fixed set: its text, or an object with the name as its only key and no value. -/
def name? : Json → Option String
  | .string (.text s) => some s
  | .object [(.text s, .null)] => some s
  | _ => none

/-- A map of counts; of two equal keys the later counts. -/
def counts? (v : Json) : Option (SortedMap Nat) := do
  let fields ← v.fields?
  let pairs ← fields.mapM fun (k, v) => v.count?.map fun n => (k, n)
  pure (SortedMap.ofList pairs)

/-- The object of a map of counts. -/
def ofCounts (m : SortedMap Nat) : Json := .ofFields (m.entries.map fun (k, n) => (k, .nat n))

end SheetFormula.Json
