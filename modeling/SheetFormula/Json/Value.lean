/-!
# JSON values

A JSON value as a reader needs it: a number that is not written as plain digits, and a string literal
that stands for no text, keep nothing but their kind. The fields of an object stay in the order in
which they are written, repeated keys included.
-/

namespace SheetFormula

/-- What a JSON string literal stands for. -/
inductive Json.Literal where
  | text (s : String)
  /-- A literal in which an escape names one half of a surrogate pair alone; it stands for no text. -/
  | unpaired
deriving DecidableEq, Repr, Inhabited

/-- A JSON value. -/
inductive Json where
  | null
  | bool (b : Bool)
  /-- A number written as plain digits. -/
  | nat (n : Nat)
  /-- A number with a sign, a fraction or an exponent. -/
  | otherNumber
  | string (s : Json.Literal)
  | array (items : List Json)
  | object (fields : List (Json.Literal × Json))
deriving Repr, Inhabited

namespace Json

/-- The string value of a text. -/
def text (s : String) : Json := .string (.text s)

/-- The object with the given keys and values, in this order. -/
def ofFields (fields : List (String × Json)) : Json :=
  .object (fields.map fun (k, v) => (.text k, v))

/-- The text of a string value. -/
def text? : Json → Option String
  | .string (.text s) => some s
  | _ => none

/-- The truth value of a boolean value. -/
def bool? : Json → Option Bool
  | .bool b => some b
  | _ => none

/-- The number of a value written as plain digits. -/
def nat? : Json → Option Nat
  | .nat n => some n
  | _ => none

/-- The text of a literal. -/
def Literal.text? : Literal → Option String
  | .text s => some s
  | .unpaired => none

/-- The keys and values of an object in which every key is a text. -/
def fields? : Json → Option (List (String × Json))
  | .object fields => fields.mapM fun (k, v) => k.text?.map fun k => (k, v)
  | _ => none

end Json

end SheetFormula
