import SheetFormula.Json.Value

/-!
# Printing JSON

Two layouts of a JSON value. The compact one has no white space; the indented one puts each item and
each field on a line of its own, two spaces deeper than its container, and leaves empty containers
closed. A number or a literal of which only the kind is known is printed as the simplest of its kind.
-/

namespace SheetFormula.Json

/-- The hexadecimal digit of a number below sixteen, in lower case. -/
def hexDigit (n : Nat) : Char := Nat.digitChar n

/-- A character as it stands in a string literal. -/
def escape (c : Char) : List Char :=
  if c = '"' then ['\\', '"']
  else if c = '\\' then ['\\', '\\']
  else if c = '\x08' then ['\\', 'b']
  else if c = '\x0c' then ['\\', 'f']
  else if c = '\n' then ['\\', 'n']
  else if c = '\r' then ['\\', 'r']
  else if c = '\t' then ['\\', 't']
  else if c.toNat < 0x20 then
    ['\\', 'u', '0', '0', hexDigit (c.toNat / 16), hexDigit (c.toNat % 16)]
  else [c]

/-- A string literal, with its quotes. -/
def quote : Literal → List Char
  | .text s => '"' :: (s.toList.flatMap escape ++ ['"'])
  | .unpaired => ['"', '\\', 'u', 'd', '8', '0', '0', '"']

mutual

/-- The value without white space. -/
def compactChars : Json → List Char
  | .null => ['n', 'u', 'l', 'l']
  | .bool true => ['t', 'r', 'u', 'e']
  | .bool false => ['f', 'a', 'l', 's', 'e']
  | .nat n => Nat.toDigits 10 n
  | .otherNumber => ['-', '1']
  | .string s => quote s
  | .array [] => ['[', ']']
  | .array (v :: vs) => '[' :: (compactChars v ++ compactItems vs)
  | .object [] => ['\x7b', '\x7d']
  | .object ((k, v) :: fields) =>
    '\x7b' :: (quote k ++ ':' :: (compactChars v ++ compactFields fields))

/-- The items after the first, each after a comma, and the closing bracket. -/
def compactItems : List Json → List Char
  | [] => [']']
  | v :: vs => ',' :: (compactChars v ++ compactItems vs)

/-- The fields after the first, each after a comma, and the closing brace. -/
def compactFields : List (Literal × Json) → List Char
  | [] => ['\x7d']
  | (k, v) :: fields => ',' :: (quote k ++ ':' :: (compactChars v ++ compactFields fields))

end

/-- The start of a line at a depth of nesting: the line break and two spaces for each level. -/
def lineStart (depth : Nat) : List Char := '\n' :: List.replicate (2 * depth) ' '

mutual

/-- The value over several lines, as it stands at a depth of nesting. -/
def indentedChars (depth : Nat) : Json → List Char
  | .null => ['n', 'u', 'l', 'l']
  | .bool true => ['t', 'r', 'u', 'e']
  | .bool false => ['f', 'a', 'l', 's', 'e']
  | .nat n => Nat.toDigits 10 n
  | .otherNumber => ['-', '1']
  | .string s => quote s
  | .array [] => ['[', ']']
  | .array (v :: vs) =>
    '[' :: (lineStart (depth + 1) ++ (indentedChars (depth + 1) v ++ indentedItems depth vs))
  | .object [] => ['\x7b', '\x7d']
  | .object ((k, v) :: fields) =>
    '\x7b' :: (lineStart (depth + 1) ++ (quote k ++ ':' :: ' ' ::
      (indentedChars (depth + 1) v ++ indentedFields depth fields)))

/-- The items after the first, each on a line of its own, and the closing bracket. -/
def indentedItems (depth : Nat) : List Json → List Char
  | [] => lineStart depth ++ [']']
  | v :: vs =>
    ',' :: (lineStart (depth + 1) ++ (indentedChars (depth + 1) v ++ indentedItems depth vs))

/-- The fields after the first, each on a line of its own, and the closing brace. -/
def indentedFields (depth : Nat) : List (Literal × Json) → List Char
  | [] => lineStart depth ++ ['\x7d']
  | (k, v) :: fields =>
    ',' :: (lineStart (depth + 1) ++ (quote k ++ ':' :: ' ' ::
      (indentedChars (depth + 1) v ++ indentedFields depth fields)))

end

/-- The value on one line, without white space. -/
def compact (v : Json) : String := String.ofList (compactChars v)

/-- The value over several lines, indented by two spaces for each level. -/
def indented (v : Json) : String := String.ofList (indentedChars 0 v)

end SheetFormula.Json
