import SheetFormula.Json.Value
import SheetFormula.Text.Decimal

/-!
# Reading JSON

`Json.read?` reads a text that holds exactly one JSON value, with white space around it or not. Each
reader of a part takes the text from the start of that part and answers with the part and the text
after it. The readers of nested values take a bound on the nesting, which `read?` sets from the length
of the text, so that no text is too deep for it.
-/

namespace SheetFormula.Json

open Text (isDigit)

/-- The four characters that may stand between the parts of a JSON text. -/
def isSpace (c : Char) : Bool := c == ' ' || c == '\t' || c == '\n' || c == '\r'

/-- The text after leading white space. -/
def skipSpace (cs : List Char) : List Char := cs.dropWhile isSpace

/-- The number that a text of digits denotes. -/
def digitsToNat (cs : List Char) : Nat := cs.foldl (fun n c => 10 * n + (c.toNat - 48)) 0

/-- The value of a hexadecimal digit, in either case. -/
def hexValue? (c : Char) : Option Nat :=
  if isDigit c then some (c.toNat - 48)
  else if 'a' ≤ c ∧ c ≤ 'f' then some (c.toNat - 87)
  else if 'A' ≤ c ∧ c ≤ 'F' then some (c.toNat - 55)
  else none

/-- The number of four hexadecimal digits. -/
def hex4? (a b c d : Char) : Option Nat := do
  let a ← hexValue? a
  let b ← hexValue? b
  let c ← hexValue? c
  let d ← hexValue? d
  pure (((a * 16 + b) * 16 + c) * 16 + d)

/-- The characters that a one-letter escape stands for. -/
def simpleEscape? : Char → Option Char
  | '"' => some '"'
  | '\\' => some '\\'
  | '/' => some '/'
  | 'b' => some '\x08'
  | 'f' => some '\x0c'
  | 'n' => some '\n'
  | 'r' => some '\r'
  | 't' => some '\t'
  | _ => none

/-- A piece of a string literal: a character, or an escape that names half of a surrogate pair. -/
inductive Piece where
  | char (c : Char)
  | high (n : Nat)
  | low (n : Nat)
deriving DecidableEq, Repr

/-- The piece that an escape by number stands for. -/
def Piece.ofCode (n : Nat) : Piece :=
  if 0xD800 ≤ n ∧ n ≤ 0xDBFF then .high n
  else if 0xDC00 ≤ n ∧ n ≤ 0xDFFF then .low n
  else .char (Char.ofNat n)

/-- The characters of a literal's pieces; there are none if half of a pair stands alone. -/
def joinPieces : List Piece → Option (List Char)
  | [] => some []
  | .char c :: ps => (joinPieces ps).map (c :: ·)
  | .high h :: .low l :: ps =>
    (joinPieces ps).map (Char.ofNat (0x10000 + (h - 0xD800) * 0x400 + (l - 0xDC00)) :: ·)
  | _ => none

/-- The pieces of a literal up to its closing quote, and the text after the quote. -/
def pieces : List Char → Option (List Piece × List Char)
  | [] => none
  | '"' :: cs => some ([], cs)
  | '\\' :: 'u' :: a :: b :: c :: d :: cs =>
    match hex4? a b c d with
    | some n => (pieces cs).map fun (ps, r) => (Piece.ofCode n :: ps, r)
    | none => none
  | '\\' :: e :: cs =>
    match simpleEscape? e with
    | some c => (pieces cs).map fun (ps, r) => (.char c :: ps, r)
    | none => none
  | c :: cs =>
    if c.toNat < 0x20 ∨ c = '\\' then none
    else (pieces cs).map fun (ps, r) => (.char c :: ps, r)

/-- What the pieces of a literal stand for. -/
def Literal.ofPieces (ps : List Piece) : Literal :=
  match joinPieces ps with
  | some cs => .text (String.ofList cs)
  | none => .unpaired

/-- A string literal after its opening quote. -/
def literal (cs : List Char) : Option (Literal × List Char) :=
  (pieces cs).map fun (ps, r) => (.ofPieces ps, r)

/-- Digits without a leading zero, as a number. -/
def wholeNumber : List Char → Option (Nat × List Char)
  | '0' :: cs => if (cs.head?.map isDigit).getD false then none else some (0, cs)
  | cs =>
    if (cs.takeWhile isDigit).isEmpty then none
    else some (digitsToNat (cs.takeWhile isDigit), cs.dropWhile isDigit)

/-- An optional part of a number that ends in digits; the answer says whether it is there. -/
def optionalDigits (opens : Char → Bool) (signed : Bool) : List Char → Option (Bool × List Char)
  | c :: cs =>
    if opens c then
      let ds := if signed then Text.dropSign cs else cs
      if (ds.takeWhile isDigit).isEmpty then none else some (true, ds.dropWhile isDigit)
    else some (false, c :: cs)
  | [] => some (false, [])

/-- A number. -/
def number (cs : List Char) : Option (Json × List Char) := do
  let negative := cs.head? == some '-'
  let (n, r) ← wholeNumber (if negative then cs.tail else cs)
  let (fraction, r) ← optionalDigits (· == '.') false r
  let (exponent, r) ← optionalDigits (fun c => c == 'e' || c == 'E') true r
  pure (if negative || fraction || exponent then .otherNumber else .nat n, r)

mutual

/-- A value of at most `bound` levels, after optional white space. -/
def value (bound : Nat) (cs : List Char) : Option (Json × List Char) :=
  match bound with
  | 0 => none
  | bound + 1 =>
    match skipSpace cs with
    | 'n' :: 'u' :: 'l' :: 'l' :: r => some (.null, r)
    | 't' :: 'r' :: 'u' :: 'e' :: r => some (.bool true, r)
    | 'f' :: 'a' :: 'l' :: 's' :: 'e' :: r => some (.bool false, r)
    | '"' :: r => (literal r).map fun (s, r) => (.string s, r)
    | '[' :: r =>
      match skipSpace r with
      | ']' :: r => some (.array [], r)
      | _ => (items bound r).map fun (vs, r) => (.array vs, r)
    | '\x7b' :: r =>
      match skipSpace r with
      | '\x7d' :: r => some (.object [], r)
      | _ => (fields bound r).map fun (fs, r) => (.object fs, r)
    | r => number r

/-- One or more items with commas between them, and the closing bracket. -/
def items (bound : Nat) (cs : List Char) : Option (List Json × List Char) :=
  match bound with
  | 0 => none
  | bound + 1 =>
    match value bound cs with
    | none => none
    | some (v, r) =>
      match skipSpace r with
      | ',' :: r => (items bound r).map fun (vs, r) => (v :: vs, r)
      | ']' :: r => some ([v], r)
      | _ => none

/-- One or more fields with commas between them, and the closing brace. -/
def fields (bound : Nat) (cs : List Char) : Option (List (Literal × Json) × List Char) :=
  match bound with
  | 0 => none
  | bound + 1 =>
    match skipSpace cs with
    | '"' :: r =>
      match literal r with
      | none => none
      | some (k, r) =>
        match skipSpace r with
        | ':' :: r =>
          match value bound r with
          | none => none
          | some (v, r) =>
            match skipSpace r with
            | ',' :: r => (fields bound r).map fun (fs, r) => ((k, v) :: fs, r)
            | '\x7d' :: r => some ([(k, v)], r)
            | _ => none
        | _ => none
    | _ => none

end

/-- The one value that a text holds. -/
def read? (s : String) : Option Json :=
  let cs := s.toList
  match value (2 * cs.length + 2) cs with
  | some (v, r) => if (skipSpace r).isEmpty then some v else none
  | none => none

end SheetFormula.Json
