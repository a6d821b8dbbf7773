/-!
# The spelling of decimal numbers

A decimal number has an optional sign, digits with an optional point among, before or after them,
and an optional exponent; the words for infinity and for the absent number are decimal numbers too,
in either case. `isDecimal` tests a text for this spelling. `isExponentStem` tests for the short form
of a number that stops right after the letter of its exponent, where a sign is part of the number.
-/

namespace SheetFormula.Text

/-- One of the ten digits `0` to `9`. -/
def isDigit (c : Char) : Bool := '0' ≤ c && c ≤ '9'

/-- One or more digits and nothing else. -/
def isDigits (cs : List Char) : Bool := !cs.isEmpty && cs.all isDigit

/-- The text after an optional leading sign. -/
def dropSign : List Char → List Char
  | '+' :: cs => cs
  | '-' :: cs => cs
  | cs => cs

/-- The letters of `word`, which is in lower case, in either case. -/
def isWord (word : String) (cs : List Char) : Bool := cs.map Char.toLower == word.toList

/-- Nothing, or the letter `e` in either case, an optional sign and digits. -/
def isExponent : List Char → Bool
  | [] => true
  | c :: cs => (c == 'e' || c == 'E') && isDigits (dropSign cs)

/-- Digits with an optional point, at least one digit in all, and an optional exponent. -/
def isUnsignedDecimal (cs : List Char) : Bool :=
  let whole := cs.takeWhile isDigit
  match cs.dropWhile isDigit with
  | '.' :: rest =>
    let fraction := rest.takeWhile isDigit
    !(whole.isEmpty && fraction.isEmpty) && isExponent (rest.dropWhile isDigit)
  | rest => !whole.isEmpty && isExponent rest

/-- The spelling of a decimal number, of an infinity or of the absent number. -/
def isDecimal (cs : List Char) : Bool :=
  let body := dropSign cs
  isWord "inf" body || isWord "infinity" body || isWord "nan" body || isUnsignedDecimal body

/-- A digit from `1` to `9`, optionally a point and digits, and the letter `E`. -/
def isExponentStem : List Char → Bool
  | d :: rest =>
    '1' ≤ d && d ≤ '9' &&
      match rest with
      | '.' :: tail =>
        !(tail.takeWhile isDigit).isEmpty && tail.dropWhile isDigit == ['E']
      | tail => tail == ['E']
  | [] => false

end SheetFormula.Text
