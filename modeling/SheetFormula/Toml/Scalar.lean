import SheetFormula.Json.Read

/-!
# TOML texts, numbers and dates

Readers of the values that have no parts. Each takes the text from the start of the value on and
answers with the value, as far as it is kept, and the text after it. Numbers are checked for their
range, dates for the calendar and times for the clock; of none of them is the value kept.
-/

namespace SheetFormula.Toml

open Text (isDigit)

/-- A space or a tab. -/
def isBlank (c : Char) : Bool := c == ' ' || c == '\t'

/-- The text after leading spaces and tabs. -/
def skipBlank (cs : List Char) : List Char := cs.dropWhile isBlank

/-- A character that may stand in texts and comments: a tab, or no control character of ASCII. -/
def isPlainChar (c : Char) : Bool := c == '\t' || (0x20 ≤ c.toNat && c.toNat ≠ 0x7F)

/-- The text after a line break, if it begins with one. -/
def newline? : List Char → Option (List Char)
  | '\n' :: cs => some cs
  | '\r' :: '\n' :: cs => some cs
  | _ => none

/-! ## Texts -/

/-- The character of a code point; halves of surrogate pairs have none. -/
def charOfCode? (n : Nat) : Option Char :=
  if n < 0xD800 ∨ (0xDFFF < n ∧ n < 0x110000) then some (Char.ofNat n) else none

/-- The number of some hexadecimal digits. -/
def hexNumber? (cs : List Char) : Option Nat :=
  cs.foldl (fun n c => do some ((← n) * 16 + (← Json.hexValue? c))) (some 0)

/-- The character that a one-letter escape stands for. -/
def simpleEscape? : Char → Option Char
  | 'b' => some '\x08'
  | 't' => some '\t'
  | 'n' => some '\n'
  | 'f' => some '\x0c'
  | 'r' => some '\r'
  | '"' => some '"'
  | '\\' => some '\\'
  | _ => none

/-- What an escape stands for, after its backslash, and how many characters it takes. -/
def escape? : List Char → Option (Char × Nat)
  | 'u' :: cs =>
    if (cs.take 4).length = 4 then
      ((hexNumber? (cs.take 4)).bind charOfCode?).map fun c => (c, 5)
    else none
  | 'U' :: cs =>
    if (cs.take 8).length = 8 then
      ((hexNumber? (cs.take 8)).bind charOfCode?).map fun c => (c, 9)
    else none
  | e :: _ => (simpleEscape? e).map fun c => (c, 1)
  | [] => none

/-- A text between double quotes, after the opening quote; `skip` characters belong to an escape. -/
def basicText (skip : Nat) : List Char → Option (List Char × List Char)
  | [] => none
  | c :: cs =>
    match skip with
    | skip + 1 => basicText skip cs
    | 0 =>
      if c = '"' then some ([], cs)
      else if c = '\\' then
        match escape? cs with
        | some (e, n) => (basicText n cs).map fun (s, r) => (e :: s, r)
        | none => none
      else if isPlainChar c then (basicText 0 cs).map fun (s, r) => (c :: s, r)
      else none

/-- A text between single quotes, after the opening quote. -/
def literalText : List Char → Option (List Char × List Char)
  | [] => none
  | c :: cs =>
    if c = '\x27' then some ([], cs)
    else if isPlainChar c then (literalText cs).map fun (s, r) => (c :: s, r)
    else none

/-- At a closing delimiter of three quotes: the one or two quotes before it that still belong to the
text, and the text after it. -/
def closingQuotes? (q : Char) : List Char → Option (List Char × List Char)
  | a :: b :: c :: cs =>
    if a = q ∧ b = q ∧ c = q then
      match cs with
      | d :: e :: r =>
        if d = q ∧ e = q then some ([q, q], r)
        else if d = q then some ([q], e :: r)
        else some ([], cs)
      | [d] => if d = q then some ([q], []) else some ([], [d])
      | [] => some ([], [])
    else none
  | _ => none

/-- A backslash before this text joins lines: only blanks stand before the line break. -/
def joinsLines (cs : List Char) : Bool := (newline? (skipBlank cs)).isSome

/-- A text over several lines between triple double quotes, after the opening ones. Of the next
characters, `skip` belong to an escape; where lines are being joined, blanks and line breaks are
skipped. -/
def longBasicText (skip : Nat) (joining : Bool) : List Char → Option (List Char × List Char)
  | [] => none
  | c :: cs =>
    match skip with
    | skip + 1 => longBasicText skip joining cs
    | 0 =>
      if joining && (isBlank c || c == '\n') then longBasicText 0 true cs
      else if joining && (newline? (c :: cs)).isSome then longBasicText 1 true cs
      else if c = '\\' then
        if joinsLines cs then longBasicText 0 true cs
        else
          match escape? cs with
          | some (e, n) => (longBasicText n false cs).map fun (s, r) => (e :: s, r)
          | none => none
      else
        match closingQuotes? '"' (c :: cs) with
        | some (s, r) => some (s, r)
        | none =>
          if c = '\n' ∨ isPlainChar c = true then
            (longBasicText 0 false cs).map fun (s, r) => (c :: s, r)
          else if c = '\r' ∧ cs.head? = some '\n' then
            (longBasicText 1 false cs).map fun (s, r) => ('\n' :: s, r)
          else none

/-- A text over several lines between triple single quotes, after the opening ones. -/
def longLiteralText : List Char → Option (List Char × List Char)
  | [] => none
  | c :: cs =>
    match closingQuotes? '\x27' (c :: cs) with
    | some (s, r) => some (s, r)
    | none =>
      if c = '\n' ∨ isPlainChar c = true then (longLiteralText cs).map fun (s, r) => (c :: s, r)
      else if c = '\r' ∧ cs.head? = some '\n' then longLiteralText cs
      else none

/-- The text without a line break at its start. -/
def dropNewline (cs : List Char) : List Char := (newline? cs).getD cs

/-- A text in any of the four kinds of quotes. -/
def text? : List Char → Option (List Char × List Char)
  | '"' :: '"' :: '"' :: cs => longBasicText 0 false (dropNewline cs)
  | '"' :: cs => basicText 0 cs
  | '\x27' :: '\x27' :: '\x27' :: cs => longLiteralText (dropNewline cs)
  | '\x27' :: cs => literalText cs
  | _ => none

/-! ## Numbers -/

/-- Digits of a class, with single underscores between them; the underscores are left out. -/
def digitRun? (isDigit : Char → Bool) : List Char → Option (List Char × List Char)
  | [] => none
  | c :: cs =>
    if isDigit c then
      match cs with
      | '_' :: d :: r =>
        if isDigit d then (digitRun? isDigit (d :: r)).map fun (ds, r) => (c :: ds, r) else none
      | ['_'] => none
      | d :: r =>
        if isDigit d then (digitRun? isDigit (d :: r)).map fun (ds, r) => (c :: ds, r)
        else some ([c], d :: r)
      | [] => some ([c], [])
    else none

/-- The number of some digits in a base. -/
def digitsValue (base : Nat) (ds : List Char) : Nat :=
  ds.foldl (fun n c => base * n + (Json.hexValue? c).getD 0) 0

/-- The largest integer. -/
def maxInteger : Nat := UInt64.size / 2 - 1

/-- An integer in a base other than ten, after its mark. -/
def basedInteger? (base : Nat) (cs : List Char) : Option (List Char) := do
  let (ds, r) ← digitRun? (fun c => (Json.hexValue? c).any (· < base)) cs
  if digitsValue base ds ≤ maxInteger then some r else none

/-- An optional sign: whether it is a minus, and the text after it. -/
def sign : List Char → Bool × List Char
  | '-' :: cs => (true, cs)
  | '+' :: cs => (false, cs)
  | cs => (false, cs)

/-- Decimal digits without a leading zero. -/
def wholePart? : List Char → Option (List Char × List Char)
  | '0' :: cs => some (['0'], cs)
  | cs => digitRun? isDigit cs

/-- An integer. -/
def integer? : List Char → Option (List Char)
  | '0' :: 'x' :: cs => basedInteger? 16 cs
  | '0' :: 'o' :: cs => basedInteger? 8 cs
  | '0' :: 'b' :: cs => basedInteger? 2 cs
  | cs => do
    let (negative, cs) := sign cs
    let (ds, r) ← wholePart? cs
    if digitsValue 10 ds ≤ (if negative then maxInteger + 1 else maxInteger) then some r else none

/-- The digits `ds` times ten to the power `exponent` round to a number above the largest finite
one, which is the case from `2 ^ 1024 - 2 ^ 970` on. -/
def exceedsDouble (ds : List Char) (exponent : Int) : Bool :=
  let ds := ds.dropWhile (· == '0')
  let magnitude : Int := ds.length + exponent
  if ds.isEmpty || magnitude < 300 then false
  else if 320 < magnitude then true
  else
    let n := digitsValue 10 ds
    let limit := Nat.pow 2 1024 - Nat.pow 2 970
    if 0 ≤ exponent then limit ≤ n * Nat.pow 10 exponent.toNat
    else limit * Nat.pow 10 (-exponent).toNat ≤ n

/-- An exponent, after its letter. -/
def exponent? (cs : List Char) : Option (Int × List Char) := do
  let (negative, cs) := sign cs
  let (ds, r) ← digitRun? isDigit cs
  let n : Int := digitsValue 10 ds
  some (if negative then -n else n, r)

/-- The word for infinity or for the absent number. -/
def numberWord? : List Char → Option (List Char)
  | 'i' :: 'n' :: 'f' :: cs => some cs
  | 'n' :: 'a' :: 'n' :: cs => some cs
  | _ => none

/-- A floating-point number with a fraction, an exponent or both; one that rounds to infinity is
refused, unless it is negative. -/
def float? (cs : List Char) : Option (List Char) := do
  let (negative, cs) := sign cs
  let (whole, r) ← wholePart? cs
  let (fraction, r) ← match r with
    | '.' :: r => (digitRun? isDigit r).map fun (ds, r) => (some ds, r)
    | r => some (none, r)
  let (exponent, r) ← match r with
    | 'e' :: r => (exponent? r).map fun (n, r) => (some n, r)
    | 'E' :: r => (exponent? r).map fun (n, r) => (some n, r)
    | r => some (none, r)
  let places := fraction.getD []
  if fraction.isNone && exponent.isNone then none
  else if !negative && exceedsDouble (whole ++ places) (exponent.getD 0 - places.length) then none
  else some r

/-! ## Dates and times -/

/-- A number of exactly `n` digits. -/
def fixedDigits? (n : Nat) (cs : List Char) : Option (Nat × List Char) :=
  let ds := cs.take n
  if ds.length = n ∧ ds.all isDigit = true then some (digitsValue 10 ds, cs.drop n) else none

/-- A number of two digits in a range. -/
def twoDigits? (low high : Nat) (cs : List Char) : Option (Nat × List Char) := do
  let (n, r) ← fixedDigits? 2 cs
  if low ≤ n ∧ n ≤ high then some (n, r) else none

/-- The text after a character that has to be there. -/
def expect? (c : Char) : List Char → Option (List Char)
  | d :: cs => if d = c then some cs else none
  | [] => none

/-- The days of a month. -/
def daysInMonth (year month : Nat) : Nat :=
  if month = 2 then
    if year % 4 = 0 ∧ (year % 100 ≠ 0 ∨ year % 400 = 0) then 29 else 28
  else if month = 4 ∨ month = 6 ∨ month = 9 ∨ month = 11 then 30
  else 31

/-- A date of the calendar. -/
def date? (cs : List Char) : Option (List Char) := do
  let (year, r) ← fixedDigits? 4 cs
  let r ← expect? '-' r
  let (month, r) ← twoDigits? 1 12 r
  let r ← expect? '-' r
  let (day, r) ← twoDigits? 1 31 r
  if day ≤ daysInMonth year month then some r else none

/-- Digits of a second after a point, if there are any. -/
def skipFraction : List Char → List Char
  | '.' :: cs => if (cs.takeWhile isDigit).isEmpty then '.' :: cs else cs.dropWhile isDigit
  | cs => cs

/-- A time of the day, in which a minute may have a sixty-first second. -/
def time? (cs : List Char) : Option (List Char) := do
  let (_, r) ← twoDigits? 0 23 cs
  let r ← expect? ':' r
  let (_, r) ← twoDigits? 0 59 r
  let r ← expect? ':' r
  let (_, r) ← twoDigits? 0 60 r
  some (skipFraction r)

/-- The distance of a local time from universal time. -/
def offset? : List Char → Option (List Char)
  | 'Z' :: cs => some cs
  | 'z' :: cs => some cs
  | c :: cs =>
    if c = '+' ∨ c = '-' then do
      let (_, r) ← twoDigits? 0 23 cs
      let r ← expect? ':' r
      let (_, r) ← twoDigits? 0 59 r
      some r
    else none
  | [] => none

/-- A time with an optional offset. -/
def timeWithOffset? (cs : List Char) : Option (List Char) :=
  (time? cs).map fun r => (offset? r).getD r

/-- A date, a date and a time, or a time. -/
def dateTime? (cs : List Char) : Option (List Char) :=
  match date? cs with
  | some (c :: r) =>
    if c = 'T' ∨ c = 't' ∨ c = ' ' then some ((timeWithOffset? r).getD (c :: r)) else some (c :: r)
  | some [] => some []
  | none => time? cs

end SheetFormula.Toml
