import SheetFormula.Text.Blank

/-!
# The lines of the input

The input is a sequence of bytes. A line ends at a line feed, and one carriage return before it belongs
to the end of the line too. A line whose bytes are no UTF-8 has no text.
-/

namespace SheetFormula.CommandLine

/-- The lines of some bytes, each with its line feed if it has one. -/
def byteLines : List UInt8 → List (List UInt8)
  | [] => []
  | b :: bs =>
    if b = 0x0A then [b] :: byteLines bs
    else
      match byteLines bs with
      | [] => [[b]]
      | l :: ls => (b :: l) :: ls

/-- A line without its end. -/
def dropLineEnd (cs : List Char) : List Char :=
  match cs.reverse with
  | '\n' :: '\r' :: rs => rs.reverse
  | '\n' :: rs => rs.reverse
  | _ => cs

/-- The text of a line, if its bytes are UTF-8. -/
def lineText? (line : List UInt8) : Option String :=
  (String.fromUTF8? ⟨line.toArray⟩).map fun s => String.ofList (dropLineEnd s.toList)

/-- The texts of the lines of some bytes. -/
def textLines (bytes : List UInt8) : List (Option String) := (byteLines bytes).map lineText?

/-- A line with nothing but white space. -/
def isBlankLine (line : String) : Bool := (Text.trim line.toList).isEmpty

end SheetFormula.CommandLine
