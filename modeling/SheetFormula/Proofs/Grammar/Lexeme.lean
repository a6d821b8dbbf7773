import SheetFormula.Proofs.ScanWalk
import SheetFormula.Stream.Classes

/-!
# The lexemes of well-formed formulas

The smallest pieces of a well-formed formula that spaces cannot be put into: operands in all their
spellings, the ends of calls, parentheses and arrays, separators and operators. Each lexeme has a text,
the raw tokens that a scan makes of it, and the final tokens that it stands for. Main statements:

* `isPlain_of_isDigit`: digits are plain characters;
* `Scientific.isExponentStem_stem`, `Scientific.isExponentStem_value`: the sign in a number belongs to it,
  and a sign after the number does not;
* `Scientific.isDecimal_value`: a number with a signed exponent is spelled as a decimal number;
* `Lexeme.spelling_head_of_begins`, `Lexeme.spelling_head_of_not_begins`, `Lexeme.spelling_last`: how the
  spelling of a lexeme begins and ends.
-/

namespace SheetFormula.Grammar

open SheetFormula.Scan

/-! ## Operands -/

/-- The characters that end or interrupt the text of an operand. -/
def delimiters : List Char :=
  ['"', '\x27', '[', '#', '\x7b', '\x7d', ';', '(', ')', ',', '%', '+', '-', '*', '/', '^', '&', '=',
    '<', '>']

/-- A character that belongs to the text of an operand wherever it stands. -/
def isPlain (c : Char) : Bool := !Text.isBlank c && !delimiters.contains c

/-- A text with each of its quotes doubled. -/
def doubled (quote : Char) (cs : List Char) : List Char :=
  cs.flatMap fun c => if c = quote then [quote, quote] else [c]

/-- A part of a reference: a plain character, or anything between brackets. -/
inductive Piece where
  | plain (c : Char) (h : isPlain c = true)
  | bracket (cs : List Char) (h : ']' ∉ cs)

/-- The text of a part of a reference. -/
def Piece.spelling : Piece → List Char
  | .plain c _ => [c]
  | .bracket cs _ => '[' :: (cs ++ [']'])

/-- An operand that is neither a text nor an error: a reference, a name, a number or a truth value. It
has some text, and a sign after it is an operator. -/
structure Operand where
  /-- The text of a leading path. -/
  path : Option (List Char)
  pieces : List Piece
  nonempty : path.getD [] ++ pieces.flatMap Piece.spelling ≠ []
  steady : Text.isExponentStem (path.getD [] ++ pieces.flatMap Piece.spelling) = false

namespace Operand

/-- The decoded value of an operand. -/
def value (o : Operand) : List Char := o.path.getD [] ++ o.pieces.flatMap Piece.spelling

/-- A path between quotes. -/
def pathSpelling : Option (List Char) → List Char
  | none => []
  | some cs => '\x27' :: (doubled '\x27' cs ++ ['\x27'])

/-- The text of an operand. -/
def spelling (o : Operand) : List Char := pathSpelling o.path ++ o.pieces.flatMap Piece.spelling

end Operand

/-- A sign before an operand or an exponent. -/
inductive Sign where
  | plus
  | minus

/-- The character of a sign. -/
def Sign.char : Sign → Char
  | plus => '+'
  | minus => '-'

/-- A number with a signed exponent. -/
structure Scientific where
  lead : Char
  fraction : Option (List Char)
  sign : Sign
  exponent : List Char
  isLead : ('1' ≤ lead && lead ≤ '9') = true
  isFraction : ∀ ds ∈ fraction, Text.isDigits ds = true
  isExponent : Text.isDigits exponent = true

namespace Scientific

/-- A point and the digits after it. -/
def fractionSpelling : Option (List Char) → List Char
  | none => []
  | some ds => '.' :: ds

/-- The text before the sign. -/
def stem (n : Scientific) : List Char := n.lead :: (fractionSpelling n.fraction ++ ['E'])

/-- The text of the number, which is its value. -/
def value (n : Scientific) : List Char := n.stem ++ n.sign.char :: n.exponent

end Scientific

/-- An operand by itself. -/
inductive Literal where
  | operand (o : Operand)
  | scientific (n : Scientific)
  /-- Any text, between double quotes. -/
  | text (s : String)
  /-- One of the error literals. -/
  | error (s : String) (h : s ∈ errorLiterals)

namespace Literal

/-- The text of an operand. -/
def spelling : Literal → List Char
  | .operand o => o.spelling
  | .scientific n => n.value
  | .text s => '"' :: (doubled '"' s.toList ++ ['"'])
  | .error s _ => s.toList

/-- The raw token of an operand. -/
def raw : Literal → Token
  | .operand o => ⟨String.ofList o.value, .operand, .plain⟩
  | .scientific n => ⟨String.ofList n.value, .operand, .plain⟩
  | .text s => ⟨s, .operand, .text⟩
  | .error s _ => ⟨s, .operand, .error⟩

/-- The token of an operand. -/
def token : Literal → Token
  | .operand o => ⟨String.ofList o.value, .operand, Stream.operandSubkind (String.ofList o.value)⟩
  | .scientific n => ⟨String.ofList n.value, .operand, .number⟩
  | .text s => ⟨s, .operand, .text⟩
  | .error s _ => ⟨s, .operand, .error⟩

end Literal

/-! ## Lexemes -/

/-- The name of a function, with or without the mark of an explicit call. -/
structure CallName where
  marked : Bool
  name : List Char
  nonempty : name ≠ []
  plain : ∀ c ∈ name, isPlain c = true
  unmarked : name.head? ≠ some '@'

/-- The text of a function's name. -/
def CallName.spelling (n : CallName) : List Char := (if n.marked then ['@'] else []) ++ n.name

/-- What a comma separates. -/
inductive Separator where
  | argument
  | union

/-- The token of a comma. -/
def Separator.token : Separator → Token
  | argument => argumentToken
  | union => ⟨",", .infixOp, .union⟩

/-- The operators between two operands. -/
inductive BinaryOp where
  | add | sub | mul | div | pow | concat | eq | lt | gt | le | ge | ne
deriving DecidableEq

namespace BinaryOp

/-- The text of an operator. -/
def spelling : BinaryOp → List Char
  | add => ['+']
  | sub => ['-']
  | mul => ['*']
  | div => ['/']
  | pow => ['^']
  | concat => ['&']
  | eq => ['=']
  | lt => ['<']
  | gt => ['>']
  | le => ['<', '=']
  | ge => ['>', '=']
  | ne => ['<', '>']

/-- The operation of an operator. -/
def subkind : BinaryOp → Subkind
  | add | sub | mul | div | pow => .math
  | concat => .concatenation
  | eq | lt | gt | le | ge | ne => .logical

/-- The scanner settles the operation of a comparison of two characters only. -/
def rawSubkind : BinaryOp → Subkind
  | le | ge | ne => .logical
  | _ => .plain

/-- The token of an operator. -/
def token (op : BinaryOp) : Token := ⟨String.ofList op.spelling, .infixOp, op.subkind⟩

end BinaryOp

/-- The end of a call, of an array or of one of its rows. -/
def callEnd : Token := ⟨"", .function, .stop⟩

/-- The beginning of an array. -/
def arrayToken : Token := ⟨arrayName, .function, .start⟩

/-- A piece of a formula without spaces in it. -/
inductive Lexeme where
  | literal (l : Literal)
  /-- The name of a function and the parenthesis after it. -/
  | call (n : CallName)
  | group
  | array
  | endCall
  | endGroup
  | endArray
  /-- The end of one row and the beginning of the next. -/
  | row
  | comma (s : Separator)
  /-- A sign before an operand. -/
  | sign (s : Sign)
  | binary (op : BinaryOp)
  | percent

namespace Lexeme

/-- The text of a lexeme. -/
def spelling : Lexeme → List Char
  | literal l => l.spelling
  | call n => n.spelling ++ ['(']
  | group => ['(']
  | array => ['\x7b']
  | endCall | endGroup => [')']
  | endArray => ['\x7d']
  | row => [';']
  | comma _ => [',']
  | sign s => [s.char]
  | binary op => op.spelling
  | percent => ['%']

/-- The raw tokens of a lexeme. -/
def raw : Lexeme → List Token
  | literal l => [l.raw]
  | call n => [⟨String.ofList n.spelling, .function, .start⟩]
  | group => [⟨"", .subexpression, .start⟩]
  | array => [arrayToken, rowToken]
  | endCall => [callEnd]
  | endGroup => [⟨"", .subexpression, .stop⟩]
  | endArray => [callEnd, callEnd]
  | row => [callEnd, argumentToken, rowToken]
  | comma s => [s.token]
  | sign s => [⟨String.singleton s.char, .infixOp, .plain⟩]
  | binary op => [⟨String.ofList op.spelling, .infixOp, op.rawSubkind⟩]
  | percent => [⟨"%", .postfixOp, .plain⟩]

/-- The final tokens of a lexeme. -/
def tokens : Lexeme → List Token
  | literal l => [l.token]
  | call n => [⟨String.ofList n.name, .function, .start⟩]
  | sign .plus => []
  | sign .minus => [⟨"-", .prefixOp, .plain⟩]
  | binary op => [op.token]
  | l => l.raw

/-- An operand begins with the lexeme. -/
def begins : Lexeme → Bool
  | literal _ | call _ | group | array => true
  | _ => false

end Lexeme

/-! ## The characters of lexemes -/

theorem isPlain_iff {c : Char} : isPlain c = true ↔ Text.isBlank c = false ∧ c ∉ delimiters := by
  simp [isPlain]

theorem ne_of_isPlain {c d : Char} (h : isPlain c = true) (hd : d ∈ delimiters) : c ≠ d := by
  intro hcd
  exact (isPlain_iff.1 h).2 (hcd ▸ hd)

theorem ne_space_of_isBlank {c : Char} (h : Text.isBlank c = false) : c ≠ ' ' := by
  rintro rfl
  exact absurd h (by decide)

/-- A digit is a plain character. -/
theorem isPlain_of_isDigit {c : Char} (h : Text.isDigit c = true) : isPlain c = true := by
  refine isPlain_iff.2 ⟨?_, fun hc => ?_⟩
  · simp only [Text.isDigit, Bool.and_eq_true, decide_eq_true_eq, Char.le_def, UInt32.le_iff_toNat_le] at h
    have h0 : (48 : Nat) ≤ c.toNat := h.1
    have h9 : c.toNat ≤ 57 := h.2
    simp only [Text.isBlank, Bool.or_eq_false_iff, Bool.and_eq_false_iff, beq_eq_false_iff_ne,
      decide_eq_false_iff_not]
    omega
  · revert h
    simp only [delimiters, List.mem_cons, List.not_mem_nil, or_false] at hc
    rcases hc with rfl | rfl | rfl | rfl | rfl | rfl | rfl | rfl | rfl | rfl | rfl | rfl | rfl | rfl |
      rfl | rfl | rfl | rfl | rfl | rfl <;> decide

theorem isDigits_iff {cs : List Char} :
    Text.isDigits cs = true ↔ cs ≠ [] ∧ ∀ c ∈ cs, Text.isDigit c = true := by
  simp [Text.isDigits]

/-! ## Numbers with a signed exponent -/

/-- A text that a sign belongs to ends with the letter of the exponent. -/
theorem getLast?_of_isExponentStem {cs : List Char} (h : Text.isExponentStem cs = true) :
    cs.getLast? = some 'E' := by
  have htail : ∀ tail : List Char, tail.dropWhile Text.isDigit = ['E'] → tail.getLast? = some 'E' := by
    intro tail hdrop
    rw [← List.takeWhile_append_dropWhile (p := Text.isDigit) (l := tail), hdrop]
    exact List.getLast?_concat
  cases cs with
  | nil => cases h
  | cons d rest =>
    simp only [Text.isExponentStem, Bool.and_eq_true] at h
    obtain ⟨-, hrest⟩ := h
    split at hrest
    · rename_i tail
      simp only [Bool.and_eq_true, beq_iff_eq] at hrest
      have hlast := htail tail hrest.2
      cases tail with
      | nil => cases hlast
      | cons e tail => simpa using hlast
    · rename_i tail _
      rw [eq_of_beq hrest]
      rfl

namespace Scientific

variable (n : Scientific)

theorem isDigit_lead : Text.isDigit n.lead = true := by
  have h := n.isLead
  simp only [Bool.and_eq_true, decide_eq_true_eq] at h
  simp only [Text.isDigit, Bool.and_eq_true, decide_eq_true_eq]
  exact ⟨Char.le_trans (by decide) h.1, h.2⟩

theorem isPlain_stem : ∀ c ∈ n.stem, isPlain c = true := by
  intro c hc
  rw [stem, List.mem_cons, List.mem_append, List.mem_singleton] at hc
  rcases hc with rfl | hc | rfl
  · exact isPlain_of_isDigit n.isDigit_lead
  · cases hf : n.fraction with
    | none =>
      rw [hf] at hc
      cases hc
    | some ds =>
      rw [hf, fractionSpelling, List.mem_cons] at hc
      rcases hc with rfl | hc
      · decide
      · exact isPlain_of_isDigit ((isDigits_iff.1 (n.isFraction ds hf)).2 c hc)
  · decide

/-- The text before the sign is one that a sign belongs to. -/
theorem isExponentStem_stem : Text.isExponentStem n.stem = true := by
  have hlead := n.isLead
  have hfraction := n.isFraction
  rw [stem]
  cases hf : n.fraction with
  | none => simp [fractionSpelling, Text.isExponentStem, hlead]
  | some ds =>
    obtain ⟨hne, hds⟩ := isDigits_iff.1 (hfraction ds hf)
    simp only [fractionSpelling, List.cons_append, Text.isExponentStem, hlead, Bool.true_and,
      List.takeWhile_append_of_pos hds, List.dropWhile_append_of_pos hds]
    cases ds with
    | nil => exact absurd rfl hne
    | cons d ds => rfl

/-- The whole number is none, for it ends with a digit. -/
theorem isExponentStem_value : Text.isExponentStem n.value = false := by
  obtain ⟨hne, hds⟩ := isDigits_iff.1 n.isExponent
  obtain ⟨d, hd⟩ : ∃ d, n.exponent.getLast? = some d := by
    cases h : n.exponent.getLast? with
    | some d => exact ⟨d, rfl⟩
    | none => exact absurd (List.getLast?_eq_none_iff.1 h) hne
  have hlast : n.value.getLast? = some d := by
    rw [value, List.getLast?_append, List.getLast?_cons, hd]
    rfl
  rw [← Bool.not_eq_true]
  intro h
  have hE : d = 'E' := Option.some.inj (hlast.symm.trans (getLast?_of_isExponentStem h))
  exact absurd (hds 'E' (hE ▸ List.mem_of_getLast? hd)) (by decide)

theorem isExponent_exponent : Text.isExponent ('E' :: n.sign.char :: n.exponent) = true := by
  have hsign : Text.dropSign (n.sign.char :: n.exponent) = n.exponent := by
    cases n.sign <;> rfl
  rw [Text.isExponent, hsign, n.isExponent]
  rfl

theorem isUnsignedDecimal_value : Text.isUnsignedDecimal n.value = true := by
  have hlead := n.isDigit_lead
  have hexponent := n.isExponent_exponent
  have hvalue : n.value =
      n.lead :: (fractionSpelling n.fraction ++ 'E' :: n.sign.char :: n.exponent) := by
    simp [value, stem]
  rw [hvalue, Text.isUnsignedDecimal, List.takeWhile_cons_of_pos hlead,
    List.dropWhile_cons_of_pos hlead]
  cases hf : n.fraction with
  | none => simpa [fractionSpelling, Text.isDigit] using hexponent
  | some ds =>
    obtain ⟨-, hds⟩ := isDigits_iff.1 (n.isFraction ds hf)
    simpa [fractionSpelling, Text.isDigit, List.dropWhile_append_of_pos hds] using hexponent

theorem isDecimal_value : Text.isDecimal n.value = true := by
  have hsign : Text.dropSign n.value = n.value := by
    have hlead := n.isDigit_lead
    rw [value, stem, List.cons_append]
    unfold Text.dropSign
    split
    · rename_i heq
      rw [(List.cons.inj heq).1] at hlead
      cases hlead
    · rename_i heq
      rw [(List.cons.inj heq).1] at hlead
      cases hlead
    · rfl
  rw [Text.isDecimal, hsign, isUnsignedDecimal_value, Bool.or_true]

end Scientific

/-! ## How lexemes begin and end -/

/-- The first character of a piece is plain, or an opening bracket. -/
theorem Piece.spelling_head (q : Piece) :
    ∃ c cs, q.spelling = c :: cs ∧ (isPlain c = true ∨ c = '[') := by
  cases q with
  | plain c h => exact ⟨c, [], rfl, .inl h⟩
  | bracket cs _ => exact ⟨'[', _, rfl, .inr rfl⟩

theorem Piece.spelling_last (q : Piece) :
    ∃ cs c, q.spelling = cs ++ [c] ∧ Text.isBlank c = false := by
  cases q with
  | plain c h => exact ⟨[], c, rfl, (isPlain_iff.1 h).1⟩
  | bracket cs _ => exact ⟨'[' :: cs, ']', rfl, by decide⟩

/-- The first character of an operand is plain, or an opening bracket or a quote. -/
theorem Operand.spelling_head (o : Operand) :
    ∃ c cs, o.spelling = c :: cs ∧ (isPlain c = true ∨ c = '[' ∨ c = '\x27') := by
  have hne := o.nonempty
  rw [Operand.spelling]
  cases hpath : o.path with
  | some cs => exact ⟨'\x27', _, rfl, .inr (.inr rfl)⟩
  | none =>
    cases hpieces : o.pieces with
    | nil => simp [hpath, hpieces] at hne
    | cons q qs =>
      obtain ⟨c, cs, hq, hc⟩ := q.spelling_head
      refine ⟨c, cs ++ qs.flatMap Piece.spelling, ?_, hc.imp_right .inl⟩
      rw [Operand.pathSpelling, List.nil_append, List.flatMap_cons, hq, List.cons_append]

theorem Operand.spelling_last (o : Operand) :
    ∃ cs c, o.spelling = cs ++ [c] ∧ Text.isBlank c = false := by
  have hne := o.nonempty
  rw [Operand.spelling]
  rcases List.eq_nil_or_concat o.pieces with hpieces | ⟨qs, q, hpieces⟩
  · cases hpath : o.path with
    | none => simp [hpath, hpieces] at hne
    | some cs => exact ⟨'\x27' :: doubled '\x27' cs, '\x27', by simp [pathSpelling, hpieces], by decide⟩
  · obtain ⟨cs, c, hq, hc⟩ := q.spelling_last
    refine ⟨pathSpelling o.path ++ (qs.flatMap Piece.spelling ++ cs), c, ?_, hc⟩
    rw [hpieces, List.concat_eq_append, List.flatMap_append, List.flatMap_singleton, hq,
      List.append_assoc, List.append_assoc]

theorem Scientific.spelling_last (n : Scientific) :
    ∃ cs c, n.value = cs ++ [c] ∧ Text.isBlank c = false := by
  obtain ⟨hne, hds⟩ := isDigits_iff.1 n.isExponent
  rcases List.eq_nil_or_concat n.exponent with hnil | ⟨ds, d, hexponent⟩
  · exact absurd hnil hne
  · rw [List.concat_eq_append] at hexponent
    have hd : Text.isDigit d = true := hds d (by simp [hexponent])
    refine ⟨n.stem ++ n.sign.char :: ds, d, ?_, (isPlain_iff.1 (isPlain_of_isDigit hd)).1⟩
    rw [Scientific.value, hexponent, List.append_assoc, List.cons_append]

theorem errorLiterals_ends {s : String} (h : s ∈ errorLiterals) :
    ∃ cs c, s.toList = '#' :: (cs ++ [c]) ∧ Text.isBlank c = false := by
  simp only [errorLiterals, List.mem_cons, List.not_mem_nil, or_false] at h
  rcases h with rfl | rfl | rfl | rfl | rfl | rfl | rfl
  · exact ⟨['N', 'U', 'L', 'L'], '!', by decide, by decide⟩
  · exact ⟨['D', 'I', 'V', '/', '0'], '!', by decide, by decide⟩
  · exact ⟨['V', 'A', 'L', 'U', 'E'], '!', by decide, by decide⟩
  · exact ⟨['R', 'E', 'F'], '!', by decide, by decide⟩
  · exact ⟨['N', 'A', 'M', 'E'], '?', by decide, by decide⟩
  · exact ⟨['N', 'U', 'M'], '!', by decide, by decide⟩
  · exact ⟨['N', '/'], 'A', by decide, by decide⟩

theorem ne_of_isPlain_head {c : Char} (h : isPlain c = true) : c ≠ ' ' ∧ c ≠ '=' ∧ c ≠ '>' :=
  ⟨ne_space_of_isBlank (isPlain_iff.1 h).1, ne_of_isPlain h (by decide), ne_of_isPlain h (by decide)⟩

/-- Where an operand begins, there is no space and no second half of a comparison. -/
theorem Lexeme.spelling_head_of_begins {l : Lexeme} (h : l.begins = true) :
    ∃ c cs, l.spelling = c :: cs ∧ c ≠ ' ' ∧ c ≠ '=' ∧ c ≠ '>' := by
  cases l with
  | literal l =>
    cases l with
    | operand o =>
      obtain ⟨c, cs, hs, hc⟩ := o.spelling_head
      refine ⟨c, cs, hs, ?_⟩
      rcases hc with hc | rfl | rfl
      · exact ne_of_isPlain_head hc
      · decide
      · decide
    | scientific n => exact ⟨n.lead, _, rfl, ne_of_isPlain_head (isPlain_of_isDigit n.isDigit_lead)⟩
    | text s => exact ⟨'"', _, rfl, by decide⟩
    | error s hs =>
      obtain ⟨cs, c, hs, -⟩ := errorLiterals_ends hs
      exact ⟨'#', _, hs, by decide⟩
  | call n =>
    obtain ⟨marked, name, hne, hname, -⟩ := n
    cases marked with
    | true => exact ⟨'@', _, rfl, by decide⟩
    | false =>
      cases name with
      | nil => exact absurd rfl hne
      | cons c cs => exact ⟨c, _, rfl, ne_of_isPlain_head (hname c List.mem_cons_self)⟩
  | group => exact ⟨'(', [], rfl, by decide⟩
  | array => exact ⟨'\x7b', [], rfl, by decide⟩
  | _ => cases h

/-- Where no operand begins, there is no space and no quote, and a second half of a comparison only as
an operator. -/
theorem Lexeme.spelling_head_of_not_begins {l : Lexeme} (h : l.begins = false) :
    ∃ c cs, l.spelling = c :: cs ∧ c ≠ ' ' ∧ c ≠ '"' ∧ c ≠ '\x27' ∧
      ((∀ op, l ≠ .binary op) → c ≠ '=' ∧ c ≠ '>') := by
  cases l with
  | literal _ | call _ | group | array => cases h
  | comma s => exact ⟨',', [], rfl, by decide, by decide, by decide, fun _ => by decide⟩
  | sign s => cases s <;> exact ⟨_, [], rfl, by decide, by decide, by decide, fun _ => by decide⟩
  | binary op =>
    cases op <;> exact ⟨_, _, rfl, by decide, by decide, by decide, fun h => absurd rfl (h _)⟩
  | _ => exact ⟨_, [], rfl, by decide, by decide, by decide, fun _ => by decide⟩

/-- The spelling does not end with white space. -/
theorem Lexeme.spelling_last (l : Lexeme) :
    ∃ cs c, l.spelling = cs ++ [c] ∧ Text.isBlank c = false := by
  cases l with
  | literal l =>
    cases l with
    | operand o => exact o.spelling_last
    | scientific n => exact n.spelling_last
    | text s => exact ⟨'"' :: doubled '"' s.toList, '"', rfl, by decide⟩
    | error s h =>
      obtain ⟨cs, c, hs, hc⟩ := errorLiterals_ends h
      exact ⟨'#' :: cs, c, hs, hc⟩
  | call n => exact ⟨n.spelling, '(', rfl, by decide⟩
  | sign s => cases s <;> exact ⟨[], _, rfl, by decide⟩
  | binary op =>
    cases op with
    | le => exact ⟨['<'], '=', rfl, by decide⟩
    | ge => exact ⟨['>'], '=', rfl, by decide⟩
    | ne => exact ⟨['<'], '>', rfl, by decide⟩
    | _ => exact ⟨[], _, rfl, by decide⟩
  | _ => exact ⟨[], _, rfl, by decide⟩

end SheetFormula.Grammar
