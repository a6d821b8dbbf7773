import Mathlib.Data.List.Basic
import SheetFormula.Json.Print
import SheetFormula.Json.Read

/-!
# What is printed is read back

Both layouts of a JSON value are one printer, `Layout.chars`, with white space of its own before each
item and field and after each colon. The reader skips that white space, so it gives back the value that
was printed. Each lemma about a part reads it in front of any text that does not carry the part on.
Main statements:

* `compactChars_eq`, `indentedChars_eq`: the two layouts are instances of `Layout.chars`;
* `pieces_flatMap_escape`: every escape of the printer is undone by the reader;
* `number_toDigits`: the digits of a number are read as that number;
* `Layout.reads`: a printed value is read back, whatever follows it;
* `read?_compact`, `read?_indented`: so a whole text holds the value that was printed.
-/

namespace SheetFormula.Json

open Text (isDigit)

/-! ## Layouts -/

/-- The white space of a printed value. -/
structure Layout where
  /-- What stands before an item, a field or the end of a container at a depth of nesting. -/
  line : Nat → List Char
  /-- What stands after a colon. -/
  gap : List Char
  isSpace_line : ∀ depth, ∀ c ∈ line depth, isSpace c = true
  isSpace_gap : ∀ c ∈ gap, isSpace c = true

namespace Layout

/-- No white space at all. -/
def dense : Layout where
  line _ := []
  gap := []
  isSpace_line := by simp
  isSpace_gap := by simp

/-- Each item and each field on a line of its own. -/
def lines : Layout where
  line := lineStart
  gap := [' ']
  isSpace_line depth := by
    rw [lineStart, List.forall_mem_cons]
    exact ⟨rfl, fun c hc => (List.eq_of_mem_replicate hc) ▸ rfl⟩
  isSpace_gap := by
    rw [List.forall_mem_singleton]
    rfl

mutual

/-- The text of a value at a depth of nesting. -/
def chars (L : Layout) (depth : Nat) : Json → List Char
  | .null => ['n', 'u', 'l', 'l']
  | .bool true => ['t', 'r', 'u', 'e']
  | .bool false => ['f', 'a', 'l', 's', 'e']
  | .nat n => Nat.toDigits 10 n
  | .otherNumber => ['-', '1']
  | .string s => quote s
  | .array [] => ['[', ']']
  | .array (v :: vs) =>
    '[' :: (L.line (depth + 1) ++ (L.chars (depth + 1) v ++ L.itemsChars depth vs))
  | .object [] => ['\x7b', '\x7d']
  | .object ((k, v) :: fields) =>
    '\x7b' :: (L.line (depth + 1) ++ (quote k ++ ':' :: (L.gap ++
      (L.chars (depth + 1) v ++ L.fieldsChars depth fields))))

/-- The items after the first and the closing bracket. -/
def itemsChars (L : Layout) (depth : Nat) : List Json → List Char
  | [] => L.line depth ++ [']']
  | v :: vs =>
    ',' :: (L.line (depth + 1) ++ (L.chars (depth + 1) v ++ L.itemsChars depth vs))

/-- The fields after the first and the closing brace. -/
def fieldsChars (L : Layout) (depth : Nat) : List (Literal × Json) → List Char
  | [] => L.line depth ++ ['\x7d']
  | (k, v) :: fields =>
    ',' :: (L.line (depth + 1) ++ (quote k ++ ':' :: (L.gap ++
      (L.chars (depth + 1) v ++ L.fieldsChars depth fields))))

end

end Layout

mutual

theorem compactChars_eq (depth : Nat) : ∀ v : Json, compactChars v = Layout.dense.chars depth v
  | .null => rfl
  | .bool true => rfl
  | .bool false => rfl
  | .nat _ => rfl
  | .otherNumber => rfl
  | .string _ => rfl
  | .array [] => rfl
  | .array (v :: vs) => by
    rw [compactChars, Layout.chars, compactChars_eq (depth + 1) v, compactItems_eq depth vs]
    rfl
  | .object [] => rfl
  | .object ((k, v) :: fields) => by
    rw [compactChars, Layout.chars, compactChars_eq (depth + 1) v, compactFields_eq depth fields]
    rfl

theorem compactItems_eq (depth : Nat) :
    ∀ vs : List Json, compactItems vs = Layout.dense.itemsChars depth vs
  | [] => rfl
  | v :: vs => by
    rw [compactItems, Layout.itemsChars, compactChars_eq (depth + 1) v, compactItems_eq depth vs]
    rfl

theorem compactFields_eq (depth : Nat) :
    ∀ fields : List (Literal × Json), compactFields fields = Layout.dense.fieldsChars depth fields
  | [] => rfl
  | (k, v) :: fields => by
    rw [compactFields, Layout.fieldsChars, compactChars_eq (depth + 1) v,
      compactFields_eq depth fields]
    rfl

end

mutual

theorem indentedChars_eq (depth : Nat) :
    ∀ v : Json, indentedChars depth v = Layout.lines.chars depth v
  | .null => rfl
  | .bool true => rfl
  | .bool false => rfl
  | .nat _ => rfl
  | .otherNumber => rfl
  | .string _ => rfl
  | .array [] => rfl
  | .array (v :: vs) => by
    rw [indentedChars, Layout.chars, indentedChars_eq (depth + 1) v, indentedItems_eq depth vs]
    rfl
  | .object [] => rfl
  | .object ((k, v) :: fields) => by
    rw [indentedChars, Layout.chars, indentedChars_eq (depth + 1) v, indentedFields_eq depth fields]
    rfl

theorem indentedItems_eq (depth : Nat) :
    ∀ vs : List Json, indentedItems depth vs = Layout.lines.itemsChars depth vs
  | [] => rfl
  | v :: vs => by
    rw [indentedItems, Layout.itemsChars, indentedChars_eq (depth + 1) v, indentedItems_eq depth vs]
    rfl

theorem indentedFields_eq (depth : Nat) :
    ∀ fields : List (Literal × Json),
      indentedFields depth fields = Layout.lines.fieldsChars depth fields
  | [] => rfl
  | (k, v) :: fields => by
    rw [indentedFields, Layout.fieldsChars, indentedChars_eq (depth + 1) v,
      indentedFields_eq depth fields]
    rfl

end

/-! ## White space -/

theorem skipSpace_append {g : List Char} (h : ∀ c ∈ g, isSpace c = true) (cs : List Char) :
    skipSpace (g ++ cs) = skipSpace cs :=
  List.dropWhile_append_of_pos h

theorem skipSpace_cons {c : Char} (h : isSpace c = false) (cs : List Char) :
    skipSpace (c :: cs) = c :: cs := by
  rw [skipSpace, List.dropWhile_cons, h, if_neg (by decide)]

theorem value_skip {g : List Char} (h : ∀ c ∈ g, isSpace c = true) (bound : Nat) (cs : List Char) :
    value bound (g ++ cs) = value bound cs := by
  cases bound with
  | zero => rfl
  | succ bound => rw [value, value, skipSpace_append h]

/-! ## Strings -/

theorem hexValue?_hexDigit {n : Nat} (h : n < 16) : hexValue? (hexDigit n) = some n := by
  have hall : ∀ n < 16, hexValue? (hexDigit n) = some n := by decide
  exact hall n h

/-- The escape by number of a control character names it. -/
theorem hex4?_control {n : Nat} (h : n < 0x20) :
    hex4? '0' '0' (hexDigit (n / 16)) (hexDigit (n % 16)) = some n := by
  have hzero : hexValue? '0' = some 0 := rfl
  rw [hex4?, hzero, hexValue?_hexDigit (by omega), hexValue?_hexDigit (Nat.mod_lt _ (by decide))]
  simp only [Option.bind_eq_bind, Option.bind_some, Option.pure_def, Option.some.injEq]
  omega

/-- The escape of a character is read as that character. -/
theorem pieces_escape (c : Char) (cs : List Char) :
    pieces (escape c ++ cs) = (pieces cs).map fun p => (.char c :: p.1, p.2) := by
  unfold escape
  split_ifs with hquote hslash hb hf hn hr ht hcontrol
  · subst hquote; rfl
  · subst hslash; rfl
  · subst hb; rfl
  · subst hf; rfl
  · subst hn; rfl
  · subst hr; rfl
  · subst ht; rfl
  · have hcode : Piece.ofCode c.toNat = .char c := by
      rw [Piece.ofCode, if_neg (by omega), if_neg (by omega), Char.ofNat_toNat]
    simp only [List.cons_append, List.nil_append]
    rw [pieces, hex4?_control hcontrol]
    simp only [hcode]
  · have hplain : ¬ (c.toNat < 0x20 ∨ c = '\\') := not_or.2 ⟨hcontrol, hslash⟩
    rw [List.singleton_append, pieces.eq_def]
    split
    case h_5 heq => cases heq; rw [if_neg hplain]
    all_goals simp_all

theorem pieces_flatMap_escape (cs rest : List Char) :
    pieces (cs.flatMap escape ++ '"' :: rest) = some (cs.map .char, rest) := by
  induction cs with
  | nil => rfl
  | cons c cs ih =>
    rw [List.flatMap_cons, List.append_assoc, pieces_escape, ih]
    rfl

theorem joinPieces_map_char (cs : List Char) : joinPieces (cs.map .char) = some cs := by
  induction cs with
  | nil => rfl
  | cons c cs ih => rw [List.map_cons, joinPieces, ih, Option.map_some]

/-- A string literal is read as what it stands for. -/
theorem literal_quote (l : Literal) (rest : List Char) :
    ∃ body, quote l = '"' :: body ∧ literal (body ++ rest) = some (l, rest) := by
  cases l with
  | text s =>
    refine ⟨s.toList.flatMap escape ++ ['"'], rfl, ?_⟩
    have htext : Literal.ofPieces (s.toList.map .char) = .text s := by
      simp only [Literal.ofPieces, joinPieces_map_char, String.ofList_toList]
    rw [literal, List.append_assoc, List.singleton_append, pieces_flatMap_escape, Option.map_some]
    simp only [htext]
  | unpaired => exact ⟨_, rfl, rfl⟩

/-! ## Numbers -/

/-- No number goes on with this text. -/
def EndsNumber (cs : List Char) : Prop :=
  ∀ c ∈ cs.head?, isDigit c = false ∧ c ≠ '.' ∧ c ≠ 'e' ∧ c ≠ 'E'

theorem endsNumber_nil : EndsNumber [] := fun _ h => nomatch h

theorem endsNumber_cons {c : Char} (h : isDigit c = false ∧ c ≠ '.' ∧ c ≠ 'e' ∧ c ≠ 'E')
    (cs : List Char) : EndsNumber (c :: cs) := by
  intro d hd
  cases hd
  exact h

/-- A number ends before white space and before a character that ends it. -/
theorem endsNumber_append {g : List Char} (hg : ∀ c ∈ g, isSpace c = true) {cs : List Char}
    (h : EndsNumber cs) : EndsNumber (g ++ cs) := by
  cases g with
  | nil => exact h
  | cons c g =>
    have hc := hg c List.mem_cons_self
    simp only [isSpace, Bool.or_eq_true, beq_iff_eq] at hc
    refine endsNumber_cons ?_ _
    rcases hc with ((rfl | rfl) | rfl) | rfl <;> decide

theorem isDigit_of_mem_toDigits {n : Nat} {c : Char} (h : c ∈ Nat.toDigits 10 n) :
    isDigit c = true := by
  have hc := Nat.isDigit_of_mem_toDigits (by decide) (by decide) h
  simpa [Char.isDigit, isDigit, Char.le_def] using hc

/-- Only zero has a leading zero. -/
theorem head?_toDigits {n : Nat} (h : 0 < n) : (Nat.toDigits 10 n).head? ≠ some '0' := by
  induction n using Nat.strongRecOn with
  | ind n ih =>
    rcases Nat.lt_or_ge n 10 with hlt | hge
    · rw [Nat.toDigits_of_lt_base hlt, List.head?_cons, Ne, Option.some.injEq,
        Nat.digitChar_eq_zero]
      omega
    · rw [Nat.toDigits_of_base_le (by decide) hge,
        List.head?_append_of_ne_nil _ Nat.toDigits_ne_nil]
      exact ih (n / 10) (by omega) (by omega)

theorem takeWhile_digits {ds rest : List Char} (hds : ∀ c ∈ ds, isDigit c = true)
    (hrest : EndsNumber rest) :
    (ds ++ rest).takeWhile isDigit = ds ∧ (ds ++ rest).dropWhile isDigit = rest := by
  rw [List.takeWhile_append_of_pos hds, List.dropWhile_append_of_pos hds]
  cases rest with
  | nil => exact ⟨List.append_nil ds, rfl⟩
  | cons c rest =>
    have hc : isDigit c = false := (hrest c rfl).1
    simp [hc]

/-- The digits of a number are read as that number. -/
theorem wholeNumber_toDigits (n : Nat) {rest : List Char} (h : EndsNumber rest) :
    wholeNumber (Nat.toDigits 10 n ++ rest) = some (n, rest) := by
  rcases Nat.eq_zero_or_pos n with rfl | hn
  · rw [Nat.toDigits_zero, List.singleton_append, wholeNumber]
    cases rest with
    | nil => rfl
    | cons c rest =>
      have hc : isDigit c = false := (h c rfl).1
      simp [hc]
  · have hne : (Nat.toDigits 10 n).isEmpty = false := by
      rw [List.isEmpty_eq_false_iff]
      exact Nat.toDigits_ne_nil
    obtain ⟨htake, hdrop⟩ := takeWhile_digits (fun c => isDigit_of_mem_toDigits (n := n)) h
    rw [wholeNumber.eq_def]
    split
    · rename_i cs heq
      refine absurd ?_ (head?_toDigits hn)
      rw [← List.head?_append_of_ne_nil _ Nat.toDigits_ne_nil, heq]
      rfl
    · rw [htake, hdrop, hne, if_neg (by decide), digitsToNat]
      exact congrArg (fun k => some (k, rest)) (Nat.ofDigitChars_toDigits (by decide) (by decide))

/-- A part that the text after a number does not begin is not there. -/
theorem optionalDigits_of_not {opens : Char → Bool} {rest : List Char}
    (h : ∀ c ∈ rest.head?, opens c = false) (signed : Bool) :
    optionalDigits opens signed rest = some (false, rest) := by
  cases rest with
  | nil => rfl
  | cons c rest => rw [optionalDigits, h c rfl, if_neg (by decide)]

theorem EndsNumber.fraction {rest : List Char} (h : EndsNumber rest) :
    optionalDigits (· == '.') false rest = some (false, rest) :=
  optionalDigits_of_not (fun c hc => beq_eq_false_iff_ne.2 (h c hc).2.1) false

theorem EndsNumber.exponent {rest : List Char} (h : EndsNumber rest) :
    optionalDigits (fun c => c == 'e' || c == 'E') true rest = some (false, rest) := by
  refine optionalDigits_of_not (fun c hc => ?_) true
  rw [Bool.or_eq_false_iff]
  exact ⟨beq_eq_false_iff_ne.2 (h c hc).2.2.1, beq_eq_false_iff_ne.2 (h c hc).2.2.2⟩

theorem number_toDigits (n : Nat) {rest : List Char} (h : EndsNumber rest) :
    number (Nat.toDigits 10 n ++ rest) = some (.nat n, rest) := by
  have hsign : ((Nat.toDigits 10 n ++ rest).head? == some '-') = false := by
    rw [List.head?_append_of_ne_nil _ Nat.toDigits_ne_nil, beq_eq_false_iff_ne]
    intro hminus
    have hdigit := isDigit_of_mem_toDigits (List.mem_of_head? hminus)
    exact absurd hdigit (by decide)
  simp only [number, hsign, Bool.false_eq_true, if_false, wholeNumber_toDigits n h, h.fraction,
    h.exponent, Option.bind_eq_bind, Option.bind_some, Bool.or_self, Option.pure_def]

theorem number_minus {rest : List Char} (h : EndsNumber rest) :
    number ('-' :: '1' :: rest) = some (.otherNumber, rest) := by
  have hwhole : wholeNumber ('1' :: rest) = some (1, rest) := wholeNumber_toDigits 1 h
  have hsign : (('-' :: '1' :: rest).head? == some '-') = true := rfl
  simp only [number, hsign, if_true, List.tail_cons, hwhole, h.fraction, h.exponent,
    Option.bind_eq_bind, Option.bind_some, Bool.true_or, Option.pure_def]

theorem isSpace_of_isDigit {c : Char} (h : isDigit c = true) : isSpace c = false := by
  cases hs : isSpace c with
  | false => rfl
  | true =>
    simp only [isSpace, Bool.or_eq_true, beq_iff_eq] at hs
    rcases hs with ((rfl | rfl) | rfl) | rfl <;> exact absurd h (by decide)

/-- A text that begins like a number is read as one. -/
theorem value_of_number {c : Char} (h : isDigit c = true ∨ c = '-') (bound : Nat) (cs : List Char) :
    value (bound + 1) (c :: cs) = number (c :: cs) := by
  have hspace : isSpace c = false := by
    rcases h with h | rfl
    · exact isSpace_of_isDigit h
    · rfl
  rw [value, skipSpace_cons hspace]
  split
  case h_7 => rfl
  all_goals
    rename_i heq
    cases heq
    simp [isDigit] at h

/-! ## Values -/

namespace Layout

variable {L : Layout}

/-- A printed value begins with a character that is neither white space nor the end of an array. -/
theorem head_chars (L : Layout) (depth : Nat) (v : Json) :
    ∃ c cs, L.chars depth v = c :: cs ∧ isSpace c = false ∧ c ≠ ']' := by
  cases v with
  | null => exact ⟨_, _, rfl, rfl, by decide⟩
  | bool b => cases b <;> exact ⟨_, _, rfl, rfl, by decide⟩
  | nat n =>
    cases hcs : Nat.toDigits 10 n with
    | nil => exact absurd hcs Nat.toDigits_ne_nil
    | cons c cs =>
      have hc : isDigit c = true := isDigit_of_mem_toDigits (n := n) (hcs ▸ List.mem_cons_self)
      exact ⟨c, cs, hcs, isSpace_of_isDigit hc, fun h => absurd (h ▸ hc) (by decide)⟩
  | otherNumber => exact ⟨_, _, rfl, rfl, by decide⟩
  | string s => cases s <;> exact ⟨_, _, rfl, rfl, by decide⟩
  | array vs => cases vs <;> exact ⟨_, _, rfl, rfl, by decide⟩
  | object fs => rcases fs with _ | ⟨⟨k, v⟩, fs⟩ <;> exact ⟨_, _, rfl, rfl, by decide⟩

theorem length_chars_pos (L : Layout) (depth : Nat) (v : Json) : 0 < (L.chars depth v).length := by
  obtain ⟨c, cs, hcs, -⟩ := L.head_chars depth v
  rw [hcs]
  exact Nat.succ_pos _

/-- A value is read back in this layout, whatever follows it, with any bound on the nesting that is not
below the length of its text. -/
def Reads (L : Layout) (v : Json) : Prop :=
  ∀ depth bound rest, (L.chars depth v).length ≤ bound → EndsNumber rest →
    value bound (L.chars depth v ++ rest) = some (v, rest)

theorem reads_of_succ {v : Json} (h : ∀ depth bound rest, (L.chars depth v).length ≤ bound + 1 →
    EndsNumber rest → value (bound + 1) (L.chars depth v ++ rest) = some (v, rest)) : L.Reads v := by
  intro depth bound rest hbound
  have hpos := L.length_chars_pos depth v
  obtain ⟨bound, rfl⟩ : ∃ b, bound = b + 1 := ⟨bound - 1, by omega⟩
  exact h depth bound rest hbound

/-- Reading a value in front of more text leaves a smaller bound for what comes after it. -/
theorem Reads.step {v : Json} (hv : L.Reads v) {depth bound : Nat} {tail rest : List Char}
    (hends : EndsNumber (tail ++ rest)) (htail : 0 < tail.length)
    (hbound : (L.chars depth v).length + tail.length ≤ bound) :
    ∃ b, bound = b + 1 ∧
      value b (L.chars depth v ++ (tail ++ rest)) = some (v, tail ++ rest) :=
  ⟨bound - 1, by omega, hv depth (bound - 1) (tail ++ rest) (by omega) hends⟩

theorem reads_nat (n : Nat) : L.Reads (.nat n) := by
  refine reads_of_succ fun depth bound rest _ hrest => ?_
  have hnumber := number_toDigits n hrest
  rw [chars]
  cases hcs : Nat.toDigits 10 n with
  | nil => exact absurd hcs Nat.toDigits_ne_nil
  | cons c cs =>
    have hc : isDigit c = true := isDigit_of_mem_toDigits (n := n) (hcs ▸ List.mem_cons_self)
    rw [hcs] at hnumber
    rw [List.cons_append, value_of_number (.inl hc)]
    exact hnumber

theorem reads_string (s : Literal) : L.Reads (.string s) := by
  refine reads_of_succ fun depth bound rest _ _ => ?_
  obtain ⟨body, hbody, hread⟩ := literal_quote s rest
  rw [chars, hbody, List.cons_append, value, skipSpace_cons rfl]
  simp only [hread, Option.map_some]

/-! ### Arrays -/

theorem endsNumber_itemsChars (depth : Nat) (vs : List Json) (rest : List Char) :
    EndsNumber (L.itemsChars depth vs ++ rest) := by
  cases vs with
  | nil =>
    rw [itemsChars, List.append_assoc]
    exact endsNumber_append (L.isSpace_line depth) (endsNumber_cons (by decide) rest)
  | cons v vs => exact endsNumber_cons (by decide) _

theorem length_itemsChars_pos (depth : Nat) (vs : List Json) :
    0 < (L.itemsChars depth vs).length := by
  cases vs <;> simp [itemsChars]

theorem items_skip {g : List Char} (h : ∀ c ∈ g, isSpace c = true) (bound : Nat) (cs : List Char) :
    items bound (g ++ cs) = items bound cs := by
  cases bound with
  | zero => rfl
  | succ bound => rw [items, items, value_skip h]

/-- The items of a printed array are read back one by one. -/
theorem items_itemsChars {vs : List Json} (hvs : ∀ w ∈ vs, L.Reads w) {v : Json} (hv : L.Reads v)
    {depth bound : Nat} (rest : List Char)
    (hbound : (L.chars (depth + 1) v).length + (L.itemsChars depth vs).length ≤ bound) :
    items bound (L.chars (depth + 1) v ++ (L.itemsChars depth vs ++ rest)) =
      some (v :: vs, rest) := by
  induction vs generalizing v bound with
  | nil =>
    obtain ⟨bound, rfl, hread⟩ := hv.step (endsNumber_itemsChars depth [] rest)
      (length_itemsChars_pos depth []) hbound
    rw [items, hread, itemsChars, List.append_assoc]
    simp only [skipSpace_append (L.isSpace_line depth), List.singleton_append,
      skipSpace_cons (show isSpace ']' = false from rfl)]
  | cons w ws ih =>
    obtain ⟨bound, rfl, hread⟩ := hv.step (endsNumber_itemsChars depth (w :: ws) rest)
      (length_itemsChars_pos depth (w :: ws)) hbound
    rw [List.forall_mem_cons] at hvs
    have hfits : (L.chars (depth + 1) w).length + (L.itemsChars depth ws).length ≤ bound := by
      simp only [itemsChars, List.length_cons, List.length_append] at hbound
      omega
    have hrest := ih hvs.2 hvs.1 hfits
    rw [items, hread, itemsChars]
    simp only [List.cons_append, List.append_assoc, skipSpace_cons (show isSpace ',' = false from rfl),
      items_skip (L.isSpace_line (depth + 1)), hrest, Option.map_some]

theorem reads_array {vs : List Json} (hvs : ∀ w ∈ vs, L.Reads w) : L.Reads (.array vs) := by
  refine reads_of_succ fun depth bound rest hbound _ => ?_
  cases vs with
  | nil => rfl
  | cons v vs =>
    rw [List.forall_mem_cons] at hvs
    have hfits : (L.chars (depth + 1) v).length + (L.itemsChars depth vs).length ≤ bound := by
      simp only [chars, List.length_cons, List.length_append] at hbound
      omega
    have hitems := items_itemsChars hvs.2 hvs.1 rest hfits
    obtain ⟨c, cs, hcs, hspace, hc⟩ := L.head_chars (depth + 1) v
    rw [chars, List.cons_append, value, skipSpace_cons rfl]
    simp only [List.append_assoc, skipSpace_append (L.isSpace_line (depth + 1)),
      items_skip (L.isSpace_line (depth + 1)), hitems, Option.map_some]
    rw [hcs, List.cons_append, skipSpace_cons hspace]
    split
    · rename_i heq
      exact absurd (List.head_eq_of_cons_eq heq) hc
    · rfl

/-! ### Objects -/

theorem endsNumber_fieldsChars (depth : Nat) (fs : List (Literal × Json)) (rest : List Char) :
    EndsNumber (L.fieldsChars depth fs ++ rest) := by
  rcases fs with _ | ⟨⟨k, v⟩, fs⟩
  · rw [fieldsChars, List.append_assoc]
    exact endsNumber_append (L.isSpace_line depth) (endsNumber_cons (by decide) rest)
  · exact endsNumber_cons (by decide) _

theorem length_fieldsChars_pos (depth : Nat) (fs : List (Literal × Json)) :
    0 < (L.fieldsChars depth fs).length := by
  rcases fs with _ | ⟨⟨k, v⟩, fs⟩ <;> simp [fieldsChars]

theorem fields_skip {g : List Char} (h : ∀ c ∈ g, isSpace c = true) (bound : Nat) (cs : List Char) :
    fields bound (g ++ cs) = fields bound cs := by
  cases bound with
  | zero => rfl
  | succ bound => rw [fields, fields, skipSpace_append h]

/-- What is read after a key and its value: further fields behind a comma, or the end of the object. -/
def fieldsAfter (bound : Nat) (k : Literal) (v : Json) (cs : List Char) :
    Option (List (Literal × Json) × List Char) :=
  match skipSpace cs with
  | ',' :: r => (fields bound r).map fun (fs, r) => ((k, v) :: fs, r)
  | '\x7d' :: r => some ([(k, v)], r)
  | _ => none

/-- A key and its value are read back up to what follows them. -/
theorem fields_field {v : Json} {depth bound : Nat} {tail : List Char}
    (hread : value bound (L.chars (depth + 1) v ++ tail) = some (v, tail)) (k : Literal) :
    fields (bound + 1) (quote k ++ ':' :: (L.gap ++ (L.chars (depth + 1) v ++ tail))) =
      fieldsAfter bound k v tail := by
  obtain ⟨body, hbody, hliteral⟩ :=
    literal_quote k (':' :: (L.gap ++ (L.chars (depth + 1) v ++ tail)))
  rw [hbody, List.cons_append, fields, skipSpace_cons rfl]
  simp only [hliteral, skipSpace_cons (show isSpace ':' = false from rfl), value_skip L.isSpace_gap,
    hread]
  rfl

/-- The fields of a printed object are read back one by one. -/
theorem fields_fieldsChars {fs : List (Literal × Json)} (hfs : ∀ f ∈ fs, L.Reads f.2) {v : Json}
    (hv : L.Reads v) {depth bound : Nat} (k : Literal) (rest : List Char)
    (hbound : (L.chars (depth + 1) v).length + (L.fieldsChars depth fs).length ≤ bound) :
    fields bound (quote k ++ ':' :: (L.gap ++
        (L.chars (depth + 1) v ++ (L.fieldsChars depth fs ++ rest)))) =
      some ((k, v) :: fs, rest) := by
  induction fs generalizing k v bound with
  | nil =>
    obtain ⟨bound, rfl, hread⟩ := hv.step (endsNumber_fieldsChars depth [] rest)
      (length_fieldsChars_pos depth []) hbound
    rw [fields_field hread, fieldsAfter, fieldsChars, List.append_assoc]
    simp only [skipSpace_append (L.isSpace_line depth), List.singleton_append,
      skipSpace_cons (show isSpace '\x7d' = false from rfl)]
  | cons f fs ih =>
    obtain ⟨l, w⟩ := f
    obtain ⟨bound, rfl, hread⟩ := hv.step (endsNumber_fieldsChars depth ((l, w) :: fs) rest)
      (length_fieldsChars_pos depth ((l, w) :: fs)) hbound
    obtain ⟨hw, hfs⟩ : L.Reads w ∧ ∀ f ∈ fs, L.Reads f.2 := List.forall_mem_cons.1 hfs
    have hfits : (L.chars (depth + 1) w).length + (L.fieldsChars depth fs).length ≤ bound := by
      simp only [fieldsChars, List.length_cons, List.length_append] at hbound
      omega
    have hrest := ih hfs hw l hfits
    rw [fields_field hread, fieldsAfter, fieldsChars]
    simp only [List.cons_append, List.append_assoc, skipSpace_cons (show isSpace ',' = false from rfl),
      fields_skip (L.isSpace_line (depth + 1)), hrest, Option.map_some]

theorem reads_object {fs : List (Literal × Json)} (hfs : ∀ f ∈ fs, L.Reads f.2) :
    L.Reads (.object fs) := by
  refine reads_of_succ fun depth bound rest hbound _ => ?_
  rcases fs with _ | ⟨⟨k, v⟩, fs⟩
  · rfl
  · obtain ⟨hv, hfs⟩ : L.Reads v ∧ ∀ f ∈ fs, L.Reads f.2 := List.forall_mem_cons.1 hfs
    have hfits : (L.chars (depth + 1) v).length + (L.fieldsChars depth fs).length ≤ bound := by
      simp only [chars, List.length_cons, List.length_append] at hbound
      omega
    have hfields := fields_fieldsChars hfs hv k rest hfits
    obtain ⟨body, hbody, -⟩ := literal_quote k []
    rw [chars, List.cons_append, value, skipSpace_cons rfl]
    simp only [List.append_assoc, List.cons_append, skipSpace_append (L.isSpace_line (depth + 1)),
      fields_skip (L.isSpace_line (depth + 1)), hfields, Option.map_some]
    rw [hbody, List.cons_append, skipSpace_cons rfl]
    rfl

/-! ### All values -/

/-- Every printed value is read back. -/
theorem reads (L : Layout) : ∀ v : Json, L.Reads v
  | .null => reads_of_succ fun _ _ _ _ _ => rfl
  | .bool true => reads_of_succ fun _ _ _ _ _ => rfl
  | .bool false => reads_of_succ fun _ _ _ _ _ => rfl
  | .nat n => reads_nat n
  | .otherNumber => reads_of_succ fun _ _ rest _ hrest =>
      (value_of_number (.inr rfl) _ _).trans (number_minus hrest)
  | .string s => reads_string s
  | .array vs => reads_array fun w _ => L.reads w
  | .object fs => reads_object fun f hf =>
      have hsize : sizeOf f.2 < sizeOf f := by
        obtain ⟨k, v⟩ := f
        simp only [Prod.mk.sizeOf_spec]
        omega
      have hmem : sizeOf f < sizeOf fs := List.sizeOf_lt_of_mem hf
      L.reads f.2
termination_by v => sizeOf v
decreasing_by
  · rename_i hw
    have hmem := List.sizeOf_lt_of_mem hw
    simp only [Json.array.sizeOf_spec]
    omega
  · simp only [Json.object.sizeOf_spec]
    omega

/-- A text that is one printed value is read as that value. -/
theorem read?_chars (L : Layout) (v : Json) : read? (String.ofList (L.chars 0 v)) = some v := by
  have hread := L.reads v 0 (2 * (L.chars 0 v).length + 2) [] (by omega) endsNumber_nil
  rw [List.append_nil] at hread
  rw [read?, String.toList_ofList]
  simp only [hread]
  rfl

end Layout

/-- A value printed without white space is read back. -/
theorem read?_compact (v : Json) : read? v.compact = some v := by
  rw [compact, compactChars_eq 0 v]
  exact Layout.dense.read?_chars v

/-- A value printed over several lines is read back. -/
theorem read?_indented (v : Json) : read? v.indented = some v := by
  rw [indented, indentedChars_eq 0 v]
  exact Layout.lines.read?_chars v

end SheetFormula.Json
