/-!
# White space

The characters with the Unicode property `White_Space`, and the removal of such characters from the
two ends of a text. Main statements:

* `isBlank_of_isWhitespace`: every character that the core library calls white space is blank;
* `trim_trim`: a trimmed text has nothing left to trim.
-/

namespace SheetFormula.Text

/-- A character of the Unicode property `White_Space`. -/
def isBlank (c : Char) : Bool :=
  let n := c.toNat
  (0x09 ≤ n && n ≤ 0x0D) || n == 0x20 || n == 0x85 || n == 0xA0 || n == 0x1680
    || (0x2000 ≤ n && n ≤ 0x200A) || n == 0x2028 || n == 0x2029 || n == 0x202F || n == 0x205F
    || n == 0x3000

/-- The text without the white space at its end. -/
def trimRight (cs : List Char) : List Char :=
  (cs.reverse.dropWhile isBlank).reverse

/-- The text without the white space at either end. -/
def trim (cs : List Char) : List Char :=
  trimRight (cs.dropWhile isBlank)

theorem isBlank_of_isWhitespace {c : Char} (h : c.isWhitespace = true) : isBlank c = true := by
  simp only [Char.isWhitespace, Bool.or_eq_true, decide_eq_true_eq] at h
  rcases h with ((rfl | rfl) | rfl) | rfl <;> decide

@[simp] theorem trimRight_nil : trimRight [] = [] := rfl

/-- A last character that is not blank stays, with all before it. -/
theorem trimRight_append_singleton {cs : List Char} {c : Char} (h : isBlank c = false) :
    trimRight (cs ++ [c]) = cs ++ [c] := by
  simp [trimRight, h]

theorem trimRight_trimRight (cs : List Char) : trimRight (trimRight cs) = trimRight cs := by
  simp only [trimRight, List.reverse_reverse]
  congr 1
  generalize cs.reverse = ds
  induction ds with
  | nil => rfl
  | cons d ds ih =>
    by_cases h : isBlank d = true
    · simpa [h] using ih
    · simp [h]

/-- Trimming on the right keeps a first character that is not blank. -/
theorem trimRight_cons {c : Char} (h : isBlank c = false) (cs : List Char) :
    trimRight (c :: cs) = c :: trimRight cs := by
  simp only [trimRight, List.reverse_cons]
  generalize cs.reverse = ds
  induction ds with
  | nil => simp [h]
  | cons d ds ih =>
    by_cases hd : isBlank d = true
    · simpa [hd] using ih
    · simp [hd]

theorem trim_trim (cs : List Char) : trim (trim cs) = trim cs := by
  unfold trim
  generalize hd : cs.dropWhile isBlank = ds
  cases ds with
  | nil => rfl
  | cons d ds =>
    have h : isBlank d = false := by
      have := List.head_dropWhile_not isBlank (l := cs) (by simp [hd])
      simpa [hd] using this
    rw [trimRight_cons h, List.dropWhile_cons_of_neg (by simp [h]), trimRight_cons h,
      trimRight_trimRight]

end SheetFormula.Text
