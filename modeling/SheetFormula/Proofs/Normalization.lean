import Mathlib.Data.List.TakeWhile
import SheetFormula.Proofs.Recording

/-!
# Normalized formulas

White space at the ends of a formula and a missing `=` at its front do not bear on its scan: a scan
depends on the normalized formula only, normalizing it again changes nothing, and its steps begin right
after the `=`. Main statements:

* `Text.trim_surrounded`: white space at the ends is trimmed, whatever stands between;
* `trim_normalize`, `normalize_normalize`: a normalized formula is trimmed and stays as it is;
* `indistinct_of_normalize_eq`: two formulas with one normalized form are scanned alike;
* `normalized_scan`: so a formula is scanned like its normalized form, and like every text that differs
  from it in white space at the ends or in a leading `=`.
-/

namespace SheetFormula

/-! ## White space at the ends of a text -/

namespace Text

variable {u v : List Char}

theorem trimRight_append (hv : ∀ c ∈ v, isBlank c = true) (cs : List Char) :
    trimRight (cs ++ v) = trimRight cs := by
  have hreverse : ∀ c ∈ v.reverse, isBlank c = true := fun c hc => hv c (List.mem_reverse.1 hc)
  rw [trimRight, List.reverse_append, List.dropWhile_append_of_pos hreverse, ← trimRight]

/-- White space at the ends is trimmed, whatever stands between. -/
theorem trim_surrounded (hu : ∀ c ∈ u, isBlank c = true) (hv : ∀ c ∈ v, isBlank c = true)
    (cs : List Char) : trim (u ++ cs ++ v) = trim cs := by
  rw [trim, trim, List.append_assoc, List.dropWhile_append_of_pos hu, List.dropWhile_append]
  split
  · rename_i hblank
    -- what stands between is white space too
    have hnone : v.dropWhile isBlank = [] := List.dropWhile_eq_nil_iff.2 hv
    rw [List.isEmpty_iff.1 hblank, hnone]
  · exact trimRight_append hv _

/-- A trimmed text does not end in white space. -/
theorem isBlank_getLast_trim {cs : List Char} {c : Char} (hc : c ∈ (trim cs).getLast?) :
    isBlank c = false := by
  rw [trim, trimRight, List.getLast?_reverse, Option.mem_def] at hc
  have hhead := List.head?_dropWhile_not isBlank (cs.dropWhile isBlank).reverse
  rw [hc] at hhead
  exact hhead

theorem trimRight_trim (cs : List Char) : trimRight (trim cs) = trim cs := trimRight_trimRight _

/-- A text that does not begin with white space is trimmed at its end only. -/
theorem trim_cons {c : Char} (hc : isBlank c = false) (cs : List Char) :
    trim (c :: cs) = c :: trimRight cs := by
  rw [trim, List.dropWhile_cons_of_neg (by simp [hc]), trimRight_cons hc]

end Text

/-! ## The normalized form -/

namespace Scan

open Text (trim trim_cons trimRight_trim trim_trim)

theorem normalize_of_trim_eq_nil {cs : List Char} (h : trim cs = []) : normalize cs = [] := by
  rw [normalize, h]

/-- A trimmed text with a leading `=` is the normalized form. -/
theorem normalize_of_trim_eq_cons {cs rest : List Char} (h : trim cs = '=' :: rest) :
    normalize cs = '=' :: rest := by
  simp only [normalize, h]

/-- Any other trimmed text gets a leading `=`. -/
theorem normalize_of_head_ne {cs : List Char} (hne : trim cs ≠ []) (hhead : (trim cs).head? ≠ some '=') :
    normalize cs = '=' :: trim cs := by
  rw [normalize]
  split
  · contradiction
  · rename_i heq
    rw [heq] at hhead
    exact absurd rfl hhead
  · rfl

/-- A normalized formula is empty or begins with `=`. -/
theorem normalize_eq_nil_or (cs : List Char) : normalize cs = [] ∨ ∃ rest, normalize cs = '=' :: rest := by
  rw [normalize]
  split
  · exact .inl rfl
  · exact .inr ⟨_, rfl⟩
  · exact .inr ⟨_, rfl⟩

/-- A normalized formula is trimmed. -/
theorem trim_normalize (cs : List Char) : trim (normalize cs) = normalize cs := by
  by_cases hne : trim cs = []
  · rw [normalize_of_trim_eq_nil hne]
    rfl
  by_cases hhead : (trim cs).head? = some '='
  · obtain ⟨rest, hrest⟩ := List.head?_eq_some_iff.1 hhead
    rw [normalize_of_trim_eq_cons hrest, ← hrest, trim_trim]
  · rw [normalize_of_head_ne hne hhead, trim_cons rfl, trimRight_trim]

/-- Normalizing a second time changes nothing. -/
theorem normalize_normalize (cs : List Char) : normalize (normalize cs) = normalize cs := by
  have htrim := trim_normalize cs
  rcases normalize_eq_nil_or cs with h | ⟨rest, h⟩
  · rw [h]
    rfl
  · rw [h] at htrim ⊢
    exact normalize_of_trim_eq_cons htrim

theorem normalize_congr {cs ds : List Char} (h : trim cs = trim ds) : normalize cs = normalize ds := by
  rw [normalize, normalize, h]

/-- The normalized form is the same with the `=` that it gets. -/
theorem normalize_equals_trim {cs : List Char} (hne : trim cs ≠ [])
    (hhead : (trim cs).head? ≠ some '=') : normalize ('=' :: trim cs) = normalize cs := by
  rw [← normalize_of_head_ne hne hhead, normalize_normalize]

end Scan

/-! ## Formulas that are scanned alike -/

open Scan

/-- No scan tells two formulas apart: analyzers with the same preferences hand on the same of both and
count the same, whatever they counted before and whatever the log is. -/
def Indistinct (f g : String) : Prop :=
  ∀ (p : ScanPreferences) (before before' : Metrics) (j j' : Log.Journal),
    let a : Analyzer := { preferences := p, metrics := before }
    let b : Analyzer := { preferences := p, metrics := before' }
    (a.scan j f).2.2 = (b.scan j' g).2.2 ∧ (a.scan j f).1.metrics = (b.scan j' g).1.metrics

variable {f g : String}

/-- A scan depends on the normalized formula only. -/
theorem scan_congr (h : normalize f.toList = normalize g.toList) :
    SheetFormula.scan f = SheetFormula.scan g := by
  rw [SheetFormula.scan, SheetFormula.scan, State.start, State.start, h]

theorem indistinct_of_normalize_eq (h : normalize f.toList = normalize g.toList) : Indistinct f g := by
  intro p before before' j j'
  simp only [Analyzer.scan_eq, scan_congr h, and_self]

theorem indistinct_of_trim_eq (h : Text.trim f.toList = Text.trim g.toList) : Indistinct f g :=
  indistinct_of_normalize_eq (normalize_congr h)

/-- The normalized formula of a scan. -/
theorem toList_formula_scan (f : String) : (SheetFormula.scan f).formula.toList = normalize f.toList := by
  rw [formula_scan, String.toList_ofList]
  rfl

/-- No step of a scan is taken at the leading `=`. -/
theorem offset_pos_of_mem_heads {s : State} (hs : s ∈ (State.start f).heads) : 0 < s.offset := by
  refine State.forall_heads (P := fun s => s.rest ≠ [] → 0 < s.offset)
    (fun t ht h _ => ?_) (fun hrest => ?_) s hs (State.rest_of_mem_heads hs)
  · exact Nat.lt_trans (h ht) (State.offset_step_lt ht)
  · have hne : (State.start f).text ≠ [] := fun hnil => hrest (congrArg (List.drop 1) hnil)
    have hoffset : (State.start f).offset = if (State.start f).text.isEmpty then 0 else 1 := rfl
    rw [hoffset, if_neg (by rwa [List.isEmpty_iff])]
    exact Nat.one_pos

/-- A formula is scanned like its normalized form, which is empty or begins with `=` and does not end in
white space. White space around a formula does not bear on its scan, and neither does the `=` that is put
in front of it; no step of the scan is taken there. -/
theorem normalized_scan (f : String) :
    ((SheetFormula.scan f).formula = "" ∨ (SheetFormula.scan f).formula.toList.head? = some '=') ∧
      (∀ c ∈ (SheetFormula.scan f).formula.toList.getLast?, Text.isBlank c = false) ∧
      Indistinct (SheetFormula.scan f).formula f ∧
      (∀ s ∈ (State.start f).heads, 0 < s.offset) ∧
      ∀ u v : String, (∀ c ∈ u.toList, Text.isBlank c = true) →
        (∀ c ∈ v.toList, Text.isBlank c = true) →
          Indistinct (u ++ f ++ v) f ∧
          (Text.trim f.toList ≠ [] → (Text.trim f.toList).head? ≠ some '=' →
            Indistinct (u ++ "=" ++ String.ofList (Text.trim f.toList) ++ v) f) := by
  have hn : (SheetFormula.scan f).formula.toList = normalize f.toList := toList_formula_scan f
  refine ⟨?_, fun c hc => ?_, ?_, fun s hs => offset_pos_of_mem_heads hs, fun u v hu hv => ⟨?_, ?_⟩⟩
  · rcases normalize_eq_nil_or f.toList with h | ⟨rest, h⟩
    · exact .inl (String.toList_eq_nil_iff.1 (hn.trans h))
    · exact .inr (by rw [hn, h, List.head?_cons])
  · rw [hn, ← trim_normalize] at hc
    exact Text.isBlank_getLast_trim hc
  · exact indistinct_of_normalize_eq (by rw [hn, normalize_normalize])
  · apply indistinct_of_trim_eq
    rw [String.toList_append, String.toList_append, Text.trim_surrounded hu hv]
  · intro hne hhead
    apply indistinct_of_normalize_eq
    rw [← normalize_equals_trim hne hhead]
    apply normalize_congr
    simp only [String.toList_append, String.toList_ofList]
    rw [List.append_assoc u.toList, Text.trim_surrounded hu hv]
    rfl

/-- A formula between an ideographic space and a line break. -/
theorem normalized_scan_spaces :
    (∀ c ∈ "\u3000".toList, Text.isBlank c = true) ∧ (∀ c ∈ "\n".toList, Text.isBlank c = true) ∧
      Text.trim " SUM(A1 B2)+1".toList ≠ [] ∧ (Text.trim " SUM(A1 B2)+1".toList).head? ≠ some '=' ∧
      Indistinct ("\u3000" ++ " SUM(A1 B2)+1" ++ "\n") " SUM(A1 B2)+1" ∧
      Indistinct
        ("\u3000" ++ "=" ++ String.ofList (Text.trim " SUM(A1 B2)+1".toList) ++ "\n")
        " SUM(A1 B2)+1" := by
  have hu : ∀ c ∈ "\u3000".toList, Text.isBlank c = true := List.all_eq_true.1 rfl
  have hv : ∀ c ∈ "\n".toList, Text.isBlank c = true := List.all_eq_true.1 rfl
  have hne : Text.trim " SUM(A1 B2)+1".toList ≠ [] := by decide
  have hhead : (Text.trim " SUM(A1 B2)+1".toList).head? ≠ some '=' := by decide
  obtain ⟨-, -, -, -, hsame⟩ := normalized_scan " SUM(A1 B2)+1"
  obtain ⟨hspaces, hequals⟩ := hsame "\u3000" "\n" hu hv
  exact ⟨hu, hv, hne, hhead, hspaces, hequals hne hhead⟩

end SheetFormula
