import Mathlib.Algebra.Ring.Nat
import Mathlib.Data.List.Basic
import SheetFormula.SortedMap

/-!
# Histograms

A map of counts is a histogram of some texts if each of the texts has its number of occurrences and no
other text has an entry (`SortedMap.Counts`). Main statements:

* `Counts.increment`: counting one more text gives a histogram with that text added;
* `Counts.total`: the counts of a histogram sum to the number of the texts;
* `Counts.eq_empty`: only the empty map is a histogram of no texts.
-/

namespace SheetFormula.SortedMap

/-- The map is the histogram of some texts. -/
def Counts (m : SortedMap Nat) (keys : List String) : Prop :=
  ∀ key, m.get? key = if key ∈ keys then some (keys.count key) else none

/-- The sum of the counts. -/
def total (m : SortedMap Nat) : Nat := (m.entries.map Prod.snd).sum

variable {m : SortedMap Nat} {keys : List String}

theorem counts_empty : (empty : SortedMap Nat).Counts [] := fun _ => rfl

/-- In a histogram the count of a text, zero if it has no entry, is its number of occurrences. -/
theorem Counts.getD (h : m.Counts keys) (key : String) : (m.get? key).getD 0 = keys.count key := by
  rw [h key]
  split
  · rfl
  · exact (List.count_eq_zero_of_not_mem ‹_›).symm

/-- Counting one more text. -/
theorem Counts.increment (h : m.Counts keys) (key : String) :
    (m.increment key).Counts (keys ++ [key]) := by
  intro other
  rw [SortedMap.increment, h.getD, List.count_append]
  by_cases heq : other = key
  · subst heq
    simp
  · rw [get?_insert_of_ne m heq, h other]
    simp [heq, Ne.symm heq]

/-- The entries of a list by a key are those of the rest, but for the first. -/
theorem lookup_tail {k : String} {v : Nat} {l : List (String × Nat)}
    (h : ((k, v) :: l).Pairwise fun a b => a.1 < b.1) (key : String) :
    l.lookup key = if key = k then none else ((k, v) :: l).lookup key := by
  split
  · rename_i heq
    subst heq
    rw [List.lookup_eq_none_iff]
    intro e he
    exact bne_iff_ne.2 (String.ne_of_lt ((List.pairwise_cons.1 h).1 e he))
  · rename_i hne
    rw [List.lookup_cons, beq_eq_false_iff_ne.2 hne]

/-- The sum of sorted entries that count some texts. -/
theorem sum_of_lookup {l : List (String × Nat)} (hl : l.Pairwise fun a b => a.1 < b.1)
    (h : ∀ key, l.lookup key = if key ∈ keys then some (keys.count key) else none) :
    (l.map Prod.snd).sum = keys.length := by
  induction l generalizing keys with
  | nil =>
    cases keys with
    | nil => rfl
    | cons k _ => simpa using h k
  | cons e l ih =>
    obtain ⟨k, v⟩ := e
    -- the first entry counts its own key, and the rest counts the texts other than that
    have hrest : ∀ key, l.lookup key =
        if key ∈ keys.filter (· ≠ k) then some ((keys.filter (· ≠ k)).count key) else none := by
      intro key
      rw [lookup_tail hl, h key]
      by_cases heq : key = k
      · simp [heq]
      · simp [heq, List.count_filter]
    have hfirst : v = keys.count k := by
      have hk := h k
      rw [List.lookup_cons_self] at hk
      split at hk
      · exact Option.some.inj hk
      · cases hk
    have hcount : keys.count k + (keys.filter (· ≠ k)).length = keys.length := by
      rw [List.length_eq_length_filter_add (· = k) (l := keys), List.count_eq_length_filter]
      simp [beq_eq_decide]
    rw [List.map_cons, List.sum_cons, ih (List.pairwise_cons.1 hl).2 hrest, hfirst, hcount]

/-- The counts of a histogram sum to the number of the texts. -/
theorem Counts.total (h : m.Counts keys) : m.total = keys.length := sum_of_lookup m.sorted h

/-- Nothing is counted in a histogram of no texts. -/
theorem Counts.eq_empty (h : m.Counts []) : m = empty := by
  obtain ⟨l, hl⟩ := m
  cases l with
  | nil => rfl
  | cons e l =>
    have hlookup := h e.1
    rw [get?, List.lookup_cons_self] at hlookup
    cases hlookup

end SheetFormula.SortedMap
