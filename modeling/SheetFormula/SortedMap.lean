/-!
# Maps sorted by key

A finite map from texts to values, kept as a list of entries whose keys strictly increase in the order
by code points. The order is part of the type, so two maps with the same entries are equal. Main
statements:

* `get?_insert_self`, `get?_insert_of_ne`: the last write to a key wins and no other key is touched;
* `SortedMap.ext`: a map is its list of entries.
-/

namespace SheetFormula

/-- A finite map from texts to values, its entries in increasing order of their keys. -/
structure SortedMap (α : Type) where
  /-- The entries, by increasing key. -/
  entries : List (String × α) := []
  sorted : entries.Pairwise (fun a b => a.1 < b.1) := by exact .nil
deriving DecidableEq

namespace SortedMap

variable {α : Type}

@[ext] theorem ext {m n : SortedMap α} (h : m.entries = n.entries) : m = n := by
  cases m; cases n; simp_all

instance : Inhabited (SortedMap α) := ⟨{}⟩

instance [Repr α] : Repr (SortedMap α) := ⟨fun m => reprPrec m.entries⟩

/-- The map without entries. -/
def empty : SortedMap α := {}

/-- Puts an entry into a sorted list, in place of one with the same key. -/
def insertEntry (key : String) (value : α) : List (String × α) → List (String × α)
  | [] => [(key, value)]
  | (k, v) :: rest =>
    if key < k then (key, value) :: (k, v) :: rest
    else if key = k then (key, value) :: rest
    else (k, v) :: insertEntry key value rest

theorem mem_insertEntry {key : String} {value : α} {e : String × α} {l : List (String × α)}
    (h : e ∈ insertEntry key value l) : e = (key, value) ∨ e ∈ l := by
  induction l with
  | nil => simpa [insertEntry] using h
  | cons d l ih =>
    obtain ⟨k, v⟩ := d
    rw [insertEntry] at h
    split at h
    · simpa using h
    · split at h
      · rcases List.mem_cons.1 h with h | h
        · exact .inl h
        · exact .inr (.tail _ h)
      · rcases List.mem_cons.1 h with h | h
        · exact .inr (h ▸ .head _)
        · exact (ih h).imp id (.tail _)

theorem sorted_insertEntry (key : String) (value : α) {l : List (String × α)}
    (h : l.Pairwise (fun a b => a.1 < b.1)) :
    (insertEntry key value l).Pairwise (fun a b => a.1 < b.1) := by
  induction l with
  | nil => simp [insertEntry]
  | cons d l ih =>
    obtain ⟨k, v⟩ := d
    obtain ⟨hd, hl⟩ := List.pairwise_cons.1 h
    rw [insertEntry]
    split
    · rename_i hlt
      refine List.pairwise_cons.2 ⟨fun e he => ?_, h⟩
      rcases List.mem_cons.1 he with rfl | he
      · exact hlt
      · exact String.lt_trans hlt (hd e he)
    · rename_i hlt
      split
      · rename_i heq
        subst heq
        exact List.pairwise_cons.2 ⟨hd, hl⟩
      · rename_i hne
        refine List.pairwise_cons.2 ⟨fun e he => ?_, ih hl⟩
        rcases mem_insertEntry he with rfl | he
        · grind
        · exact hd e he

/-- Gives `key` the value `value`; a value that it had before is lost. -/
def insert (m : SortedMap α) (key : String) (value : α) : SortedMap α :=
  ⟨insertEntry key value m.entries, sorted_insertEntry key value m.sorted⟩

/-- The value of a key, if it has one. -/
def get? (m : SortedMap α) (key : String) : Option α :=
  m.entries.lookup key

/-- Gives the key of each pair its value, in order, so that of two equal keys the later wins. -/
def insertAll (m : SortedMap α) (pairs : List (String × α)) : SortedMap α :=
  pairs.foldl (fun m p => m.insert p.1 p.2) m

/-- The map made from pairs, of two equal keys the later winning. -/
def ofList (pairs : List (String × α)) : SortedMap α := empty.insertAll pairs

/-- Whether the map has no entry. -/
def isEmpty (m : SortedMap α) : Bool := m.entries.isEmpty

/-- Adds one to the count of a key, which starts at zero. -/
def increment (m : SortedMap Nat) (key : String) : SortedMap Nat :=
  m.insert key ((m.get? key).getD 0 + 1)

@[simp] theorem get?_empty (key : String) : (empty : SortedMap α).get? key = none := rfl

theorem lookup_insertEntry_self (key : String) (value : α) (l : List (String × α)) :
    (insertEntry key value l).lookup key = some value := by
  induction l with
  | nil => simp [insertEntry]
  | cons d l ih =>
    obtain ⟨k, v⟩ := d
    rw [insertEntry]
    split
    · simp
    · split
      · simp
      · rename_i hne
        rw [List.lookup_cons, beq_eq_false_iff_ne.2 hne]
        exact ih

theorem lookup_insertEntry_of_ne {key other : String} (h : other ≠ key) (value : α)
    (l : List (String × α)) : (insertEntry key value l).lookup other = l.lookup other := by
  have hb : (other == key) = false := beq_eq_false_iff_ne.2 h
  induction l with
  | nil => simp only [insertEntry, List.lookup_cons, hb]
  | cons d l ih =>
    obtain ⟨k, v⟩ := d
    rw [insertEntry]
    split
    · rw [List.lookup_cons, hb]
    · split
      · rename_i heq
        subst heq
        simp only [List.lookup_cons, hb]
      · simp only [List.lookup_cons, ih]

@[simp] theorem get?_insert_self (m : SortedMap α) (key : String) (value : α) :
    (m.insert key value).get? key = some value :=
  lookup_insertEntry_self key value m.entries

theorem get?_insert_of_ne (m : SortedMap α) {key other : String} (h : other ≠ key) (value : α) :
    (m.insert key value).get? other = m.get? other :=
  lookup_insertEntry_of_ne h value m.entries

end SortedMap

end SheetFormula
