import Mathlib.Data.List.Basic
import SheetFormula.Stream.Classes

/-!
# The cursor of a token list

A token list is held in two parts, with the cursor between them. Seen from outside it is its items and
the index of the cursor, which is none before the first item (`TokenList.indexed`); every edit and every
query has its rule in terms of the index (`Indexed.edit`). Main statements:

* `TokenList.indexed_edit`, `TokenList.indexed_edits`: an edit, and any sequence of edits, does to the
  items and the index what its rule says;
* `TokenList.current?_eq`, `TokenList.next?_eq`, `TokenList.previous?_eq`: the items around the cursor by
  their indices;
* `TokenList.atStart_eq`, `TokenList.atEnd_eq`: the ends of the list by the index;
* `TokenList.journey_reset`: the moves from before the first item visit all items, in order;
* `TokenList.cursor_laws`: what holds of the cursor after any edits.
-/

namespace SheetFormula

namespace TokenList

/-- A change of a token list or of its cursor. -/
inductive Edit where
  /-- An item is added at the end. -/
  | add (t : Token)
  /-- The cursor is put before the first item. -/
  | reset
  /-- The cursor is moved to the next item, if there is one. -/
  | moveNext
  /-- The item under the cursor is replaced, if there is one. -/
  | setCurrent (t : Token)

/-- The list after an edit. -/
def edit (l : TokenList) : Edit → TokenList
  | .add t => l.add t
  | .reset => l.reset
  | .moveNext => l.moveNext?.getD l
  | .setCurrent t => (l.setCurrent? t).getD l

/-- The list after some edits. -/
def edits (l : TokenList) (es : List Edit) : TokenList := es.foldl edit l

/-- The items of a list and the index of the cursor among them; there is none before the first item. -/
structure Indexed where
  items : List Token
  index : Option Nat

namespace Indexed

/-- The index after that of the cursor. -/
def nextIndex (v : Indexed) : Nat := v.index.elim 0 (· + 1)

/-- What an edit does to the items and the index. -/
def edit (v : Indexed) : Edit → Indexed
  | .add t => { v with items := v.items ++ [t] }
  | .reset => { v with index := none }
  | .moveNext => if v.nextIndex < v.items.length then { v with index := some v.nextIndex } else v
  | .setCurrent t => { v with items := v.index.elim v.items fun i => v.items.set i t }

end Indexed

/-- The list seen as its items and the index of the cursor. -/
def indexed (l : TokenList) : Indexed := ⟨l.toList, l.position?⟩

variable (l : TokenList)

/-! ## The index and the two parts of a list -/

@[simp] theorem nextIndex_indexed : l.indexed.nextIndex = l.visited.length := by
  unfold indexed Indexed.nextIndex position?
  cases l.visited <;> rfl

/-- The index is below the number of items. -/
theorem lt_length_of_position? {i : Nat} (h : l.position? = some i) : i < l.toList.length := by
  unfold position? at h
  rw [toList, List.length_append, List.length_reverse]
  split at h
  · cases h
  · rename_i t before hvisited
    cases h
    rw [hvisited, List.length_cons]
    omega

/-- The item under the cursor is the one at its index. -/
theorem current?_eq : l.current? = l.position?.bind fun i => l.toList[i]? := by
  obtain ⟨visited, ahead⟩ := l
  cases visited with
  | nil => rfl
  | cons t before => simp [current?, position?, toList]

/-- The next item is the one at the next index. -/
theorem next?_eq : l.next? = l.toList[l.indexed.nextIndex]? := by
  rw [nextIndex_indexed, toList, ← List.length_reverse, List.getElem?_append_right (Nat.le_refl _),
    Nat.sub_self, next?, List.head?_eq_getElem?]

/-- The item before the one under the cursor is the one at the index before. -/
theorem previous?_eq :
    l.previous? = l.position?.bind fun i => if i = 0 then none else l.toList[i - 1]? := by
  obtain ⟨visited, ahead⟩ := l
  cases visited with
  | nil => rfl
  | cons t before =>
    cases before with
    | nil => rfl
    | cons u before => simp [previous?, position?, toList]

/-- The cursor has no item before it if there is no index or the index is that of the first item. -/
theorem atStart_eq : l.atStart = l.position?.elim true (· == 0) := by
  obtain ⟨visited, ahead⟩ := l
  cases visited with
  | nil => rfl
  | cons t before => cases before <;> rfl

/-- The cursor has no item ahead of it if the index is that of the last item, or if there are no items. -/
theorem atEnd_eq :
    l.atEnd = l.position?.elim l.toList.isEmpty fun i => decide (l.toList.length ≤ i + 1) := by
  obtain ⟨visited, ahead⟩ := l
  cases visited with
  | nil => rfl
  | cons t before =>
    have hlength : (toList ⟨t :: before, ahead⟩).length = before.length + 1 + ahead.length := by
      rw [toList, List.length_append, List.length_reverse, List.length_cons]
    rw [position?, Option.elim_some, hlength, atEnd, Bool.eq_iff_iff, List.isEmpty_iff_length_eq_zero,
      decide_eq_true_iff]
    show ahead.length = 0 ↔ _
    omega

/-! ## Edits -/

/-- An edit does to the items and the index what its rule says. -/
theorem indexed_edit (e : Edit) : (l.edit e).indexed = l.indexed.edit e := by
  obtain ⟨visited, ahead⟩ := l
  cases e with
  | add t => exact congrArg (Indexed.mk · _) (toList_add _ t)
  | reset => rfl
  | moveNext =>
    rw [Indexed.edit, nextIndex_indexed]
    cases ahead with
    | nil => simp [edit, moveNext?, indexed, toList]
    | cons t rest => simp [edit, moveNext?, indexed, toList, position?]
  | setCurrent t =>
    cases visited with
    | nil => rfl
    | cons u before => simp [edit, setCurrent?, indexed, toList, position?, Indexed.edit]

/-- Any sequence of edits does to the items and the index what the rules say. -/
theorem indexed_edits (es : List Edit) : (l.edits es).indexed = es.foldl Indexed.edit l.indexed := by
  induction es generalizing l with
  | nil => rfl
  | cons e es ih =>
    rw [edits, List.foldl_cons, List.foldl_cons, ← indexed_edit]
    exact ih _

/-! ## Moves -/

/-- The lists after each of the moves that are possible, one after the other. -/
def journey (l : TokenList) : List TokenList :=
  match _next : l.moveNext? with
  | none => []
  | some m => m :: m.journey
termination_by l.ahead.length
decreasing_by exact length_ahead_of_moveNext? _next

theorem journey_of_ahead_cons (visited : List Token) (t : Token) (rest : List Token) :
    journey ⟨visited, t :: rest⟩ = ⟨t :: visited, rest⟩ :: journey ⟨t :: visited, rest⟩ := by
  rw [journey]
  rfl

/-- The moves that are possible visit the items ahead of the cursor, in order, at their indices. -/
theorem journey_eq (visited ahead : List Token) :
    (journey ⟨visited, ahead⟩).map (fun m => (m.position?, m.current?)) =
      ahead.mapIdx fun i t => (some (visited.length + i), some t) := by
  induction ahead generalizing visited with
  | nil =>
    rw [journey]
    rfl
  | cons t rest ih =>
    rw [journey_of_ahead_cons, List.map_cons, ih, List.mapIdx_cons]
    have hindex : ∀ i, (t :: visited).length + i = visited.length + (i + 1) := fun i => by
      rw [List.length_cons]
      omega
    simp only [hindex]
    rfl

/-- The moves from before the first item visit every item once, in order, before there is none left. -/
theorem journey_reset :
    l.reset.journey.map (fun m => (m.position?, m.current?)) =
      l.toList.mapIdx fun i t => (some i, some t) := by
  have h := journey_eq [] l.toList
  simpa [reset, ofList] using h

/-! ## The laws of the cursor -/

/-- The cursor moves exactly if there is a next item. -/
theorem isSome_moveNext? : l.moveNext?.isSome = l.next?.isSome := by
  unfold moveNext? next?
  cases l.ahead <;> rfl

/-- After a move the next item is the current one, and the current one is before it. -/
theorem moved {m : TokenList} (h : l.moveNext? = some m) :
    m.current? = l.next? ∧ m.previous? = l.current? := by
  unfold moveNext? at h
  split at h
  · cases h
  · rename_i t rest hahead
    cases h
    exact ⟨by rw [next?, hahead]; rfl, rfl⟩

theorem atStart_iff : l.atStart = true ↔ l.previous? = none := by
  rw [atStart, previous?, List.isEmpty_iff, List.head?_eq_none_iff]

theorem atEnd_iff : l.atEnd = true ↔ l.next? = none := by
  rw [atEnd, next?, List.isEmpty_iff, List.head?_eq_none_iff]

/-- An item that is added behind the cursor's last item is the next one, and the last. -/
theorem moveNext?_add (h : l.atEnd = true) (t : Token) :
    (l.add t).next? = some t ∧
      ∃ m, (l.add t).moveNext? = some m ∧ m.current? = some t ∧ m.atEnd = true := by
  have hahead : (l.add t).ahead = [t] := by
    rw [add, List.isEmpty_iff.1 h]
    rfl
  refine ⟨by rw [next?, hahead]; rfl, ⟨t :: l.visited, []⟩, ?_, rfl, rfl⟩
  rw [moveNext?, hahead]
  rfl

/-- What holds of the cursor of a token list. -/
structure CursorLaws (l : TokenList) : Prop where
  /-- The cursor is before the first item or on an item. -/
  inside : ∀ i, l.position? = some i → i < l.toList.length
  current : l.current? = l.position?.bind fun i => l.toList[i]?
  next : l.next? = l.toList[l.position?.elim 0 (· + 1)]?
  previous : l.previous? = l.position?.bind fun i => if i = 0 then none else l.toList[i - 1]?
  first : l.atStart = l.position?.elim true (· == 0)
  last : l.atEnd = l.position?.elim l.toList.isEmpty fun i => decide (l.toList.length ≤ i + 1)
  atStart : l.atStart = true ↔ l.previous? = none
  atEnd : l.atEnd = true ↔ l.next? = none
  moves : l.moveNext?.isSome = l.next?.isSome
  moved : ∀ m, l.moveNext? = some m →
    m.current? = l.next? ∧ m.previous? = l.current? ∧ m.toList = l.toList
  stays : l.moveNext? = none → l.edit .moveNext = l
  /-- An item that is added when there is none ahead of the cursor can be reached. -/
  added : l.atEnd = true → ∀ t, (l.add t).atEnd = false ∧ (l.add t).next? = some t ∧
    ∃ m, (l.add t).moveNext? = some m ∧ m.current? = some t ∧ m.atEnd = true
  /-- The moves from before the first item visit every item once, in order. -/
  visits : l.reset.journey.map (fun m => (m.position?, m.current?)) =
    l.toList.mapIdx fun i t => (some i, some t)

theorem laws : CursorLaws l where
  inside _ := l.lt_length_of_position?
  current := l.current?_eq
  next := l.next?_eq
  previous := l.previous?_eq
  first := l.atStart_eq
  last := l.atEnd_eq
  atStart := l.atStart_iff
  atEnd := l.atEnd_iff
  moves := l.isSome_moveNext?
  moved m h := ⟨(l.moved h).1, (l.moved h).2, toList_of_moveNext? h⟩
  stays h := by rw [edit, h]; rfl
  added h t := by
    obtain ⟨hnext, hmove⟩ := l.moveNext?_add h t
    refine ⟨?_, hnext, hmove⟩
    rw [Bool.eq_false_iff, Ne, atEnd_iff, hnext]
    nofun
  visits := l.journey_reset

/-- The laws of the cursor hold of every list, however it was edited since it was made, and its items and
index are what the edits make of them. -/
theorem cursor_laws (ts : List Token) (es : List Edit) :
    let l := (ofList ts).edits es
    l.indexed = es.foldl Indexed.edit ⟨ts, none⟩ ∧ CursorLaws l :=
  ⟨indexed_edits _ es, laws _⟩

/-- A list that grows while the cursor rests on its last item. -/
example (t u : Token) :
    ((ofList [t]).edits [.moveNext, .moveNext, .add u, .moveNext]).current? = some u := rfl

end TokenList

end SheetFormula
