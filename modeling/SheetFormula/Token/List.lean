import SheetFormula.Token

/-!
# Token lists

An ordered list of tokens with a cursor that moves forward only. The list is held as the items up to
and including the one under the cursor, nearest first, and the items ahead of it; every query and
every move looks at the ends of these two parts. Tokens are added at the end of the list, wherever
the cursor is.
-/

namespace SheetFormula

/-- A list of tokens with a cursor before its first item or on one of its items. -/
structure TokenList where
  /-- The items up to the cursor, nearest first: the head is the current item. -/
  visited : List Token := []
  /-- The items after the cursor. -/
  ahead : List Token := []
deriving DecidableEq, Repr, Inhabited

namespace TokenList

/-- The list with the cursor before its first item. -/
def ofList (tokens : List Token) : TokenList := ⟨[], tokens⟩

/-- All items, in order. -/
def toList (l : TokenList) : List Token := l.visited.reverse ++ l.ahead

/-- How many items there are. -/
def length (l : TokenList) : Nat := l.visited.length + l.ahead.length

/-- Whether there is no item. -/
def isEmpty (l : TokenList) : Bool := l.visited.isEmpty && l.ahead.isEmpty

/-- The index of the item under the cursor. -/
def position? (l : TokenList) : Option Nat :=
  match l.visited with
  | [] => none
  | _ :: before => some before.length

/-- The cursor has no item before it. -/
def atStart (l : TokenList) : Bool := l.visited.tail.isEmpty

/-- The cursor has no item ahead of it. -/
def atEnd (l : TokenList) : Bool := l.ahead.isEmpty

/-- The item under the cursor. -/
def current? (l : TokenList) : Option Token := l.visited.head?

/-- The item before the one under the cursor. -/
def previous? (l : TokenList) : Option Token := l.visited.tail.head?

/-- The item that the cursor moves to next. -/
def next? (l : TokenList) : Option Token := l.ahead.head?

/-- Moves the cursor to the next item; with no item ahead, nothing happens and the answer is `none`. -/
def moveNext? (l : TokenList) : Option TokenList :=
  match l.ahead with
  | [] => none
  | t :: rest => some ⟨t :: l.visited, rest⟩

/-- Moves the cursor up to `n` items forward. -/
def advance (l : TokenList) : Nat → TokenList
  | 0 => l
  | n + 1 => (l.moveNext?.getD l).advance n

/-- Adds an item at the end. -/
def add (l : TokenList) (t : Token) : TokenList := { l with ahead := l.ahead ++ [t] }

/-- Puts the cursor before the first item. -/
def reset (l : TokenList) : TokenList := ofList l.toList

/-- Replaces the item under the cursor; without one the answer is `none`. -/
def setCurrent? (l : TokenList) (t : Token) : Option TokenList :=
  match l.visited with
  | [] => none
  | _ :: before => some { l with visited := t :: before }

@[simp] theorem toList_ofList (ts : List Token) : (ofList ts).toList = ts := rfl

@[simp] theorem toList_add (l : TokenList) (t : Token) : (l.add t).toList = l.toList ++ [t] := by
  simp [toList, add]

@[simp] theorem toList_reset (l : TokenList) : l.reset.toList = l.toList := rfl

theorem length_toList (l : TokenList) : l.toList.length = l.length := by
  simp [toList, length]

/-- Moving the cursor keeps the items. -/
theorem toList_of_moveNext? {l m : TokenList} (h : l.moveNext? = some m) : m.toList = l.toList := by
  unfold moveNext? at h
  split at h
  · simp at h
  · rename_i t rest heq
    cases h
    simp [toList, heq]

end TokenList

end SheetFormula
