import SheetFormula.Token.List

/-!
# Spaces and intersections

A run of spaces between two operands is the intersection operator; everywhere else it means nothing
and is dropped.
-/

namespace SheetFormula.Stream

/-- The items that are left when the spaces are resolved, and what became of the spaces. -/
structure Spaced where
  tokens : List Token := []
  dropped : Nat := 0
  intersections : Nat := 0
deriving DecidableEq, Repr

namespace Spaced

/-- One more item at the front. -/
def keep (t : Token) (s : Spaced) : Spaced := { s with tokens := t :: s.tokens }

/-- One more intersection at the front. -/
def intersect (value : String) (s : Spaced) : Spaced :=
  { s with
    tokens := ⟨value, .infixOp, .intersection⟩ :: s.tokens
    intersections := s.intersections + 1 }

/-- One more run of spaces without meaning. -/
def drop (s : Spaced) : Spaced := { s with dropped := s.dropped + 1 }

end Spaced

/-- A run of spaces between these two neighbours is an intersection. -/
def isIntersection (left right : Option Token) : Bool :=
  (left.map Token.endsOperand).getD false && (right.map Token.beginsOperand).getD false

/-- Resolves the spaces of some items, of which `left` is the item before the first. -/
def resolveSpaces (left : Option Token) : List Token → Spaced
  | [] => {}
  | t :: ts =>
    let rest := resolveSpaces (some t) ts
    if t.kind ≠ .whitespace then rest.keep t
    else if isIntersection left ts.head? then rest.intersect t.value
    else rest.drop

end SheetFormula.Stream

namespace SheetFormula

/-- Resolves the spaces of the items ahead of the cursor; the items that it has passed are left out. -/
def TokenList.resolveSpaces (l : TokenList) : Stream.Spaced :=
  Stream.resolveSpaces l.current? l.ahead

end SheetFormula
