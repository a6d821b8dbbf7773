import SheetFormula.Token

/-!
# Open scopes

The scopes that are open at a point of a formula, innermost first, each as the token that opened it.
Closing answers with the closing token of the innermost scope; where no scope is open, it answers with
the end of a function call.
-/

namespace SheetFormula

/-- The open scopes, innermost first. -/
structure ScopeStack where
  scopes : List Token := []
deriving DecidableEq, Repr, Inhabited

namespace ScopeStack

/-- Opens a scope inside all others. -/
def push (s : ScopeStack) (t : Token) : ScopeStack := ⟨t :: s.scopes⟩

/-- The opening token of the innermost scope. -/
def top? (s : ScopeStack) : Option Token := s.scopes.head?

/-- The value of the innermost scope's opening token, or nothing. -/
def topValue (s : ScopeStack) : String := (s.top?.map Token.value).getD ""

/-- The kind of the innermost scope. -/
def topKind? (s : ScopeStack) : Option Kind := s.top?.map Token.kind

/-- The subkind of the innermost scope's opening token. -/
def topSubkind (s : ScopeStack) : Subkind := (s.top?.map Token.subkind).getD .plain

/-- How many scopes are open. -/
def depth (s : ScopeStack) : Nat := s.scopes.length

/-- Whether no scope is open. -/
def isEmpty (s : ScopeStack) : Bool := s.scopes.isEmpty

/-- The token that closes the innermost scope. -/
def closing (s : ScopeStack) : Token := ⟨"", s.topKind?.getD .function, .stop⟩

/-- The stack without its innermost scope. -/
def pop (s : ScopeStack) : ScopeStack := ⟨s.scopes.tail⟩

@[simp] theorem depth_push (s : ScopeStack) (t : Token) : (s.push t).depth = s.depth + 1 := rfl

@[simp] theorem depth_pop (s : ScopeStack) : s.pop.depth = s.depth - 1 := by
  simp [depth, pop]

@[simp] theorem pop_push (s : ScopeStack) (t : Token) : (s.push t).pop = s := rfl

@[simp] theorem closing_push (s : ScopeStack) (t : Token) :
    (s.push t).closing = ⟨"", t.kind, .stop⟩ := rfl

end ScopeStack

end SheetFormula
