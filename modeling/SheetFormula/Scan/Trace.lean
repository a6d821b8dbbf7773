import SheetFormula.Token

/-!
# What a scan does

A scan leaves a trace: one entry for each token that it puts out and for each recovery from a fault of
the formula, in order. The tokens of the scan, its metrics and its log are all read off the trace.
-/

namespace SheetFormula.Scan

/-- One thing that a scan does. The offset is that of the character under the cursor. -/
inductive Entry where
  /-- A token is put out. -/
  | token (offset : Nat) (t : Token)
  /-- A token is put out that opens a scope, the innermost of `depth` open ones. -/
  | opened (offset depth : Nat) (t : Token)
  /-- A token is put out that closes the innermost scope, or none. -/
  | closed (t : Token)
  /-- The delimiter is about to close a scope, and none is open. -/
  | unopened (offset : Nat) (delimiter : Char)
  /-- The delimiter cannot follow the pending text, which is about to be put out. -/
  | stray (offset : Nat) (delimiter : Char) (pending : String)
deriving DecidableEq, Repr

/-- The token that an entry puts out. -/
def Entry.token? : Entry → Option Token
  | .token _ t => some t
  | .opened _ _ t => some t
  | .closed t => some t
  | .unopened _ _ => none
  | .stray _ _ _ => none

/-- The tokens that a trace puts out, in order. -/
def tokensOf (trace : List Entry) : List Token := trace.filterMap Entry.token?

@[simp] theorem tokensOf_nil : tokensOf [] = [] := rfl

@[simp] theorem tokensOf_append (a b : List Entry) :
    tokensOf (a ++ b) = tokensOf a ++ tokensOf b :=
  List.filterMap_append

end SheetFormula.Scan
