import SheetFormula.Token

/-!
# Token streams as text

A token stream is shown in two forms: as a formula again, without the leading `=`, and as an outline
with one token on a line, indented by a tab for each scope around it.
-/

namespace SheetFormula

/-- The text of a token in a formula. -/
def Token.spelling (t : Token) : String :=
  match t.kind, t.subkind with
  | .function, .start => t.value ++ "("
  | .function, .stop => ")"
  | .subexpression, .stop => ")"
  | .subexpression, .start => "("
  | .operand, .text => "\"" ++ t.value ++ "\""
  | .infixOp, .intersection => " "
  | _, _ => t.value

/-- The formula that some tokens spell, without a leading `=`. -/
def render (ts : List Token) : String := ts.foldl (fun text t => text ++ t.spelling) ""

/-- What is rendered has the characters of one token after the other. -/
theorem toList_render (ts : List Token) :
    (render ts).toList = ts.flatMap fun t => t.spelling.toList := by
  have hfold : ∀ text : String, (ts.foldl (fun text t => text ++ t.spelling) text).toList =
      text.toList ++ ts.flatMap fun t => t.spelling.toList := by
    induction ts with
    | nil => exact fun text => (List.append_nil _).symm
    | cons t ts ih =>
      intro text
      rw [List.foldl_cons, ih, String.toList_append, List.append_assoc, List.flatMap_cons]
  exact hfold ""

/-- The line of a token at a depth of nesting. -/
def outlineLine (depth : Nat) (t : Token) : String :=
  String.ofList (List.replicate depth '\t') ++ t.display ++ "\n"

/-- The depth of a token's line, after tokens that end at a depth: a closing token is less deep. -/
def lineDepth (depth : Nat) (t : Token) : Nat := if t.subkind = .stop then depth - 1 else depth

/-- The depth after a token whose line is at a depth: after an opening token it is deeper. -/
def nextDepth (depth : Nat) (t : Token) : Nat := if t.subkind = .start then depth + 1 else depth

/-- The lines of some tokens, the first of them at a depth. -/
def outlineLines (depth : Nat) : List Token → List String
  | [] => []
  | t :: ts =>
    let depth := lineDepth depth t
    outlineLine depth t :: outlineLines (nextDepth depth t) ts

/-- One line for each token, indented by the scopes around it. -/
def outline (ts : List Token) : String :=
  (outlineLines 0 ts).foldl (fun text line => text ++ line) ""

end SheetFormula
