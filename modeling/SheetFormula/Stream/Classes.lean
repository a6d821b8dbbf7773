import SheetFormula.Text.Decimal
import SheetFormula.Token.List

/-!
# Operators and operands

The scanner leaves open what depends on a token's text or on its left neighbour: whether a sign stands
before its operand or between two, which kind of operation an infix operator is, and what an operand
denotes. The mark of an explicit call is dropped from the name of a function here too.
-/

namespace SheetFormula.Stream

/-- The operation of an infix operator. -/
def infixSubkind (value : String) : Subkind :=
  if value.toList.head? ∈ [some '<', some '>', some '='] then .logical
  else if value = "&" then .concatenation
  else .math

/-- What an operand denotes. -/
def operandSubkind (value : String) : Subkind :=
  if Text.isDecimal value.toList then .number
  else if value = "TRUE" ∨ value = "FALSE" then .logical
  else .range

/-- The operation of an infix operator is one of three. -/
theorem infixSubkind_ne {u : Subkind} (h : u ∉ [Subkind.logical, .concatenation, .math])
    (value : String) : infixSubkind value ≠ u := by
  rintro rfl
  apply h
  unfold infixSubkind
  split
  · decide
  · split <;> decide

/-- An operand denotes one of three things, if the scanner leaves that open. -/
theorem operandSubkind_ne {u : Subkind} (h : u ∉ [Subkind.number, .logical, .range])
    (value : String) : operandSubkind value ≠ u := by
  rintro rfl
  apply h
  unfold operandSubkind
  split
  · decide
  · split <;> decide

/-- The name of a function without one leading `@`. -/
def dropCallMark (name : String) : String :=
  match name.toList with
  | '@' :: cs => String.ofList cs
  | _ => name

/-- A sign after this token stands between two operands. -/
def precedesInfix (t : Token) : Bool := t.endsOperand || t.kind == .postfixOp

/-- Classifies a token, given whether a sign in its place stands between two operands. -/
def classifyToken (between : Bool) (t : Token) : Token :=
  match t.kind with
  | .infixOp =>
    if t.value = "-" then
      if between then { t with subkind := .math } else { t with kind := .prefixOp }
    else if t.value = "+" then
      if between then { t with subkind := .math } else { t with kind := .noop }
    else if t.subkind = .plain then { t with subkind := infixSubkind t.value }
    else t
  | .operand => if t.subkind = .plain then { t with subkind := operandSubkind t.value } else t
  | .function => { t with value := dropCallMark t.value }
  | _ => t

/-- Classifies some items in order, of which `left` is the classified item before the first. -/
def classifyAfter (left : Option Token) : List Token → List Token
  | [] => []
  | t :: ts =>
    let t := classifyToken ((left.map precedesInfix).getD false) t
    t :: classifyAfter (some t) ts

/-- Classifies all items. -/
def classify (ts : List Token) : List Token := classifyAfter none ts

theorem length_classifyAfter (left : Option Token) (ts : List Token) :
    (classifyAfter left ts).length = ts.length := by
  induction ts generalizing left with
  | nil => rfl
  | cons t ts ih => simp [classifyAfter, ih]

end SheetFormula.Stream

namespace SheetFormula.TokenList

/-- Classifies the item under the cursor where it stands, by the item before it as that is by now. -/
def classifyCurrent (l : TokenList) : TokenList :=
  match l.current? with
  | none => l
  | some t =>
    let between := !l.atStart && (l.previous?.map Stream.precedesInfix).getD false
    (l.setCurrent? (Stream.classifyToken between t)).getD l

theorem ahead_classifyCurrent (l : TokenList) : l.classifyCurrent.ahead = l.ahead := by
  obtain ⟨visited, ahead⟩ := l
  cases visited <;> rfl

theorem length_ahead_of_moveNext? {l m : TokenList} (h : l.moveNext? = some m) :
    m.ahead.length < l.ahead.length := by
  unfold moveNext? at h
  split at h
  · cases h
  · rename_i heq
    cases h
    simp [heq]

/-- Moves the cursor over the items ahead of it and classifies one after the other. -/
def classifyAhead (l : TokenList) : TokenList :=
  match _next : l.moveNext? with
  | none => l
  | some m => m.classifyCurrent.classifyAhead
termination_by l.ahead.length
decreasing_by
  rw [ahead_classifyCurrent]
  exact length_ahead_of_moveNext? _next

/-- Classifies all items, wherever the cursor is, and leaves it before the first. -/
def classify (l : TokenList) : TokenList := l.reset.classifyAhead.reset

end SheetFormula.TokenList
