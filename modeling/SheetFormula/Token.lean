/-!
# Tokens

A formula is split into tokens: a text with a kind and, where the kind alone does not say enough, a
subkind. A scope (a function call or a parenthesis) is a pair of tokens of one kind, the first with
the subkind `start` and the second with `stop`.
-/

namespace SheetFormula

/-- The kind of a token. -/
inductive Kind where
  /-- A unary plus, which does nothing. -/
  | noop
  /-- A number, text, truth value, error or reference. -/
  | operand
  /-- One end of a function call. -/
  | function
  /-- One end of a parenthesis. -/
  | subexpression
  /-- The separator of two arguments. -/
  | argument
  /-- An operator before its operand. -/
  | prefixOp
  /-- An operator between two operands. -/
  | infixOp
  /-- An operator after its operand. -/
  | postfixOp
  /-- A run of spaces. -/
  | whitespace
  /-- Text that stands where no operand can. -/
  | unknown
deriving DecidableEq, Repr, Inhabited

/-- The part of a token's meaning that depends on its text or its place. -/
inductive Subkind where
  /-- Nothing is added to the kind. -/
  | plain
  | start
  | stop
  | text
  | number
  | logical
  | error
  | range
  | math
  | concatenation
  | intersection
  | union
deriving DecidableEq, Repr, Inhabited

namespace Kind

/-- All kinds, in the order in which they are reported. -/
def all : List Kind :=
  [noop, operand, function, subexpression, argument, prefixOp, infixOp, postfixOp, whitespace,
    unknown]

/-- The published name of a kind. -/
def name : Kind → String
  | noop => "Noop"
  | operand => "Operand"
  | function => "Function"
  | subexpression => "Subexpression"
  | argument => "Argument"
  | prefixOp => "OperatorPrefix"
  | infixOp => "OperatorInfix"
  | postfixOp => "OperatorPostfix"
  | whitespace => "Whitespace"
  | unknown => "Unknown"

/-- The kind with a published name. -/
def ofName? (s : String) : Option Kind := all.find? (·.name = s)

/-- Tokens of this kind open and close a scope. -/
def isScope : Kind → Bool
  | function | subexpression => true
  | _ => false

/-- Tokens of this kind are operators. -/
def isOperator : Kind → Bool
  | prefixOp | infixOp | postfixOp => true
  | _ => false

theorem mem_all (k : Kind) : k ∈ all := by cases k <;> decide

theorem ofName?_name (k : Kind) : ofName? k.name = some k := by cases k <;> decide

end Kind

namespace Subkind

/-- All subkinds. -/
def all : List Subkind :=
  [plain, start, stop, text, number, logical, error, range, math, concatenation, intersection,
    union]

/-- The published name of a subkind, empty where nothing is added to the kind. -/
def name : Subkind → String
  | plain => ""
  | start => "Start"
  | stop => "Stop"
  | text => "Text"
  | number => "Number"
  | logical => "Logical"
  | error => "Error"
  | range => "Range"
  | math => "Math"
  | concatenation => "Concatenation"
  | intersection => "Intersection"
  | union => "Union"

/-- The subkind with a published name. -/
def ofName? (s : String) : Option Subkind := all.find? (·.name = s)

theorem mem_all (k : Subkind) : k ∈ all := by cases k <;> decide

theorem ofName?_name (k : Subkind) : ofName? k.name = some k := by cases k <;> decide

end Subkind

/-- A piece of a formula with its kind and subkind. -/
structure Token where
  value : String
  kind : Kind
  subkind : Subkind := .plain
deriving DecidableEq, Repr, Inhabited

namespace Token

/-- The token opens a scope. -/
def isStart (t : Token) : Bool := t.kind.isScope && t.subkind == .start

/-- The token closes a scope. -/
def isStop (t : Token) : Bool := t.kind.isScope && t.subkind == .stop

/-- An operand is complete after this token. -/
def endsOperand (t : Token) : Bool := t.isStop || t.kind == .operand

/-- An operand begins with this token. -/
def beginsOperand (t : Token) : Bool := t.isStart || t.kind == .operand

/-- The token is the infix operator `value`. -/
def isInfix (t : Token) (value : String) : Bool := t.kind == .infixOp && t.value == value

/-- The token on one line: its value, and its kind and subkind in angle brackets. -/
def display (t : Token) : String :=
  t.value ++ " <" ++ t.kind.name ++ "> <" ++ t.subkind.name ++ ">"

end Token

end SheetFormula
