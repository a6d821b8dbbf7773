import SheetFormula.Log.Report
import SheetFormula.Token

/-!
# The structure of a token stream

A stream is structurally complete if the formula did not end inside an error literal, no token is of
unknown kind, and the scopes are balanced: no scope is closed before it is opened, and every scope is
closed in the end. The first of these that fails, in this order, is the fault that is reported.
-/

namespace SheetFormula

/-- Why a token stream is not structurally complete. -/
inductive StructureError where
  /-- The formula ended inside an error literal, of which this is the text. -/
  | unterminatedError (text : String)
  /-- A token is of unknown kind. -/
  | unknownToken (value : String) (position : Nat)
  /-- Some scope is never closed. -/
  | unbalancedScope (opened closed : Nat)
  /-- A closing token closes no scope. -/
  | unexpectedStop (position : Nat)
deriving DecidableEq, Repr

namespace StructureError

/-- The message of a fault. -/
def message : StructureError → String
  | unterminatedError text => "Formula ended inside error literal '" ++ text ++ "'"
  | unknownToken value position =>
    "Unknown token '" ++ value ++ "' at token " ++ toString position
  | unbalancedScope opened closed =>
    "Unbalanced scopes: " ++ toString opened ++ " opened, " ++ toString closed ++ " closed"
  | unexpectedStop position =>
    "Stop token at token " ++ toString position ++ " closes no open scope"

/-- The event code of a fault. -/
def code : StructureError → Log.Code
  | unterminatedError _ => .incompleteFormula
  | unknownToken _ _ => .unknownToken
  | unbalancedScope _ _ => .unbalancedScopes
  | unexpectedStop _ => .unexpectedStop

end StructureError

/-- The first token of unknown kind, of the tokens from `position` on. -/
def findUnknown? (position : Nat) : List Token → Option StructureError
  | [] => none
  | t :: ts =>
    if t.kind = .unknown then some (.unknownToken t.value position)
    else findUnknown? (position + 1) ts

/-- Checks the balance of the tokens from `position` on, after so many openings and closings. -/
def checkScopes (position opened closed : Nat) : List Token → Except StructureError Unit
  | [] => if opened = closed then .ok () else .error (.unbalancedScope opened closed)
  | t :: ts =>
    if t.isStart then checkScopes (position + 1) (opened + 1) closed ts
    else if t.isStop then
      if closed = opened then .error (.unexpectedStop position)
      else checkScopes (position + 1) opened (closed + 1) ts
    else checkScopes (position + 1) opened closed ts

/-- Checks that a token stream is structurally complete. -/
def checkStructure (ts : List Token) (inError : Bool) : Except StructureError Unit :=
  if inError then .error (.unterminatedError ((ts.getLast?.map Token.value).getD ""))
  else
    match findUnknown? 0 ts with
    | some e => .error e
    | none => checkScopes 0 0 0 ts

/-- The report of a check of so many tokens. -/
def structureReport (count : Nat) (result : Except StructureError Unit) : Log.Report :=
  (match result with
    | .ok () => Log.Report.success .structureComplete "Token stream is structurally complete"
    | .error e => Log.Report.error e.code e.message).withPairs [("tokens", toString count)]

end SheetFormula
