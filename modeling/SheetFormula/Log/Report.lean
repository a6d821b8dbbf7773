import SheetFormula.Log.Event

/-!
# Reports and their attribution to a formula

A part of the program that has something to say makes a report. A report becomes an event when it is
delivered: the pairs that come with it form the event's context, and if a formula is being worked on,
the event is attributed to that formula. Events below the minimum level are not delivered.
-/

namespace SheetFormula.Log

/-- What a part of the program has to say. -/
structure Report where
  level : Level
  code : Code
  message : String
  position : Option Nat := none
  /-- Named texts that say more; of two with the same name the later counts. -/
  pairs : List (String × String) := []
deriving DecidableEq, Repr

namespace Report

/-- An error. -/
def error (code : Code) (message : String) : Report := ⟨.error, code, message, none, []⟩

/-- A warning, with the plain code unless one is given. -/
def warning (message : String) (code : Option Code := none) : Report :=
  ⟨.warning, code.getD .plainWarning, message, none, []⟩

/-- An informational report without a code of its own. -/
def info (message : String) : Report := ⟨.info, .plainInfo, message, none, []⟩

/-- An informational report that a stage is complete. -/
def success (code : Code) (message : String) : Report := ⟨.info, code, message, none, []⟩

/-- A report for debugging. -/
def debug (message : String) : Report := ⟨.debug, .plainDebug, message, none, []⟩

/-- The report with an offset. -/
def withPosition? (r : Report) (position : Option Nat) : Report := { r with position := position }

/-- The report with these named texts. -/
def withPairs (r : Report) (pairs : List (String × String)) : Report := { r with pairs := pairs }

end Report

/-- The longest formula text that an event quotes, in characters. -/
def maxFormulaLength : Nat := 256

/-- The formula that is being worked on: its text, cut to the allowed length, and its number. -/
structure FormulaContext where
  formula : String
  id : Nat
deriving DecidableEq, Repr

namespace FormulaContext

/-- The context of a formula; a text that has to be cut ends in three points. -/
def new (formula : String) (id : Nat) : FormulaContext where
  formula :=
    if maxFormulaLength < formula.length then
      String.ofList (formula.toList.take maxFormulaLength) ++ "..."
    else formula
  id := id

end FormulaContext

/-- Attributes an event to the formula that is being worked on, if there is one. -/
def Event.attribute (e : Event) : Option FormulaContext → Event
  | some ctx => (e.withContext "formula" ctx.formula).withContext "formula_id" (toString ctx.id)
  | none => e

/-- The event that a report becomes while the formula `ctx` is being worked on. -/
def Report.event (ctx : Option FormulaContext) (r : Report) : Event :=
  let e := Event.new r.level r.code r.message
  { e with position := r.position, context := .ofList r.pairs }.attribute ctx

/-- What is delivered of some reports with a minimum level, while `ctx` is being worked on. -/
def deliver (min : Level) (ctx : Option FormulaContext) (reports : List Report) : List Event :=
  (reports.filter fun r => min.admits r.level).map (Report.event ctx)

/-- The log of a run: its minimum level and the formula that is being worked on. -/
structure Session where
  minLevel : Level
  formula : Option FormulaContext := none
deriving DecidableEq, Repr

/-- What can happen in a session. -/
inductive Action where
  /-- A report is made. -/
  | report (r : Report)
  /-- An error is reported that must not be attributed to a formula. -/
  | reportUnattributed (code : Code) (message : String)
  /-- Work on a formula begins. -/
  | enter (formula : String) (id : Nat)
  /-- Work on the formula ends. -/
  | leave
  /-- Work on a formula begins, some of it is done, in which anything can happen, and it ends. -/
  | within (formula : String) (id : Nat) (work : List Action)
deriving Repr

instance : Coe Report Action := ⟨.report⟩

mutual

/-- The session after an action, and the events that the action delivers. -/
def Session.step (s : Session) : Action → Session × List Event
  | .report r => (s, deliver s.minLevel s.formula [r])
  | .reportUnattributed code message => (s, deliver s.minLevel none [.error code message])
  | .enter formula id => ({ s with formula := some (.new formula id) }, [])
  | .leave => ({ s with formula := none }, [])
  | .within formula id work =>
    let (after, events) := Session.run { s with formula := some (.new formula id) } work
    ({ after with formula := none }, events)

/-- The session after some actions, and the events that they deliver. -/
def Session.run (s : Session) : List Action → Session × List Event
  | [] => (s, [])
  | a :: actions =>
    let (next, events) := Session.step s a
    let (last, later) := Session.run next actions
    (last, events ++ later)

end

end SheetFormula.Log
