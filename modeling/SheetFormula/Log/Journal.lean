import SheetFormula.Log.Report

/-!
# The journal of some work

The log as the work on formulas meets it. There may be a logger, which lets through what its minimum
level admits, and there may be a formula that is being worked on, to which events are attributed; the
events that have reached the logger are kept in order. Main statement:

* `events_reportAll`: reports add the events that are delivered of them.
-/

namespace SheetFormula.Log

/-- The state of the log while formulas are worked on. -/
structure Journal where
  /-- The minimum level of the installed logger, if there is one. -/
  logger : Option Level := none
  /-- The formula that is being worked on. -/
  formula : Option FormulaContext := none
  /-- What has reached the logger. -/
  events : Array Event := #[]
deriving DecidableEq, Repr

namespace Journal

/-- Makes a report: it reaches the logger if there is one and its level admits the report. -/
def report (j : Journal) (r : Report) : Journal :=
  match j.logger with
  | none => j
  | some min =>
    if min.admits r.level then { j with events := j.events.push (r.event j.formula) } else j

/-- Makes some reports, one after the other. -/
def reportAll (j : Journal) (rs : List Report) : Journal := rs.foldl report j

/-- Work on a formula begins. -/
def enter (j : Journal) (formula : String) (id : Nat) : Journal :=
  { j with formula := some (.new formula id) }

/-- Work on the formula ends. -/
def leave (j : Journal) : Journal := { j with formula := none }

/-- What of some reports reaches the logger. -/
def delivered (j : Journal) (rs : List Report) : List Event :=
  match j.logger with
  | none => []
  | some min => deliver min j.formula rs

variable (j : Journal) (r : Report) (rs rs' : List Report)

@[simp] theorem reportAll_nil : j.reportAll [] = j := rfl

@[simp] theorem reportAll_cons : j.reportAll (r :: rs) = (j.report r).reportAll rs := rfl

theorem reportAll_append : j.reportAll (rs ++ rs') = (j.reportAll rs).reportAll rs' :=
  List.foldl_append

@[simp] theorem logger_report : (j.report r).logger = j.logger := by
  unfold report
  split
  · rfl
  · split <;> rfl

@[simp] theorem formula_report : (j.report r).formula = j.formula := by
  unfold report
  split
  · rfl
  · split <;> rfl

/-- A report adds the event that is delivered of it. -/
theorem events_report : (j.report r).events.toList = j.events.toList ++ j.delivered [r] := by
  unfold report delivered
  split
  · simp
  · split <;> simp_all [deliver]

/-- Reports are delivered one by one. -/
theorem delivered_cons : j.delivered (r :: rs) = j.delivered [r] ++ (j.report r).delivered rs := by
  cases hlogger : j.logger with
  | none => simp [delivered, hlogger]
  | some min =>
    simp only [delivered, logger_report, formula_report, hlogger, deliver]
    rw [← List.map_append, ← List.filter_append, List.singleton_append]

/-- Reports add the events that are delivered of them. -/
theorem events_reportAll : (j.reportAll rs).events.toList = j.events.toList ++ j.delivered rs := by
  induction rs generalizing j with
  | nil => cases hlogger : j.logger <;> simp [delivered, deliver, hlogger]
  | cons r rs ih =>
    rw [reportAll_cons, ih, events_report, List.append_assoc, ← delivered_cons]

end Journal

end SheetFormula.Log
