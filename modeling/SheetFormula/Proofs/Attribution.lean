import Mathlib.Data.List.Forall2
import Mathlib.Data.List.Induction
import SheetFormula.Log.Report

/-!
# The formula that an event is attributed to

Work on one formula can begin inside of the work on another, so what happens in a session is a tree. In
time it is a list of moments (`momentsOf`): at each of them a report is made, or work on a formula begins
or ends. A report is attributed to the formula that was named last before it, unless the work on it has
ended since (`inForce`), and its event holds the texts of the report and that formula, nothing of any
other. Main statements:

* `SortedMap.get?_ofList`: of the pairs with one key a map holds the last;
* `toldBy_event`: what the event of a report holds;
* `made_concat`: what one more moment does to the reports and their formulas;
* `Session.Holds.step`, `Session.Holds.run`: so what an action does, and what some actions do;
* `attributed_events`: what a session delivers from its beginning.
-/

namespace SheetFormula

/-- Of the pairs with one key a map holds the last. -/
theorem SortedMap.get?_ofList {α : Type} (pairs : List (String × α)) (key : String) :
    (ofList pairs).get? key = (pairs.filter (·.1 = key)).getLast?.map Prod.snd := by
  induction pairs using List.reverseRecOn with
  | nil => rfl
  | append_singleton pairs p ih =>
    have hinsert : ofList (pairs ++ [p]) = (ofList pairs).insert p.1 p.2 := by
      rw [ofList, ofList, insertAll, insertAll, List.foldl_append, List.foldl_cons, List.foldl_nil]
    rw [hinsert, List.filter_append]
    by_cases hkey : p.1 = key
    · subst hkey
      have hlast : [p].filter (·.1 = p.1) = [p] := List.filter_cons_of_pos (decide_eq_true rfl)
      rw [get?_insert_self, hlast, List.getLast?_concat, Option.map_some]
    · have hnone : [p].filter (·.1 = key) = [] :=
        List.filter_cons_of_neg (by rwa [decide_eq_true_eq])
      rw [get?_insert_of_ne _ (Ne.symm hkey), hnone, List.append_nil, ih]

namespace Log

/-! ## Moments -/

/-- What happens at one moment of a session. -/
inductive Moment where
  /-- The formula that is being worked on becomes this one with its number, or there is none. -/
  | context (formula : Option (String × Nat))
  /-- A report is made, which is attributed to the formula or is not. -/
  | report (r : Report) (attributed : Bool)
deriving Repr

mutual

/-- All that happens during an action. -/
def Action.moments : Action → List Moment
  | .report r => [.report r true]
  | .reportUnattributed code message => [.report (.error code message) false]
  | .enter formula id => [.context (some (formula, id))]
  | .leave => [.context none]
  | .within formula id work =>
    .context (some (formula, id)) :: (momentsOf work ++ [.context none])

/-- All that happens during some actions. -/
def momentsOf : List Action → List Moment
  | [] => []
  | a :: actions => Action.moments a ++ momentsOf actions

end

/-- What a moment makes of the formula that is being worked on. -/
def Moment.context? : Moment → Option (Option (String × Nat))
  | .context formula => some formula
  | .report .. => none

/-- A report and the formula that it is attributed to. -/
structure Attributed where
  report : Report
  formula : Option (String × Nat)
deriving Repr

/-- The report of a moment, if `formula` is in force then. -/
def Moment.made? (formula : Option (String × Nat)) : Moment → Option Attributed
  | .context _ => none
  | .report r attributed => some ⟨r, if attributed then formula else none⟩

/-- The formula that is in force after some moments: the one that was named last, if it was not ended. -/
def inForce (ms : List Moment) : Option (String × Nat) := (ms.filterMap Moment.context?).getLast?.join

/-- The reports that are made at some moments, each with the formula that was in force before it. -/
def made (ms : List Moment) : List Attributed :=
  (List.range ms.length).filterMap fun i => ms[i]?.bind (Moment.made? (inForce (ms.take i)))

section Moments

variable (ms : List Moment)

theorem inForce_context (formula : Option (String × Nat)) :
    inForce (ms ++ [.context formula]) = formula := by
  rw [inForce, List.filterMap_append]
  exact congrArg Option.join List.getLast?_concat

theorem inForce_report (r : Report) (attributed : Bool) :
    inForce (ms ++ [.report r attributed]) = inForce ms := by
  rw [inForce, List.filterMap_append]
  exact congrArg (fun l : List _ => l.getLast?.join) (List.append_nil _)

/-- One more moment leaves the earlier reports with their formulas. -/
theorem made_concat (m : Moment) :
    made (ms ++ [m]) = made ms ++ (m.made? (inForce ms)).toList := by
  -- what was in force at an earlier moment depends on the moments before it only
  have hearlier : ∀ i ∈ List.range ms.length,
      (ms ++ [m])[i]?.bind (Moment.made? (inForce ((ms ++ [m]).take i))) =
        ms[i]?.bind (Moment.made? (inForce (ms.take i))) := by
    intro i hi
    have hlt : i < ms.length := List.mem_range.1 hi
    rw [List.getElem?_append_left hlt, List.take_append_of_le_length (Nat.le_of_lt hlt)]
  rw [made, List.length_append, List.length_singleton, List.range_succ, List.filterMap_append,
    List.filterMap_congr hearlier, List.filterMap_cons, List.take_left, List.getElem?_concat_length,
    Option.bind_some]
  cases m.made? (inForce ms) <;> rfl

end Moments

/-! ## Events -/

/-- The text of a formula as an event quotes it: whole, or the first 256 characters and three points. -/
def quoted (formula : String) : String :=
  if 256 < formula.length then String.ofList (formula.toList.take 256) ++ "..." else formula

/-- The last value that some pairs give to a key. -/
def lastValue? (pairs : List (String × String)) (key : String) : Option String :=
  (pairs.filter (·.1 = key)).getLast?.map Prod.snd

/-- The event says what the report says, and which formula that is about, if it is about one. -/
structure Attributed.ToldBy (a : Attributed) (e : Event) : Prop where
  level : e.level = a.report.level
  code : e.code = a.report.code
  position : e.position = a.report.position
  message : e.message = String.ofList (a.report.message.toList.take 4096)
  /-- The formula goes before the report's own texts, of which the later goes before the earlier. -/
  context : ∀ key, e.context.get? key =
    match a.formula with
    | some (text, id) =>
      if key = "formula" then some (quoted text)
      else if key = "formula_id" then some (toString id)
      else lastValue? a.report.pairs key
    | none => lastValue? a.report.pairs key

/-- The context of a formula and its number. -/
def contextOf (formula : String × Nat) : FormulaContext := ⟨quoted formula.1, formula.2⟩

/-- What the event of a report holds. -/
theorem toldBy_event (a : Attributed) : a.ToldBy (a.report.event (a.formula.map contextOf)) := by
  obtain ⟨r, _ | f⟩ := a
  · exact ⟨rfl, rfl, rfl, rfl, SortedMap.get?_ofList r.pairs⟩
  · refine ⟨rfl, rfl, rfl, rfl, fun key => ?_⟩
    have hcontext : (r.event (some (contextOf f))).context =
        ((SortedMap.ofList r.pairs).insert "formula" (quoted f.1)).insert "formula_id"
          (toString f.2) := rfl
    rw [Option.map_some, hcontext]
    -- the formula is written first and its number last, over texts of the report with these names
    show _ = if key = "formula" then _ else if key = "formula_id" then _ else _
    split_ifs with hformula hid
    · subst hformula
      rw [SortedMap.get?_insert_of_ne _ (by decide), SortedMap.get?_insert_self]
    · subst hid
      rw [SortedMap.get?_insert_self]
    · rw [SortedMap.get?_insert_of_ne _ hid, SortedMap.get?_insert_of_ne _ hformula,
        SortedMap.get?_ofList, lastValue?]

/-- What is delivered of one report. -/
theorem toldBy_deliver (min : Level) (a : Attributed) :
    List.Forall₂ Attributed.ToldBy ([a].filter fun a => a.report.level.rank ≤ min.rank)
      (deliver min (a.formula.map contextOf) [a.report]) := by
  have hadmits : min.admits a.report.level = decide (a.report.level.rank ≤ min.rank) := rfl
  rw [deliver, List.filter_cons, List.filter_cons, hadmits]
  split_ifs
  · exact .cons (toldBy_event a) .nil
  · exact .nil

/-! ## Sessions -/

/-- The moments have led to this session, and these are the events that were delivered on the way. -/
structure Session.Holds (min : Level) (ms : List Moment) (s : Session) (es : List Event) : Prop where
  level : s.minLevel = min
  formula : s.formula = (inForce ms).map contextOf
  events : List.Forall₂ Attributed.ToldBy
    ((made ms).filter fun a => a.report.level.rank ≤ min.rank) es

namespace Session

variable {min : Level} {ms : List Moment} {s : Session} {es : List Event}

theorem Holds.context (h : Holds min ms s es) (formula : Option (String × Nat)) :
    Holds min (ms ++ [.context formula]) { s with formula := formula.map contextOf } es where
  level := h.level
  formula := by rw [inForce_context]
  events := by
    have hmade : made (ms ++ [.context formula]) = made ms := by
      rw [made_concat]
      exact List.append_nil _
    rw [hmade]
    exact h.events

theorem Holds.report (h : Holds min ms s es) (r : Report) (attributed : Bool) :
    Holds min (ms ++ [.report r attributed]) s
      (es ++ deliver s.minLevel (if attributed then s.formula else none) [r]) where
  level := h.level
  formula := by rw [inForce_report, h.formula]
  events := by
    have hctx : (if attributed then s.formula else none) =
        (if attributed then inForce ms else none).map contextOf := by
      cases attributed with
      | true => exact h.formula
      | false => rfl
    rw [made_concat, List.filter_append, hctx, h.level]
    exact List.rel_append h.events (toldBy_deliver min ⟨r, _⟩)

end Session

mutual

/-- An action leads on through its moments. -/
theorem Session.Holds.step {min : Level} : ∀ {ms : List Moment} {s : Session} {es : List Event},
    Holds min ms s es → ∀ a : Action, Holds min (ms ++ a.moments) (s.step a).1 (es ++ (s.step a).2)
  | _, _, _, h, .report r => h.report r true
  | _, _, _, h, .reportUnattributed code message => h.report (.error code message) false
  | _, _, es, h, .enter formula id => by
    rw [Session.step, List.append_nil es]
    exact h.context (some (formula, id))
  | _, _, es, h, .leave => by
    rw [Session.step, List.append_nil es]
    exact h.context none
  | _, _, _, h, .within formula id work => by
    -- the work goes on from the moment at which it began, so what was in force before is of no account
    have hwork := ((h.context (some (formula, id))).run work).context none
    rw [List.append_assoc, List.append_assoc] at hwork
    exact hwork

/-- Some actions lead on through their moments. -/
theorem Session.Holds.run {min : Level} : ∀ {ms : List Moment} {s : Session} {es : List Event},
    Holds min ms s es → ∀ actions : List Action,
      Holds min (ms ++ momentsOf actions) (s.run actions).1 (es ++ (s.run actions).2)
  | ms, _, es, h, [] => by
    rw [momentsOf, Session.run, List.append_nil ms, List.append_nil es]
    exact h
  | _, _, _, h, a :: actions => by
    have hrest := (h.step a).run actions
    rw [List.append_assoc, List.append_assoc] at hrest
    exact hrest

end

/-- Nothing has happened in a session that begins. -/
theorem Session.holds_start (min : Level) : Holds min [] { minLevel := min } [] := ⟨rfl, rfl, .nil⟩

/-- A session delivers an event of each report that the minimum level admits, in order, and of nothing
else. An event holds what its report says, and the formula that was in force when the report was made; an
error that must not be attributed has no context at all. At the end the formula in force is the one that
was named last, if the work on it did not end, and there is none right after work that began and ended as
one action. -/
theorem attributed_events (min : Level) (actions : List Action) :
    List.Forall₂ Attributed.ToldBy
        ((made (momentsOf actions)).filter fun a => a.report.level.rank ≤ min.rank)
        (Session.run { minLevel := min } actions).2 ∧
      (Session.run { minLevel := min } actions).1.formula =
        (inForce (momentsOf actions)).map contextOf ∧
      ∀ s : Session,
        (∀ code message,
          (s.step (.reportUnattributed code message)).2.all (·.context.isEmpty) = true) ∧
        ∀ formula id work, (s.step (.within formula id work)).1.formula = none := by
  have hrun := (Session.holds_start min).run actions
  rw [List.nil_append, List.nil_append] at hrun
  refine ⟨hrun.events, hrun.formula, fun s => ⟨fun code message => ?_, fun _ _ _ => rfl⟩⟩
  rw [Session.step, deliver, List.all_map]
  exact List.all_eq_true.2 fun r hr => by
    rw [List.mem_singleton.1 (List.mem_filter.1 hr).1]
    rfl

/-- Work on one formula inside of the work on another ends both. -/
example : (Session.run { minLevel := .debug } [.within "=A1" 1
      [.report (.info "first"), .within "=B1" 2 [], .report (.info "last")]]).2.map
        (·.context.get? "formula") = [some "=A1", none] := by decide

end Log

end SheetFormula
