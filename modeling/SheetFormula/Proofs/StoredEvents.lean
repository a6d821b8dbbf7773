import Mathlib.Data.List.DropRight
import SheetFormula.Log.Store

/-!
# The events that a service keeps

A store has the last events of a history, as many as it keeps, and a run of commands decides which
events make the history: those put into the store directly, and those logged through the service that
its minimum level admitted at the time, all since the store was last cleared (`Service.history`). What
the queries answer is read off these events. Main statements:

* `Store.toList_record`: a store that has the last events of a history has them after one event more;
* `Service.history_concat`: what one more command does to the history;
* `Service.holds_run`: so what a run of any length leaves in the store;
* `Service.stored_events`: and what the queries answer then.
-/

namespace SheetFormula.Log

/-- The last `n` items need no more than the last `n` of those before the last one. -/
theorem rtake_rtake_concat {α : Type} (l : List α) (a : α) (n : Nat) :
    (l.rtake n ++ [a]).rtake n = (l ++ [a]).rtake n := by
  cases n with
  | zero => rw [List.rtake_zero, List.rtake_zero]
  | succ n =>
    have hshort : (l.rtake (n + 1)).rtake n = l.rtake n := by
      simp [List.rtake_eq_reverse_take_reverse, List.take_take]
    rw [List.rtake_concat_succ, List.rtake_concat_succ, hshort]

namespace Store

/-- Keeping an event drops the oldest ones beyond the capacity. -/
theorem toList_record_eq (s : Store) (e : Event) :
    (s.record e).events.toList = (s.events.toList ++ [e]).rtake storeCapacity := by
  have hpos : 0 < storeCapacity := by decide
  rw [record, List.rtake, List.length_append, List.length_singleton, Array.length_toList]
  split
  · rename_i hlt
    have hnone : s.events.size + 1 - storeCapacity = 0 := by omega
    rw [hnone, List.drop_zero, Array.toList_push]
  · have hle : s.events.size + 1 - storeCapacity ≤ s.events.toList.length := by
      rw [Array.length_toList]
      omega
    rw [List.drop_append_of_le_length hle, Array.toList_push, Array.toList_extract, List.extract,
      List.take_of_length_le (by simp)]

/-- A store that has the last events of a history has them after one event more. -/
theorem toList_record {s : Store} {h : List Event} (hs : s.events.toList = h.rtake storeCapacity)
    (e : Event) : (s.record e).events.toList = (h ++ [e]).rtake storeCapacity := by
  rw [toList_record_eq, hs, rtake_rtake_concat]

/-- Every event of a store is counted under its level, and under no other. -/
theorem total_summary (s : Store) :
    s.summary.total = s.summary.errors + s.summary.warnings + s.summary.infos + s.summary.debugs := by
  show s.events.size = s.countOf .error + s.countOf .warning + s.countOf .info + s.countOf .debug
  rw [← Array.length_toList]
  unfold countOf
  induction s.events.toList with
  | nil => rfl
  | cons e es ih =>
    simp only [List.length_cons, List.countP_cons, ih]
    cases e.level <;> simp <;> omega

end Store

namespace Service

/-- The command clears the store. -/
def Command.isClear : Command → Bool
  | .clear => true
  | _ => false

/-- The minimum level that a command sets. -/
def Command.level? : Command → Option Level
  | .setMinLevel l => some l
  | _ => none

/-- The event that a command puts into the store directly. -/
def Command.direct? : Command → Option Event
  | .logDirect e => some e
  | _ => none

/-- The event that a command brings into the store while `min` is the minimum level; what is logged
through a service that is not attached to the store comes to nothing. -/
def Command.event? (min : Level) (attached : Bool) : Command → Option Event
  | .log e => if attached = true ∧ e.level.rank ≤ min.rank then some e else none
  | .logDirect e => some e
  | _ => none

/-- The minimum level that is in force after some commands: the one that was set last. -/
def levelAfter (min : Level) (cs : List Command) : Level :=
  (cs.filterMap Command.level?).getLast?.getD min

/-- The event of the `i`-th of some commands, which the minimum level in force at the time decides;
there is none if the store is cleared later. -/
def eventAt? (min : Level) (attached : Bool) (cs : List Command) (i : Nat) : Option Event :=
  if (cs.drop i).any Command.isClear then none
  else cs[i]?.bind (Command.event? (levelAfter min (cs.take i)) attached)

/-- All events that came into the store and were not cleared, however many they are. -/
def history (min : Level) (attached : Bool) (cs : List Command) : List Event :=
  (List.range cs.length).filterMap (eventAt? min attached cs)

section Histories

variable (min : Level) (attached : Bool) (cs : List Command) (c : Command)

theorem levelAfter_concat :
    levelAfter min (cs ++ [c]) = c.level?.getD (levelAfter min cs) := by
  rw [levelAfter, List.filterMap_append]
  cases hc : c.level? with
  | none => simp [levelAfter, hc]
  | some l => simp [hc]

/-- One more command takes back an earlier event only if it clears the store. -/
theorem eventAt?_concat_of_lt {i : Nat} (hi : i < cs.length) :
    eventAt? min attached (cs ++ [c]) i = if c.isClear then none else eventAt? min attached cs i := by
  rw [eventAt?, eventAt?, List.drop_append_of_le_length hi.le, List.take_append_of_le_length hi.le,
    List.getElem?_append_left hi, List.any_append, List.any_cons, List.any_nil, Bool.or_false]
  cases c.isClear with
  | true => rw [Bool.or_true, if_pos rfl, if_pos rfl]
  | false => rw [Bool.or_false, if_neg Bool.false_ne_true]

/-- The last command brings its event while the level that was set before it is in force. -/
theorem eventAt?_concat_length :
    eventAt? min attached (cs ++ [c]) cs.length = c.event? (levelAfter min cs) attached := by
  rw [eventAt?, List.drop_left, List.take_left, List.getElem?_concat_length, Option.bind_some]
  cases c <;> rfl

/-- What one more command does to the history. -/
theorem history_concat :
    history min attached (cs ++ [c]) =
      if c.isClear then []
      else history min attached cs ++ (c.event? (levelAfter min cs) attached).toList := by
  have hearlier : (List.range cs.length).filterMap (eventAt? min attached (cs ++ [c])) =
      if c.isClear then [] else history min attached cs := by
    rw [List.filterMap_congr fun i hi => eventAt?_concat_of_lt min attached cs c (List.mem_range.1 hi)]
    split
    · exact List.filterMap_eq_nil_iff.2 fun _ _ => rfl
    · rfl
  rw [history, List.length_append, List.length_singleton, List.range_succ, List.filterMap_append,
    hearlier, List.filterMap_cons, eventAt?_concat_length]
  cases c with
  | clear => rfl
  | log e => simp only [Command.isClear]; cases Command.event? _ _ (.log e) <;> rfl
  | logDirect e => rfl
  | setMinLevel l => rfl

end Histories

/-! ## Runs -/

section Runs

variable {min : Level} {attached : Bool} {cs : List Command}

@[simp] theorem attached_step (s : Service) (c : Command) : (s.step c).attached = s.attached := by
  cases c with
  | log e => rw [step]; split <;> rfl
  | logDirect e => rfl
  | setMinLevel l => rfl
  | clear => rfl

@[simp] theorem minLevel_step (s : Service) (c : Command) :
    (s.step c).minLevel = c.level?.getD s.minLevel := by
  cases c with
  | log e => rw [step]; split <;> rfl
  | logDirect e => rfl
  | setMinLevel l => rfl
  | clear => rfl

/-- A command empties the store, keeps its event, or leaves the store as it is. -/
theorem store_step (s : Service) (c : Command) :
    (s.step c).store =
      if c.isClear then {} else (c.event? s.minLevel s.attached).elim s.store s.store.record := by
  cases c with
  | log e =>
    have hadmits : (s.admits e.level && s.attached) =
        decide (s.attached = true ∧ e.level.rank ≤ s.minLevel.rank) := by
      simp [admits, Level.admits, Bool.and_comm]
    have hkeep : (Command.log e).isClear = false := rfl
    rw [step, hadmits, hkeep, if_neg Bool.false_ne_true, Command.event?]
    simp only [decide_eq_true_eq]
    split
    · rw [Option.elim_some]
    · rw [Option.elim_none]
  | logDirect e =>
    have hkeep : (Command.logDirect e).isClear = false := rfl
    rw [step, hkeep, if_neg Bool.false_ne_true, Command.event?, Option.elim_some]
  | setMinLevel l => rfl
  | clear => rfl

/-- Some commands have led to this service: it keeps the last events of their history. -/
structure Holds (min : Level) (attached : Bool) (cs : List Command) (s : Service) : Prop where
  level : s.minLevel = levelAfter min cs
  link : s.attached = attached
  events : s.store.events.toList = (history min attached cs).rtake storeCapacity

/-- A command leads from a service that keeps the last events of a history to one that does. -/
theorem Holds.step {s : Service} (h : Holds min attached cs s) (c : Command) :
    Holds min attached (cs ++ [c]) (s.step c) where
  level := by rw [minLevel_step, h.level, levelAfter_concat]
  link := by rw [attached_step, h.link]
  events := by
    rw [store_step, history_concat, h.level, h.link]
    split
    · rw [List.rtake_nil]
    · cases c.event? (levelAfter min cs) attached with
      | none => rw [Option.elim_none, Option.toList_none, List.append_nil, h.events]
      | some e => exact Store.toList_record h.events e

/-- Any commands lead from an empty store to one that keeps the last events of their history. -/
theorem holds_run (min : Level) (attached : Bool) (cs : List Command) :
    Holds min attached cs (run { minLevel := min, attached := attached } cs) := by
  induction cs using List.reverseRecOn with
  | nil => exact ⟨rfl, rfl, List.rtake_nil _ |>.symm⟩
  | append_singleton cs c ih =>
    rw [run, List.foldl_append]
    exact ih.step c

/-- Through a service that is not attached to the store nothing comes into it: the history is what was
put into it directly since it was last cleared. -/
theorem history_detached (min : Level) (cs : List Command) :
    history min false cs = (cs.rtakeWhile fun c => !c.isClear).filterMap Command.direct? := by
  induction cs using List.reverseRecOn with
  | nil => rfl
  | append_singleton cs c ih =>
    have hdirect : c.event? (levelAfter min cs) false = c.direct? := by
      cases c with
      | log e => simp [Command.event?, Command.direct?]
      | logDirect e => rfl
      | setMinLevel l => rfl
      | clear => rfl
    rw [history_concat, ih, hdirect, List.rtakeWhile_concat]
    cases c.isClear with
    | true => rfl
    | false =>
      rw [if_neg Bool.false_ne_true, Bool.not_false, if_pos rfl, List.filterMap_append]
      cases hc : c.direct? <;> simp [hc]

end Runs

/-- What a store answers that has the last 10000 events of a history. -/
structure Answers (s : Store) (h : List Event) : Prop where
  events : s.events.toList = h.drop (h.length - 10000)
  size : s.size = min h.length 10000
  ofLevel : ∀ l, s.ofLevel l = (h.drop (h.length - 10000)).filter (·.level = l)
  withCode : ∀ c, s.withCode c = (h.drop (h.length - 10000)).filter (·.code = c)
  total : s.summary.total = s.events.toList.length
  levels : s.summary.errors = (s.ofLevel .error).length ∧
    s.summary.warnings = (s.ofLevel .warning).length ∧
    s.summary.infos = (s.ofLevel .info).length ∧ s.summary.debugs = (s.ofLevel .debug).length
  sum : s.summary.total =
    s.summary.errors + s.summary.warnings + s.summary.infos + s.summary.debugs

/-- After any commands the store has the last 10000 events of their history, and answers accordingly. If
the service is not attached to the store, the history is what was put into the store directly. -/
theorem stored_events (min : Level) (attached : Bool) (cs : List Command) :
    Answers (run { minLevel := min, attached := attached } cs).store (history min attached cs) ∧
      history min false cs =
        (cs.rtakeWhile fun c => !c.isClear).filterMap Command.direct? := by
  refine ⟨?_, history_detached min cs⟩
  have hevents := (holds_run min attached cs).events
  exact {
    events := hevents
    size := by
      rw [Store.size, ← Array.length_toList, hevents, List.rtake, List.length_drop]
      show _ - (_ - 10000) = Min.min _ 10000
      omega
    ofLevel := fun l => by rw [Store.ofLevel, hevents]; rfl
    withCode := fun c => by rw [Store.withCode, hevents]; rfl
    total := rfl
    levels := by
      simp [Store.summary, Store.countOf, Store.ofLevel, List.countP_eq_length_filter]
    sum := Store.total_summary _ }

end Service

end SheetFormula.Log
