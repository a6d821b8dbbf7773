import SheetFormula.Parse
import SheetFormula.Proofs.ScanHeads

/-!
# What is recorded of a scan does not bear on it

The scanner never looks at its record, so it does the same whatever is recorded: a scan that keeps
another record than the trace goes through the same states, and its record in the end is what takes note
of the trace, entry by entry (`State.replay`). An analyzer counts and logs in every step; so it counts
and logs what the trace says, and what it hands on does not depend on its preferences, on the log, or on
the formulas before. Main statements:

* `State.step_replay`, `State.finish_replay`: a scan with another record;
* `Meter.foldl_note`: what an analyzer records of a trace;
* `Parser.parseLogged_eq`: what a parser makes of a formula, and what it logs;
* `basic_parse`: the result of a formula, without what is measured on request only;
* `Parser.same_result`: so preferences, log and history never change the result.
-/

namespace SheetFormula

open Scan

/-! ## A scan with another record -/

namespace Scan.State

variable {ρ : Type} [Recorder ρ]

/-- The state whose record has taken note of the trace, after the record `r`. -/
def replay (r : ρ) (s : State) : State ρ := s.recording (s.trace.foldl Recorder.note r)

variable (r : ρ) (s : State)

@[simp] theorem offset_replay : (s.replay r).offset = s.offset := rfl
@[simp] theorem rest_replay : (s.replay r).rest = s.rest := rfl
@[simp] theorem next?_replay : (s.replay r).next? = s.next? := rfl
@[simp] theorem mode_replay : (s.replay r).mode = s.mode := rfl
@[simp] theorem pending_replay : (s.replay r).pending = s.pending := rfl
@[simp] theorem scopes_replay : (s.replay r).scopes = s.scopes := rfl
@[simp] theorem formula_replay : (s.replay r).formula = s.formula := rfl

theorem advance_replay (n : Nat) : (s.replay r).advance n = (s.advance n).replay r := rfl
theorem enter_replay (m : Mode) : (s.replay r).enter m = (s.enter m).replay r := rfl
theorem collect_replay (c : Char) : (s.replay r).collect c = (s.collect c).replay r := rfl

theorem note_replay (e : Entry) : (s.replay r).note e = (s.note e).replay r := by
  simp [replay, note, recording]

theorem emit_replay (t : Token) : (s.replay r).emit t = (s.emit t).replay r := note_replay r s _

theorem emitPending_replay (k : Kind) (u : Subkind) :
    (s.replay r).emitPending k u = (s.emitPending k u).replay r :=
  emit_replay r s.dropPending _

theorem flush_replay : (s.replay r).flush = s.flush.replay r := by
  unfold flush
  rw [pending_replay, emitPending_replay]
  split <;> rfl

theorem flushStray_replay (c : Char) : (s.replay r).flushStray c = (s.flushStray c).replay r := by
  unfold flushStray
  rw [pending_replay, offset_replay, note_replay, emitPending_replay]
  split <;> rfl

theorem openScope_replay (v : String) (k : Kind) :
    (s.replay r).openScope v k = (s.openScope v k).replay r :=
  note_replay r { s with scopes := s.scopes.push ⟨v, k, .start⟩ } _

theorem openPending_replay : (s.replay r).openPending = s.openPending.replay r :=
  openScope_replay r s.dropPending _ _

theorem closeScope_replay (c : Char) : (s.replay r).closeScope c = (s.closeScope c).replay r := by
  unfold closeScope
  rw [scopes_replay, offset_replay, note_replay]
  split
  · exact note_replay r { s.note (.unopened s.offset c) with scopes := s.scopes.pop } _
  · exact note_replay r { s with scopes := s.scopes.pop } _

theorem quotedStep_replay (quote c : Char) {closed : State → State} {closed' : State ρ → State ρ}
    (h : ∀ s : State, closed' (s.replay r) = (closed s).replay r) :
    (s.replay r).quotedStep quote c closed' = (s.quotedStep quote c closed).replay r := by
  unfold quotedStep
  rw [next?_replay, enter_replay, h]
  split
  · split <;> rfl
  · rfl

theorem bracketStep_replay (c : Char) : (s.replay r).bracketStep c = (s.bracketStep c).replay r := by
  unfold bracketStep
  split <;> rfl

theorem errorStep_replay (c : Char) : (s.replay r).errorStep c = (s.errorStep c).replay r := by
  unfold errorStep
  simp only [collect_replay, advance_replay, enter_replay, pending_replay, emitPending_replay]
  split <;> rfl

theorem codeStep_replay (c : Char) (rest : List Char) :
    (s.replay r).codeStep c rest = (s.codeStep c rest).replay r := by
  unfold codeStep
  simp only [pending_replay, scopes_replay, advance_replay, enter_replay, collect_replay, emit_replay,
    flush_replay, flushStray_replay, openScope_replay, openPending_replay, closeScope_replay]
  split
  · rfl
  · split
    case h_10 => split <;> rfl
    case h_13 =>
      split
      · rfl
      · split <;> rfl
    all_goals rfl

/-- A step with another record. -/
theorem step_replay : (s.replay r).step = s.step.replay r := by
  unfold step
  rw [rest_replay, mode_replay]
  split
  · rfl
  · split
    · exact codeStep_replay r s _ _
    · exact quotedStep_replay r s _ _ fun s => emitPending_replay r s _ _
    · exact quotedStep_replay r s _ _ fun _ => rfl
    · exact bracketStep_replay r s _
    · exact errorStep_replay r s _

theorem run_replay : (s.replay r).run = s.run.replay r := by
  induction s using run.induct with
  | case1 s h => rw [run_of_nil h, run_of_nil (s := s.replay r) h]
  | case2 s h ih => rw [run_of_ne_nil h, run_of_ne_nil (s := s.replay r) h, step_replay, ih]

/-- A whole scan with another record. -/
theorem finish_replay : (s.replay r).finish = s.finish.replay r := by
  rw [finish, finish, run_replay, flush_replay]

end Scan.State

/-! ## What an analyzer records -/

namespace Meter

/-- A token is logged only if tokens are to be logged. -/
theorem emit_eq (m : Meter) (offset : Nat) (t : Token) :
    m.emit offset t =
      { m.add t with
        journal := m.journal.reportAll
          (if m.preferences.tokenEvents then [tokenReport offset t] else []) } := by
  unfold emit
  split <;> rfl

/-- An analyzer counts and logs of an entry what is counted and reported of it in a trace. -/
theorem note_eq (m : Meter) (e : Entry) :
    m.note e =
      { m with
        tokens := m.tokens ++ e.token?.toList
        metrics := m.metrics.record m.preferences e
        journal := m.journal.reportAll (e.reports m.preferences) } := by
  cases e with
  | token offset t => exact m.emit_eq offset t
  | opened offset depth t =>
    simp only [note, emit_eq]
    rfl
  | closed _ => rfl
  | unopened _ _ => rfl
  | stray _ _ _ => rfl

/-- What an analyzer counts and logs of a trace. -/
theorem foldl_note (m : Meter) (trace : List Entry) :
    trace.foldl Recorder.note m =
      { m with
        tokens := m.tokens ++ tokensOf trace
        metrics := trace.foldl (Metrics.record m.preferences) m.metrics
        journal := m.journal.reportAll (trace.flatMap (Entry.reports m.preferences)) } := by
  induction trace generalizing m with
  | nil => simp
  | cons e trace ih =>
    have hnote : Recorder.note m e = m.note e := rfl
    rw [List.foldl_cons, hnote, ih, note_eq]
    simp only [tokensOf, List.filterMap_cons, List.foldl_cons, List.flatMap_cons,
      Log.Journal.reportAll_append]
    cases e.token? <;> simp

/-- What an analyzer logs at the end of a scan. -/
theorem complete_eq (m : Meter) (stop : Nat) (inError : Bool) :
    m.complete stop inError =
      { m with
        journal := m.journal.reportAll
          ((if inError then [unterminatedReport stop m.tokens.toList.getLast?] else []) ++
            [completeReport m.metrics inError]) } := by
  cases inError <;> rfl

end Meter

/-- What an analyzer hands on is what the scan finds; it counts and logs what the trace says. -/
theorem Analyzer.scan_eq (a : Analyzer) (j : Log.Journal) (formula : String) :
    a.scan j formula =
      ({ a with metrics := .ofTrace a.preferences (SheetFormula.scan formula).trace },
        j.reportAll ((SheetFormula.scan formula).reports a.preferences),
        { formula := (SheetFormula.scan formula).formula
          tokens := (SheetFormula.scan formula).tokens
          inError := (SheetFormula.scan formula).inError }) := by
  have hfinish : ∀ m : Meter, ((State.start formula).recording m).finish =
      (State.start formula).finish.replay m := fun m => State.finish_replay m (State.start formula)
  have htrace : ∀ m : Meter, ((State.start formula).finish.replay m).trace =
      (SheetFormula.scan formula).trace.foldl Recorder.note m := fun m => by
    simp [State.replay, State.recording, SheetFormula.scan]
  have hlength : (State.start formula).text.length = (SheetFormula.scan formula).formula.length := by
    rw [formula_scan, String.length_ofList]
  have htokens : ((#[] : Array Token) ++ tokensOf (SheetFormula.scan formula).trace).toList =
      (SheetFormula.scan formula).tokens := by
    simp [Result.tokens]
  simp only [scan, hfinish, htrace, hlength, Meter.foldl_note, Meter.complete_eq, State.formula_replay,
    State.mode_replay, State.offset_replay, htokens, Result.reports, Log.Journal.reportAll_cons,
    Log.Journal.reportAll_append]
  rfl

/-! ## What a parser makes of a formula -/

namespace Parser

/-- The parser after one more formula. -/
def next (p : Parser) (formula : String) : Parser where
  preferences := p.preferences
  count := p.count + 1
  last := SheetFormula.parse p.preferences formula

/-- What a parser makes of a formula, and what it logs in the meantime. -/
theorem parseLogged_eq (p : Parser) (j : Log.Journal) (formula : String) :
    p.parseLogged j formula =
      (p.next formula,
        ((j.enter formula (p.count + 1)).reportAll (parseReporting p.preferences formula).2).leave) := by
  simp only [parseLogged, Analyzer.scan_eq, Analyzer.takeMetrics, parseReporting,
    Log.Journal.reportAll_append]
  rfl

/-- What a formula adds to the events. -/
theorem events_parseLogged (p : Parser) (j : Log.Journal) (formula : String) :
    (p.parseLogged j formula).2.events.toList =
      j.events.toList ++
        (j.enter formula (p.count + 1)).delivered (parseReporting p.preferences formula).2 := by
  rw [parseLogged_eq]
  exact Log.Journal.events_reportAll _ _

/-- What a parser makes of a formula, and the events that a minimum level lets through. -/
theorem parse_eq (p : Parser) (min : Log.Level) (formula : String) :
    p.parse min formula =
      (p.next formula, Log.deliver min (some (.new formula (p.count + 1)))
        (parseReporting p.preferences formula).2) := by
  have hparser := congrArg Prod.fst (p.parseLogged_eq { logger := some min } formula)
  have hevents := p.events_parseLogged { logger := some min } formula
  exact Prod.ext hparser hevents

end Parser

/-! ## What is measured on request -/

/-- The metrics, without what is kept on request only. -/
def Metrics.basic (m : Metrics) : Metrics :=
  { m with maxScopeDepth := 0, kindCounts := .empty, operatorUsage := .empty }

/-- Nothing is measured on request, and no token is logged. -/
def ScanPreferences.nothing : ScanPreferences := { detailedMetrics := false }

theorem Metrics.basic_record (p : ScanPreferences) (m : Metrics) (e : Entry) :
    (m.record p e).basic = m.basic.record .nothing e := by
  cases e with
  | token _ _ => rfl
  | opened _ _ _ =>
    simp only [record]
    split <;> rfl
  | closed _ => rfl
  | unopened _ _ => rfl
  | stray _ _ _ => rfl

/-- What is always counted of a trace does not depend on the preferences. -/
theorem Metrics.basic_ofTrace (p : ScanPreferences) (trace : List Entry) :
    (ofTrace p trace).basic = ofTrace .nothing trace := by
  have hfoldl : ∀ m : Metrics,
      (trace.foldl (record p) m).basic = trace.foldl (record .nothing) m.basic := by
    induction trace with
    | nil => exact fun _ => rfl
    | cons e trace ih =>
      intro m
      rw [List.foldl_cons, List.foldl_cons, ih, basic_record]
  exact hfoldl {}

namespace Parsed

/-- The result, without what is measured on request only. -/
def basic (r : Parsed) : Parsed := { r with metrics := r.metrics.basic }

/-- Two results that differ in nothing but the deepest nesting and the two tables of counts. -/
structure Same (a b : Parsed) : Prop where
  formula : a.formula = b.formula
  raw : a.raw = b.raw
  tokens : a.tokens = b.tokens
  inError : a.inError = b.inError
  check : a.check = b.check
  render : a.render = b.render
  outline : a.outline = b.outline
  rawTokens : a.metrics.rawTokens = b.metrics.rawTokens
  finalTokens : a.metrics.finalTokens = b.metrics.finalTokens
  underflows : a.metrics.underflows = b.metrics.underflows
  unknownTokens : a.metrics.unknownTokens = b.metrics.unknownTokens
  whitespaceDropped : a.metrics.whitespaceDropped = b.metrics.whitespaceDropped
  intersectionsCreated : a.metrics.intersectionsCreated = b.metrics.intersectionsCreated
  noopsRemoved : a.metrics.noopsRemoved = b.metrics.noopsRemoved
  /-- Only these three may differ. -/
  others : ∃ depth kinds uses,
    b = { a with
      metrics :=
        { a.metrics with maxScopeDepth := depth, kindCounts := kinds, operatorUsage := uses } }

theorem same_of_basic_eq {a b : Parsed} (h : a.basic = b.basic) : a.Same b where
  formula := (congrArg formula h :)
  raw := (congrArg raw h :)
  tokens := (congrArg tokens h :)
  inError := (congrArg inError h :)
  check := (congrArg check h :)
  render := (congrArg render h :)
  outline := (congrArg outline h :)
  rawTokens := congrArg (·.metrics.rawTokens) h
  finalTokens := congrArg (·.metrics.finalTokens) h
  underflows := congrArg (·.metrics.underflows) h
  unknownTokens := congrArg (·.metrics.unknownTokens) h
  whitespaceDropped := congrArg (·.metrics.whitespaceDropped) h
  intersectionsCreated := congrArg (·.metrics.intersectionsCreated) h
  noopsRemoved := congrArg (·.metrics.noopsRemoved) h
  others := by
    refine ⟨b.metrics.maxScopeDepth, b.metrics.kindCounts, b.metrics.operatorUsage, ?_⟩
    simp only [basic, Metrics.basic, mk.injEq, Metrics.mk.injEq] at h
    cases b
    simp_all

end Parsed

/-- The result of a formula, without what is measured on request only. -/
theorem basic_parse (p : ScanPreferences) (formula : String) :
    (parse p formula).basic = parse .nothing formula := by
  have hmetrics : ((parse p formula).metrics).basic = (parse .nothing formula).metrics := by
    simp only [parse, parseReporting]
    rw [← Metrics.basic_ofTrace p]
    rfl
  rw [Parsed.basic, hmetrics]
  rfl

/-- The parser after some formulas, each of them given with the log as it was at the time. -/
def Parser.reuse (p : Parser) (history : List (Log.Journal × String)) : Parser :=
  history.foldl (fun p (j, formula) => (p.parseLogged j formula).1) p

/-- Preferences, log and history never change the result of a formula: whatever two parsers have worked
on before, and whatever they measure and log, they make the same of it, except for what is measured on
request only. -/
theorem Parser.same_result (a b : Parser) (history history' : List (Log.Journal × String))
    (j j' : Log.Journal) (formula : String) :
    ((a.reuse history).parseLogged j formula).1.last.Same
      ((b.reuse history').parseLogged j' formula).1.last := by
  rw [parseLogged_eq, parseLogged_eq]
  apply Parsed.same_of_basic_eq
  show (SheetFormula.parse _ formula).basic = (SheetFormula.parse _ formula).basic
  rw [basic_parse, basic_parse]

end SheetFormula
