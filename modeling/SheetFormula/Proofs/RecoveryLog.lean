import Mathlib.Data.List.Forall2
import SheetFormula.Proofs.Faults
import SheetFormula.Proofs.Recording

/-!
# The log of recoveries

Every recovery of a scan is logged exactly once, at the place of the fault. The events of a formula are
its reports, attributed to the formula; what is reported of a fault has the offset and the character of
the head where the fault is, so the warnings of a formula are those of its heads, in order, and one more
if the formula ends inside an error literal. Main statements:

* `filter_parseReporting`: what is reported of a formula, other than for debugging;
* `getElem?_parseAll`: the events of each of the formulas that a parser works on;
* `forall₂_strayWarning`, `forall₂_underflowWarning`, `unterminatedWarning_of_inError`: each fault is
  warned about once, and what each warning says;
* `pairwise_position_faults`: the warnings are in the order of their places;
* `recovery_log`: so every recovery is logged, by every parser.
-/

namespace SheetFormula

open Scan Log

/-! ## What is reported -/

namespace Scan

/-- What is reported of a recovery. -/
def Entry.report (e : Entry) : Report := (e.reports {}).headD (.debug "")

/-- A recovery is reported once, as a warning, and other entries are reported for debugging only. -/
theorem filter_reports (p : ScanPreferences) (e : Entry) :
    (e.reports p).filter (·.level ≠ .debug) = if e.isFault then [e.report] else [] := by
  cases e with
  | token _ _ => simp only [Entry.reports]; split <;> rfl
  | opened _ _ _ => simp only [Entry.reports]; split <;> rfl
  | closed _ => rfl
  | unopened _ _ => rfl
  | stray _ _ _ => rfl

theorem level_report {e : Entry} (h : e.isFault = true) : e.report.level = .warning := by
  cases e <;> first | rfl | cases h

/-- What is reported of the faults of a formula. -/
def faultReports (formula : String) : List Report :=
  ((State.start formula).heads.flatMap State.faults).map Entry.report

theorem filter_trace_reports (p : ScanPreferences) (formula : String) :
    ((scan formula).trace.flatMap (Entry.reports p)).filter (·.level ≠ .debug) =
      faultReports formula := by
  rw [List.filter_flatMap, faultReports, ← filter_isFault_trace, map_filter_eq_flatMap]
  exact List.flatMap_congr fun e _ => filter_reports p e

end Scan

/-- What is reported as each stage of the work on a formula is complete. -/
def completionReports (p : ScanPreferences) (formula : String) : List Report :=
  (scan formula).endReport p ::
    ((TokenList.ofList (scan formula).tokens).finalize.reports ++ [(parse p formula).report])

/-- What is reported of a formula, other than for debugging. -/
theorem filter_parseReporting (p : ScanPreferences) (formula : String) :
    (parseReporting p formula).2.filter (·.level ≠ .debug) =
      faultReports formula ++ (scan formula).errorReports ++ completionReports p formula := by
  have herror : (scan formula).errorReports.filter (·.level ≠ .debug) = (scan formula).errorReports := by
    unfold Result.errorReports
    split <;> rfl
  have hreports : (parseReporting p formula).2 =
      (scan formula).startReport :: ((scan formula).trace.flatMap (Entry.reports p) ++
        ((scan formula).errorReports ++ completionReports p formula)) := by
    simp [parseReporting, Result.reports, completionReports, parse]
  have hstart : (scan formula).startReport.level = .debug := rfl
  rw [hreports, List.filter_cons_of_neg (by simp [hstart]), List.filter_append, List.filter_append,
    filter_trace_reports, herror, ← List.append_assoc]
  rfl

theorem level_of_mem_errorReports {r : Scan.Result} {e : Report} (he : e ∈ r.errorReports) :
    e.level = .warning := by
  unfold Result.errorReports at he
  split at he
  · rw [List.mem_singleton.1 he]
    rfl
  · cases he

theorem level_of_mem_faultReports {formula : String} {e : Report} (he : e ∈ faultReports formula) :
    e.level = .warning := by
  rw [faultReports, ← filter_isFault_trace] at he
  obtain ⟨entry, hentry, rfl⟩ := List.mem_map.1 he
  exact level_report (List.mem_filter.1 hentry).2

theorem level_of_mem_completionReports {p : ScanPreferences} {formula : String} {e : Report}
    (he : e ∈ completionReports p formula) : e.level = .info := by
  simp only [completionReports, Stream.Final.reports, List.cons_append, List.nil_append, List.mem_cons,
    List.not_mem_nil, or_false] at he
  rcases he with rfl | rfl | rfl | rfl | rfl <;> rfl

/-- The reports of a formula of some levels, other than those for debugging. -/
theorem filter_level (p : ScanPreferences) (formula : String) {q : Level → Bool}
    (hq : q .debug = false) :
    (parseReporting p formula).2.filter (fun r => q r.level) =
      (if q .warning then faultReports formula ++ (scan formula).errorReports else []) ++
        if q .info then completionReports p formula else [] := by
  have hdebug : ∀ r : Report, (q r.level && decide (r.level ≠ .debug)) = q r.level := by
    intro r
    cases hr : r.level <;> simp [hq]
  have hconst : ∀ {rs : List Report} {l : Level}, (∀ r ∈ rs, r.level = l) →
      rs.filter (fun r => q r.level) = if q l then rs else [] := by
    intro rs l hrs
    rw [List.filter_congr fun r hr => congrArg q (hrs r hr)]
    cases q l <;> simp
  rw [← List.filter_congr fun r _ => hdebug r, ← List.filter_filter, filter_parseReporting,
    List.filter_append, hconst fun r => level_of_mem_completionReports,
    hconst fun r hr => (List.mem_append.1 hr).elim level_of_mem_faultReports level_of_mem_errorReports]

/-! ## Events -/

section Events

variable (ctx : FormulaContext) (r : Report)

/-- An event says which formula it is about. -/
theorem formulaId_event : (r.event (some ctx)).context.get? "formula_id" = some (toString ctx.id) :=
  SortedMap.get?_insert_self _ _ _

/-- The other texts of an event are those of its report. -/
theorem context_event {key : String} (hformula : key ≠ "formula") (hid : key ≠ "formula_id") :
    (r.event (some ctx)).context.get? key = (SortedMap.ofList r.pairs).get? key := by
  have hcontext : (r.event (some ctx)).context =
      ((SortedMap.ofList r.pairs).insert "formula" ctx.formula).insert "formula_id"
        (toString ctx.id) := rfl
  rw [hcontext, SortedMap.get?_insert_of_ne _ hid, SortedMap.get?_insert_of_ne _ hformula]

end Events

/-- The warnings among the events that are delivered of a formula. -/
theorem warnings_deliver {min : Level} (hmin : min.admits .warning = true) (ctx : Option FormulaContext)
    (p : ScanPreferences) (formula : String) :
    (deliver min ctx (parseReporting p formula).2).filter (·.level = .warning) =
      (faultReports formula ++ (scan formula).errorReports).map (Report.event ctx) := by
  have hlevel : ∀ r : Report, (r.event ctx).level = r.level := fun r => by cases ctx <;> rfl
  have hfilter := filter_level p formula (q := fun l => decide (l = .warning) && min.admits l) rfl
  rw [deliver, List.filter_map, List.filter_filter]
  simp only [Function.comp_def, hlevel]
  rw [hfilter]
  simp [hmin]

/-! ## Parsing one formula after the other -/

/-- The events of some formulas that a parser works on one after the other, formula by formula. -/
def Parser.parseAll (p : Parser) (min : Level) : List String → List (List Event)
  | [] => []
  | formula :: formulas =>
    (p.parse min formula).2 :: (p.parse min formula).1.parseAll min formulas

/-- The events of the formula after `n` others are attributed to it by its number. -/
theorem getElem?_parseAll (p : Parser) (min : Level) {formulas : List String} {n : Nat}
    {formula : String} (h : formulas[n]? = some formula) :
    (p.parseAll min formulas)[n]? =
      some (deliver min (some (.new formula (p.count + n + 1)))
        (parseReporting p.preferences formula).2) := by
  induction formulas generalizing p n with
  | nil => cases h
  | cons f fs ih =>
    cases n with
    | zero =>
      cases h
      rw [Parser.parseAll, List.getElem?_cons_zero, Parser.parse_eq]
    | succ n =>
      rw [List.getElem?_cons_succ] at h
      rw [Parser.parseAll, List.getElem?_cons_succ, ih _ h, Parser.parse_eq]
      have hcount : (p.next f).count + n + 1 = p.count + (n + 1) + 1 := by
        show p.count + 1 + n + 1 = _
        omega
      rw [hcount]
      rfl

/-! ## The warnings of a formula -/

/-- The character that is met at a head of a formula stands there in the normalized formula. -/
theorem formula_of_met {formula : String} {s : State} {c : Char} (hs : s ∈ (State.start formula).heads)
    (hmet : s.met? = some c) : (scan formula).formula.toList[s.offset]? = some c := by
  rw [formula_scan, String.toList_ofList]
  exact (State.located_of_mem_heads hs).met? hmet

/-- A scan ends at the end of the normalized formula. -/
theorem stop_scan (formula : String) : (scan formula).stop = (scan formula).formula.length := by
  have hstop : (scan formula).stop = (State.start formula).run.offset := by
    show (State.start formula).run.flush.offset = _
    rw [State.flush_eq]
  rw [hstop, State.offset_run, formula_scan, String.length_ofList]

/-- A warning about a delimiter that is met at a head of a formula. -/
structure DelimiterWarning (formula code : String) (delimiters : List Char) (s : State) (e : Event) :
    Prop where
  code : e.code.name = code
  head : s ∈ (State.start formula).heads
  position : e.position = some s.offset
  delimiter : ∃ c ∈ delimiters, s.met? = some c ∧
    (scan formula).formula.toList[s.offset]? = some c ∧
    e.context.get? "char" = some (String.singleton c)

/-- The warning that text is pending before a delimiter that cannot follow it. -/
structure StrayWarning (formula : String) (s : State) (e : Event) : Prop
    extends DelimiterWarning formula "E021" ['"', '\x27', '#', '\x7b'] s e where
  pending : e.context.get? "pending" = some s.pending

/-- The warning that a delimiter closes a scope and none is open. -/
def UnderflowWarning (formula : String) (s : State) (e : Event) : Prop :=
  DelimiterWarning formula "E022" [')', '\x7d', ';'] s e

/-- The warning that a formula ended inside an error literal, which is its last token. -/
structure UnterminatedWarning (formula : String) (t : Token) (e : Event) : Prop where
  code : e.code.name = "E020"
  last : (scan formula).tokens.getLast? = some t
  position : e.position = some (scan formula).formula.length
  literal : e.context.get? "literal" = some t.value

/-- The event of a report that has the offset of a head and the character that is met there. -/
theorem delimiterWarning_event {formula code : String} {s : State} {c : Char}
    {delimiters : List Char} (r : Report) (ctx : FormulaContext)
    (hs : s ∈ (State.start formula).heads) (hmet : s.met? = some c) (hc : c ∈ delimiters)
    (hcode : r.code.name = code) (hposition : r.position = some s.offset)
    (hchar : (SortedMap.ofList r.pairs).get? "char" = some (String.singleton c)) :
    DelimiterWarning formula code delimiters s (r.event (some ctx)) where
  code := hcode
  head := hs
  position := hposition
  delimiter := by
    refine ⟨c, hc, hmet, formula_of_met hs hmet, ?_⟩
    rw [context_event ctx r (by decide) (by decide), hchar]

theorem strayWarning_of_stranded {formula : String} {s : State} (hs : s ∈ (State.start formula).heads)
    (hstranded : s.stranded = true) (ctx : FormulaContext) :
    StrayWarning formula s (s.strayEntry.report.event (some ctx)) := by
  obtain ⟨c, hc, hmet⟩ := met_of_stranded hstranded
  have hpairs : s.strayEntry.report.pairs = [("char", String.singleton c), ("pending", s.pending)] := by
    rw [State.strayEntry, hmet]
    rfl
  refine ⟨delimiterWarning_event s.strayEntry.report ctx hs hmet hc rfl rfl ?_, ?_⟩
  · rw [hpairs]
    simp [SortedMap.ofList, SortedMap.insertAll, SortedMap.get?_insert_of_ne]
  · rw [context_event ctx _ (by decide) (by decide), hpairs]
    simp [SortedMap.ofList, SortedMap.insertAll]

theorem underflowWarning_of_missing {formula : String} {s : State} (hs : s ∈ (State.start formula).heads)
    (hmissing : 0 < s.missing) (ctx : FormulaContext) :
    UnderflowWarning formula s (s.unopenedEntry.report.event (some ctx)) := by
  obtain ⟨c, hc, hmet⟩ := met_of_missing hmissing
  have hpairs : s.unopenedEntry.report.pairs = [("char", String.singleton c)] := by
    rw [State.unopenedEntry, hmet]
    rfl
  refine delimiterWarning_event s.unopenedEntry.report ctx hs hmet hc rfl rfl ?_
  rw [hpairs]
  simp [SortedMap.ofList, SortedMap.insertAll]

/-- The report of a formula that ends inside an error literal. -/
theorem unterminatedWarning_of_inError {formula : String} (h : (scan formula).inError = true)
    (ctx : FormulaContext) :
    ∃ t e, (scan formula).errorReports.map (Report.event (some ctx)) = [e] ∧
      UnterminatedWarning formula t e := by
  obtain ⟨ts, value, htokens⟩ := scan_inError h
  have hlast : (scan formula).tokens.getLast? = some ⟨value, .operand, .plain⟩ := by
    rw [htokens, List.getLast?_concat]
  have hposition := congrArg some (stop_scan formula)
  refine ⟨_, _, by rw [Result.errorReports, if_pos h]; rfl, rfl, hlast, hposition, ?_⟩
  rw [context_event ctx _ (by decide) (by decide), hlast]
  simp [unterminatedReport, SortedMap.ofList, SortedMap.insertAll]

theorem position_of_mem_faults {s : State} {e : Entry} (he : e ∈ s.faults) :
    e.report.position = some s.offset := by
  rcases eq_of_mem_faults he with rfl | rfl <;> rfl

/-- The faults of a formula are in the order of their places. -/
theorem pairwise_position_faults (formula : String) :
    ((State.start formula).heads.flatMap State.faults).Pairwise fun a b =>
      ∃ i j, a.report.position = some i ∧ b.report.position = some j ∧ i ≤ j := by
  rw [List.pairwise_flatMap]
  refine ⟨fun s _ => List.pairwise_of_forall_mem_list fun a ha b hb => ?_, ?_⟩
  · exact ⟨_, _, position_of_mem_faults ha, position_of_mem_faults hb, Nat.le_refl _⟩
  · refine (State.pairwise_offset_heads _).imp fun hlt a ha b hb => ?_
    exact ⟨_, _, position_of_mem_faults ha, position_of_mem_faults hb, Nat.le_of_lt hlt⟩

/-- What the log has of a formula: the warnings about its faults, in the order of their places, one more
if it ends inside an error literal, and nothing else but completions and debugging. -/
structure RecoveryLog (p : ScanPreferences) (min : Level) (formula : String) (id : Nat)
    (events faults unterminated : List Event) : Prop where
  warnings : events.filter (·.level = .warning) = faults ++ unterminated
  attributed : ∀ e ∈ events, e.context.get? "formula_id" = some (toString id)
  sorts : ∀ e ∈ faults, e.code.name = "E021" ∨ e.code.name = "E022"
  /-- The unknown tokens are the texts that are stranded before a delimiter. -/
  unknowns : (parse p formula).raw.filter (·.kind = .unknown) =
    ((State.start formula).heads.filter State.stranded).map fun s => ⟨s.pending, .unknown, .plain⟩
  /-- Each of these texts is reported once, at its delimiter. -/
  strays : List.Forall₂ (StrayWarning formula) ((State.start formula).heads.filter State.stranded)
    (faults.filter (·.code.name = "E021"))
  /-- Each scope that a delimiter closes beyond those that are open is reported once. -/
  underflows : List.Forall₂ (UnderflowWarning formula)
    ((State.start formula).heads.flatMap fun s => List.replicate s.missing s)
    (faults.filter (·.code.name = "E022"))
  counted : (faults.filter (·.code.name = "E022")).length = (parse p formula).metrics.underflows
  ordered : faults.Pairwise fun a b => ∃ i j, a.position = some i ∧ b.position = some j ∧ i ≤ j
  ending : if (parse p formula).inError then
      ∃ t e, unterminated = [e] ∧ UnterminatedWarning formula t e
    else unterminated = []
  /-- At the level of warnings there is nothing else. -/
  atWarning : min = .warning → events = faults ++ unterminated
  /-- At the level above, each stage is reported complete after that. -/
  atInfo : min = .info → ∃ completions, events = faults ++ unterminated ++ completions ∧
    completions.map (·.code.name) = ["I020", "I021", "I022", "I023", "I024"]

/-- The events of the warnings about the faults of a formula. -/
def faultEvents (ctx : FormulaContext) (formula : String) : List Event :=
  (faultReports formula).map (Report.event (some ctx))

theorem filter_faultEvents (ctx : FormulaContext) (formula : String) {q : Entry → Bool} {name : String}
    (hq : ∀ s : State, ∀ e ∈ s.faults, decide (e.report.code.name = name) = q e) :
    (faultEvents ctx formula).filter (·.code.name = name) =
      (((State.start formula).heads.flatMap State.faults).filter q).map fun e =>
        e.report.event (some ctx) := by
  rw [faultEvents, faultReports, List.map_map, List.filter_map]
  refine congrArg (List.map _) (List.filter_congr fun e he => ?_)
  obtain ⟨s, -, he⟩ := List.mem_flatMap.1 he
  exact hq s e he

/-- The warnings about stranded texts are those about the heads where they are stranded. -/
theorem strays_faultEvents (ctx : FormulaContext) (formula : String) :
    (faultEvents ctx formula).filter (·.code.name = "E021") =
      ((State.start formula).heads.filter State.stranded).map fun s =>
        s.strayEntry.report.event (some ctx) := by
  have hcode : ∀ s : State, ∀ e ∈ s.faults, decide (e.report.code.name = "E021") = e.isStray := by
    intro s e he
    rcases eq_of_mem_faults he with rfl | rfl <;> rfl
  rw [filter_faultEvents ctx formula hcode, filter_isStray_faults, List.map_map]
  rfl

/-- The warnings about missing scopes are those about the heads where they are missing. -/
theorem underflows_faultEvents (ctx : FormulaContext) (formula : String) :
    (faultEvents ctx formula).filter (·.code.name = "E022") =
      ((State.start formula).heads.flatMap fun s => List.replicate s.missing s).map fun s =>
        s.unopenedEntry.report.event (some ctx) := by
  have hcode : ∀ s : State, ∀ e ∈ s.faults, decide (e.report.code.name = "E022") = e.isUnopened := by
    intro s e he
    rcases eq_of_mem_faults he with rfl | rfl <;> rfl
  rw [filter_faultEvents ctx formula hcode, filter_isUnopened_faults, List.map_map]
  rfl

theorem code_of_mem_faultEvents {ctx : FormulaContext} {formula : String} {e : Event}
    (he : e ∈ faultEvents ctx formula) : e.code.name = "E021" ∨ e.code.name = "E022" := by
  obtain ⟨r, hr, rfl⟩ := List.mem_map.1 he
  obtain ⟨entry, hentry, rfl⟩ := List.mem_map.1 hr
  obtain ⟨s, -, hfault⟩ := List.mem_flatMap.1 hentry
  rcases eq_of_mem_faults hfault with rfl | rfl
  · exact .inl rfl
  · exact .inr rfl

/-- Each text that is stranded in a formula is warned about once, in order. -/
theorem forall₂_strayWarning (ctx : FormulaContext) (formula : String) :
    List.Forall₂ (StrayWarning formula) ((State.start formula).heads.filter State.stranded)
      ((faultEvents ctx formula).filter (·.code.name = "E021")) := by
  rw [strays_faultEvents, List.forall₂_map_right_iff, List.forall₂_same]
  intro s hs
  obtain ⟨hs, hstranded⟩ := List.mem_filter.1 hs
  exact strayWarning_of_stranded hs hstranded ctx

/-- Each missing scope of a formula is warned about once, in order. -/
theorem forall₂_underflowWarning (ctx : FormulaContext) (formula : String) :
    List.Forall₂ (UnderflowWarning formula)
      ((State.start formula).heads.flatMap fun s => List.replicate s.missing s)
      ((faultEvents ctx formula).filter (·.code.name = "E022")) := by
  rw [underflows_faultEvents, List.forall₂_map_right_iff, List.forall₂_same]
  intro s hs
  obtain ⟨t, ht, hmissing⟩ := List.mem_flatMap.1 hs
  obtain ⟨hne, rfl⟩ := List.mem_replicate.1 hmissing
  exact underflowWarning_of_missing ht (Nat.pos_of_ne_zero hne) ctx

/-- What is delivered of a formula while it is being worked on is its log. -/
theorem recoveryLog_deliver {min : Level} (hmin : min.admits .warning = true) (p : ScanPreferences)
    (formula : String) (id : Nat) :
    RecoveryLog p min formula id
      (deliver min (some (.new formula id)) (parseReporting p formula).2)
      (faultEvents (.new formula id) formula)
      ((scan formula).errorReports.map (Report.event (some (.new formula id)))) where
  warnings := by
    rw [warnings_deliver hmin, List.map_append]
    rfl
  attributed e he := by
    obtain ⟨r, -, rfl⟩ := List.mem_map.1 he
    exact formulaId_event (.new formula id) r
  sorts _ := code_of_mem_faultEvents
  unknowns := unknowns_tokens formula
  strays := forall₂_strayWarning _ formula
  underflows := forall₂_underflowWarning _ formula
  counted := by rw [underflows_faultEvents, List.length_map, underflows_parse, countP_isUnopened_trace]
  ordered := by
    rw [faultEvents, faultReports, List.map_map, List.pairwise_map]
    exact pairwise_position_faults formula
  ending := by
    split
    · rename_i h
      exact unterminatedWarning_of_inError h _
    · rename_i h
      rw [Result.errorReports, if_neg (show ¬(scan formula).inError = true from h), List.map_nil]
  atWarning := by
    rintro rfl
    rw [deliver, filter_level _ _ rfl, faultEvents, ← List.map_append]
    exact congrArg (List.map _) (List.append_nil _)
  atInfo := by
    rintro rfl
    refine ⟨(completionReports p formula).map (Report.event (some (.new formula id))), ?_, rfl⟩
    rw [deliver, filter_level _ _ rfl, faultEvents, ← List.map_append, ← List.map_append]
    rfl

/-- Every recovery is logged once and at its place, by every parser that works on some formulas one after
the other with a log that lets warnings through. -/
theorem recovery_log (p : Parser) {min : Level} (hmin : min.admits .warning = true)
    {formulas : List String} {n : Nat} {formula : String} (hn : formulas[n]? = some formula) :
    ∃ events faults unterminated, (p.parseAll min formulas)[n]? = some events ∧
      RecoveryLog p.preferences min formula (p.count + n + 1) events faults unterminated :=
  ⟨_, _, _, getElem?_parseAll p min hn, recoveryLog_deliver hmin p.preferences formula _⟩

theorem recovery_log_second :
    Level.info.admits .warning = true ∧ ["=1)", "=A1\"x\")\x7d#DI"][1]? = some "=A1\"x\")\x7d#DI" ∧
      ∃ events faults unterminated,
        (({} : Parser).parseAll .info ["=1)", "=A1\"x\")\x7d#DI"])[1]? = some events ∧
          RecoveryLog {} .info "=A1\"x\")\x7d#DI" 2 events faults unterminated :=
  ⟨rfl, rfl, recovery_log {} rfl rfl⟩

end SheetFormula
