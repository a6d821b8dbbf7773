import SheetFormula.Proofs.Ledger
import SheetFormula.Proofs.RecoveryLog

/-!
# The log of tokens

Where tokens are logged, a token is logged as it is put out, but a token that closes a scope is not: it
is put out on another path. So the log of a scan has the other tokens, each once, in order and with all
of its parts, and it is complete exactly if no character that closes a scope is met. Main statements:

* `Walk.announced`: the tokens that a trace logs are those that close no scope;
* `Act.stops`, `stops_scan`: the tokens that close a scope are put out where a character closes one;
* `unclosing_tokens_eq_iff`: so a scan logs all of its tokens exactly if no character closes a scope;
* `tokenEvents_deliver`: nothing else is logged under the message of tokens;
* `token_events`: so what the log of a scan has of its tokens, for every formula.
-/

namespace SheetFormula

open Scan Log

namespace Scan

/-! ## The tokens that are logged -/

/-- The token that an entry logs where tokens are logged, with its offset. -/
def Entry.announcement? : Entry → Option (Nat × Token)
  | .token offset t => some (offset, t)
  | .opened offset _ t => some (offset, t)
  | _ => none

/-- The tokens that a trace logs where tokens are logged, with their offsets. -/
def announcements (es : List Entry) : List (Nat × Token) := es.filterMap Entry.announcement?

/-- The tokens that close no scope. -/
def unclosing (ts : List Token) : List Token := ts.filter fun t => !t.isStop

variable {es new : List Entry} {σ τ : ScopeStack} {s : State}

theorem announcements_append (es es' : List Entry) :
    announcements (es ++ es') = announcements es ++ announcements es' :=
  List.filterMap_append

theorem announcements_closingEntries (σ : ScopeStack) (offset : Nat) (delimiter : Char) :
    announcements (closingEntries σ offset delimiter) = [] := by
  unfold closingEntries
  split <;> rfl

theorem isStop_of_isSimple {t : Token} (h : isSimple t = true) : t.isStop = false := by
  have hend := isScopeEnd_of_isSimple h
  rw [Token.isScopeEnd, Bool.or_eq_false_iff] at hend
  exact hend.2

theorem unclosing_singleton {t : Token} (h : t.isStop = false) : unclosing [t] = [t] := by
  simp [unclosing, h]

theorem unclosing_closing (hσ : Started σ) : unclosing [σ.closing] = [] := by
  simp [unclosing, hσ.isStop_closing]

/-- A move logs its tokens that close no scope. -/
theorem Move.announced (h : Move σ new τ) (hσ : Started σ) :
    (announcements new).map Prod.snd = unclosing (tokensOf new) := by
  cases h with
  | token _ hsimple => exact (unclosing_singleton (isStop_of_isSimple hsimple)).symm
  | comma _ => exact (unclosing_singleton (isStop_commaToken σ)).symm
  | stray _ _ _ => rfl
  | opened _ _ _ => exact (unclosing_singleton (by simp [Token.isStop])).symm
  | closed _ _ =>
    rw [announcements_closingEntries, tokensOf_closingEntries, unclosing_closing hσ]
    rfl
  | row _ _ =>
    have hrow : ∀ ts, unclosing (σ.closing :: ts) = unclosing ts := fun ts => by
      simp [unclosing, hσ.isStop_closing]
    rw [announcements_append, announcements_closingEntries, tokensOf_append, tokensOf_closingEntries,
      List.singleton_append, hrow]
    rfl

/-- The tokens that a walk logs are those that close no scope. -/
theorem Walk.announced (h : Walk es σ) :
    (announcements es).map Prod.snd = unclosing (tokensOf es) := by
  induction h with
  | nil => rfl
  | snoc hwalk hmove ih =>
    rw [announcements_append, List.map_append, ih, hmove.announced hwalk.started, tokensOf_append,
      unclosing, unclosing, unclosing, List.filter_append]

/-! ## The tokens that close a scope -/

/-- How many scopes the character met closes, open or not. -/
def State.closed (s : State) : Nat := s.met?.elim 0 closings

/-- A character closes no scope if it is none of those that close scopes. -/
theorem closings_eq_zero_iff {c : Char} : closings c = 0 ↔ c ∉ closingMarks := by
  constructor
  · intro h hc
    rcases List.mem_cons.1 hc with rfl | hc
    · cases h
    · rcases List.mem_pair.1 hc with rfl | rfl <;> cases h
  · intro h
    unfold closings
    split
    · exact absurd (by decide) h
    · exact absurd (by decide) h
    · exact absurd (by decide) h
    · rfl

theorem closed_of_met {c : Char} (hmet : s.met? = some c) : s.closed = closings c := by
  rw [State.closed, hmet, Option.elim_some]

theorem closed_eq_zero_iff : s.closed = 0 ↔ ∀ c ∈ s.met?, c ∉ closingMarks := by
  cases hmet : s.met? with
  | none => simp [State.closed, hmet]
  | some c => simp [closed_of_met hmet, closings_eq_zero_iff]

/-- How many of the tokens that some entries put out close a scope. -/
def stops (es : List Entry) : Nat := (tokensOf es).countP Token.isStop

theorem stops_append (es es' : List Entry) : stops (es ++ es') = stops es + stops es' := by
  rw [stops, tokensOf_append, List.countP_append]
  rfl

theorem stops_flushEntries (s : State) : stops s.flushEntries = 0 := by
  unfold State.flushEntries
  split <;> rfl

theorem stops_strayEntries (s : State) (c : Char) : stops (s.strayEntries c) = 0 := by
  unfold State.strayEntries
  split <;> rfl

theorem stops_closingEntries (hσ : Started σ) (offset : Nat) (delimiter : Char) :
    stops (closingEntries σ offset delimiter) = 1 := by
  rw [stops, tokensOf_closingEntries, List.countP_singleton, if_pos hσ.isStop_closing]

theorem Inner.stops {e : Entry} (h : Inner σ e) : stops [e] = 0 := by
  cases h with
  | token _ hsimple _ => simp [Scan.stops, isStop_of_isSimple hsimple]
  | comma _ => simp [Scan.stops, isStop_commaToken σ]

theorem stops_of_inner (h : ∀ e ∈ new, Inner σ e) : stops new = 0 := by
  induction new with
  | nil => rfl
  | cons e es ih =>
    rw [List.forall_mem_cons] at h
    rw [← List.singleton_append, stops_append, h.1.stops, ih h.2]

/-- An act puts out a token that closes a scope for each scope that its character closes. -/
theorem Act.stops (h : Act s new τ) (hσ : Started s.scopes) : stops new = s.closed := by
  cases h with
  | inner hmet hnew =>
    rw [stops_of_inner hnew, eq_comm, closed_eq_zero_iff]
    exact fun c hc => closings_eq_zero_iff.1 (closings_of_not_mem (hmet c hc).2)
  | stray hmet _ hscope =>
    rw [stops_strayEntries, closed_of_met hmet, closings_of_not_mem hscope]
  | array hmet =>
    rw [stops_append, stops_strayEntries, closed_of_met hmet]
    rfl
  | row hmet =>
    rw [stops_append, stops_append, stops_flushEntries, stops_closingEntries hσ, closed_of_met hmet]
    rfl
  | endArray hmet =>
    rw [stops_append, stops_append, stops_flushEntries, stops_closingEntries hσ,
      stops_closingEntries hσ.pop, closed_of_met hmet]
    rfl
  | group hmet =>
    have hopening : s.openingToken.isStop = false := by
      unfold State.openingToken
      split <;> rfl
    rw [closed_of_met hmet, Scan.stops, tokensOf_opened, tokensOf_nil, List.countP_singleton, hopening]
    rfl
  | endGroup hmet =>
    rw [stops_append, stops_flushEntries, stops_closingEntries hσ, closed_of_met hmet]
    rfl

/-- The tokens of a scan that close a scope are put out where a character closes one. -/
theorem stops_scan (formula : String) :
    stops (scan formula).trace = ((State.start formula).heads.map State.closed).sum := by
  have hflat : stops ((State.start formula).heads.flatMap State.entriesAt) =
      ((State.start formula).heads.map fun s => stops s.entriesAt).sum := by
    rw [stops, tokensOf, List.filterMap_flatMap, List.countP_flatMap]
    rfl
  rw [trace_scan, stops_append, stops_flushEntries, Nat.add_zero, hflat]
  refine congrArg List.sum (List.map_congr_left fun s hs => ?_)
  exact (State.stepped (State.rest_of_mem_heads hs)).act.stops (State.started_of_mem_heads hs)

/-- What a scan logs and what it does not are all of its tokens. -/
theorem length_unclosing_tokens (formula : String) :
    (unclosing (scan formula).tokens).length + ((State.start formula).heads.map State.closed).sum =
      (scan formula).tokens.length := by
  have hlength := List.length_eq_length_filter_add (l := (scan formula).tokens) Token.isStop
  rw [← stops_scan, stops, List.countP_eq_length_filter, Nat.add_comm]
  exact hlength.symm

/-- A scan logs all of its tokens if no character closes a scope, and only then. -/
theorem unclosing_tokens_eq_iff (formula : String) :
    unclosing (scan formula).tokens = (scan formula).tokens ↔
      ∀ s ∈ (State.start formula).heads, ∀ c ∈ s.met?, c ∉ closingMarks := by
  have hlength := length_unclosing_tokens formula
  have hsum : ((State.start formula).heads.map State.closed).sum = 0 ↔
      ∀ s ∈ (State.start formula).heads, ∀ c ∈ s.met?, c ∉ closingMarks := by
    rw [List.sum_eq_zero_iff_forall_eq_nat, List.forall_mem_map]
    exact forall₂_congr fun _ _ => closed_eq_zero_iff
  rw [← hsum]
  constructor
  · intro h
    rw [h] at hlength
    omega
  · intro h
    exact List.filter_sublist.eq_of_length (by rw [h] at hlength; exact hlength)

/-! ## What is reported of tokens -/

/-- The message under which tokens are logged. -/
def tokenMessage : String := "Token emitted"

/-- Of an entry its token is reported under the message of tokens, and nothing else is. -/
theorem filter_message_reports {p : ScanPreferences} (hp : p.tokenEvents = true) (e : Entry) :
    (e.reports p).filter (·.message = tokenMessage) =
      (e.announcement?.map fun a => tokenReport a.1 a.2).toList := by
  cases e <;> simp only [Entry.reports, hp] <;> rfl

/-- The tokens that a trace logs are reported under the message of tokens, and nothing else is. -/
theorem filter_tokenReports {p : ScanPreferences} (hp : p.tokenEvents = true) (r : Result) :
    (r.reports p).filter (·.message = tokenMessage) =
      (announcements r.trace).map fun a => tokenReport a.1 a.2 := by
  have htrace : (r.trace.flatMap (Entry.reports p)).filter (·.message = tokenMessage) =
      (announcements r.trace).map fun a => tokenReport a.1 a.2 := by
    rw [List.filter_flatMap, announcements, List.map_filterMap, List.filterMap_eq_flatMap_toList]
    exact List.flatMap_congr fun e _ => filter_message_reports hp e
  have herror : r.errorReports.filter (·.message = tokenMessage) = [] := by
    unfold Result.errorReports
    split <;> rfl
  have hstart : r.startReport.message ≠ tokenMessage :=
    show "Starting lexical analysis" ≠ tokenMessage by decide
  rw [Result.reports, List.filter_cons_of_neg (by rwa [decide_eq_true_iff]), List.filter_append, htrace,
    List.filter_append, herror, List.nil_append]
  exact List.append_nil _

end Scan

/-! ## The events of tokens -/

/-- An event has a text that need not be cut as its message if its report has. -/
theorem message_event_eq_iff (ctx : Option FormulaContext) (r : Report) {text : String}
    (htext : text.length < maxMessageLength) : (r.event ctx).message = text ↔ r.message = text := by
  have hcut : (r.event ctx).message = String.ofList (r.message.toList.take maxMessageLength) := by
    cases ctx <;> rfl
  rw [hcut]
  by_cases hlength : r.message.length ≤ maxMessageLength
  · rw [List.take_of_length_le hlength, String.ofList_toList]
  · refine iff_of_false (fun h => ?_) (fun h => ?_)
    · rw [← h, String.length_ofList, List.length_take] at htext
      have := String.length_toList (s := r.message)
      omega
    · rw [h] at hlength
      omega

/-- The event that logs a token, with all of its parts. -/
structure Announces (t : Token) (e : Event) : Prop where
  level : e.level = .debug
  message : e.message = tokenMessage
  value : e.context.get? "value" = some t.value
  kind : e.context.get? "type" = some t.kind.name
  subkind : e.context.get? "subtype" = some t.subkind.name

/-- The report of a token becomes the event that logs it, whatever formula is being worked on. -/
theorem announces_event (ctx : Option FormulaContext) (offset : Nat) (t : Token) :
    Announces t ((tokenReport offset t).event ctx) := by
  have hcontext : ∀ key, key ≠ "formula" → key ≠ "formula_id" →
      ((tokenReport offset t).event ctx).context.get? key =
        (SortedMap.ofList (tokenReport offset t).pairs).get? key := by
    intro key hformula hid
    cases ctx with
    | none => rfl
    | some ctx => exact context_event ctx _ hformula hid
  have hlevel : ((tokenReport offset t).event ctx).level = .debug := by
    cases ctx <;> rfl
  refine ⟨hlevel, (message_event_eq_iff ctx _ (by decide)).2 rfl, ?_, ?_, ?_⟩ <;>
    rw [hcontext _ (by decide) (by decide)] <;>
    simp [tokenReport, Report.withPairs, SortedMap.ofList, SortedMap.insertAll,
      SortedMap.get?_insert_of_ne]

/-- The events of tokens among those that are delivered of a scan. -/
theorem tokenEvents_deliver {p : ScanPreferences} (hp : p.tokenEvents = true) {min : Level}
    (hmin : min.admits .debug = true) (ctx : Option FormulaContext) (r : Result) :
    (deliver min ctx (r.reports p)).filter (·.message = tokenMessage) =
      (announcements r.trace).map fun a => (tokenReport a.1 a.2).event ctx := by
  have hmessage : ∀ r : Report, decide ((r.event ctx).message = tokenMessage) =
      decide (r.message = tokenMessage) := fun r =>
    decide_eq_decide.2 (message_event_eq_iff ctx r (by decide))
  have hadmitted : ∀ a ∈ announcements r.trace, min.admits (tokenReport a.1 a.2).level = true :=
    fun _ _ => hmin
  rw [deliver, List.filter_map, Function.comp_def, List.filter_congr fun r _ => hmessage r,
    List.filter_comm, filter_tokenReports hp, List.filter_map, Function.comp_def,
    List.filter_eq_self.2 hadmitted, List.map_map]
  rfl

/-! ## The log of a scan -/

/-- What the log of a scan has of its tokens: all but those that close a scope, each once and in order. -/
structure TokenLog (formula : String) (tokens : List Token) (events : List Event) : Prop where
  announced : List.Forall₂ Announces (unclosing tokens) events
  /-- What it lacks is what is put out where a character closes a scope. -/
  missing :
    events.length + ((State.start formula).heads.map State.closed).sum = tokens.length
  /-- It has all of them exactly if no character that closes a scope is met. -/
  complete : List.Forall₂ Announces tokens events ↔
    ∀ s ∈ (State.start formula).heads, ∀ c ∈ s.met?, c ∉ closingMarks

theorem tokenLog_scan (ctx : Option FormulaContext) (formula : String) :
    TokenLog formula (SheetFormula.scan formula).tokens
      ((announcements (SheetFormula.scan formula).trace).map fun a =>
        (tokenReport a.1 a.2).event ctx) := by
  have hannounced : List.Forall₂ Announces (unclosing (SheetFormula.scan formula).tokens)
      ((announcements (SheetFormula.scan formula).trace).map fun a =>
        (tokenReport a.1 a.2).event ctx) := by
    rw [Result.tokens, ← (walk_scan formula).announced, List.forall₂_map_left_iff,
      List.forall₂_map_right_iff, List.forall₂_same]
    exact fun a _ => announces_event ctx a.1 a.2
  refine ⟨hannounced, ?_, ?_⟩
  · rw [← hannounced.length_eq]
    exact length_unclosing_tokens formula
  · rw [← unclosing_tokens_eq_iff]
    constructor
    · intro h
      exact List.filter_sublist.eq_of_length (hannounced.length_eq.trans h.length_eq.symm)
    · intro h
      rwa [h] at hannounced

/-- A scan logs its tokens, where tokens are logged: all of them exactly if none closes a scope, and
otherwise all the others, each once, in order and with all of its parts. -/
theorem token_events (a : Analyzer) {j : Journal} {min : Level} (hlogger : j.logger = some min)
    (hmin : min.admits .debug = true) (hp : a.preferences.tokenEvents = true) (formula : String) :
    ∃ new, (a.scan j formula).2.1.events.toList = j.events.toList ++ new ∧
      TokenLog formula (a.scan j formula).2.2.tokens
        (new.filter (·.message = tokenMessage)) := by
  refine ⟨j.delivered ((SheetFormula.scan formula).reports a.preferences), ?_, ?_⟩
  · rw [Analyzer.scan_eq]
    exact j.events_reportAll _
  · have hdelivered : j.delivered ((SheetFormula.scan formula).reports a.preferences) =
        deliver min j.formula ((SheetFormula.scan formula).reports a.preferences) := by
      rw [Journal.delivered, hlogger]
    rw [hdelivered, tokenEvents_deliver hp hmin, Analyzer.scan_eq]
    exact tokenLog_scan j.formula formula

/-- An analyzer that logs tokens. -/
def announcer : Analyzer := { preferences := { tokenEvents := true } }

/-- A log for debugging, without events. -/
def debugLog : Journal := { logger := some .debug }

theorem token_events_sum :
    debugLog.logger = some .debug ∧ Level.debug.admits .debug = true ∧
      announcer.preferences.tokenEvents = true ∧
      ∃ new, (announcer.scan debugLog "=SUM(1,2)").2.1.events.toList =
          debugLog.events.toList ++ new ∧
        TokenLog "=SUM(1,2)" (announcer.scan debugLog "=SUM(1,2)").2.2.tokens
          (new.filter (·.message = tokenMessage)) :=
  ⟨rfl, rfl, rfl, token_events announcer rfl rfl rfl "=SUM(1,2)"⟩

/-- The end of a parenthesis is a token, but it is not logged. -/
theorem token_events_parenthesis :
    ¬List.Forall₂ Announces (announcer.scan debugLog "=()").2.2.tokens
      ((announcer.scan debugLog "=()").2.1.events.toList.filter (·.message = tokenMessage)) := by
  intro h
  have hlength := h.length_eq
  revert hlength
  decide +kernel

end SheetFormula
