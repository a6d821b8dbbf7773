import Mathlib.Data.List.Basic
import SheetFormula.Proofs.ScanHeads
import SheetFormula.Proofs.StructureCheck

/-!
# The faults of a formula

A scan recovers from two faults: text stands before a delimiter that cannot follow it, and a scope is
closed where none is open. Both can be told from the head where they happen, by the character that is
met, the pending text and the number of open scopes (`State.faults`), so the recoveries that a trace
records are the faults of its heads. Main statements:

* `Act.filter_isFault`: an act records the faults of its head, and no others;
* `filter_isFault_trace`: so does a scan;
* `unknowns_tokens`: the unknown tokens of a scan are the stranded texts of its heads;
* `countP_isUnopened_trace`: the underflows of a scan are the closings that its heads lack a scope for.
-/

namespace SheetFormula.Scan

/-- The entry records a recovery from a fault of the formula. -/
def Entry.isFault : Entry → Bool
  | .stray _ _ _ => true
  | .unopened _ _ => true
  | _ => false

/-- Pending text was put out before a delimiter that cannot follow it. -/
def Entry.isStray : Entry → Bool
  | .stray _ _ _ => true
  | _ => false

/-- The characters that close scopes outside the literals. -/
def closingMarks : List Char := [')', '\x7d', ';']

/-- How many scopes a character closes outside the literals. -/
def closings (c : Char) : Nat :=
  match c with
  | ')' => 1
  | ';' => 1
  | '\x7d' => 2
  | _ => 0

namespace State

/-- Text is pending before a character that cannot follow it. -/
def stranded (s : State) : Bool := s.met?.any (· ∈ strayMarks) && s.pending ≠ ""

/-- How many scopes the character met closes beyond those that are open. -/
def missing (s : State) : Nat := s.met?.elim 0 closings - s.scopes.depth

/-- The recovery from a text that is stranded at a head. -/
def strayEntry (s : State) : Entry := .stray s.offset (s.met?.getD ' ') s.pending

/-- The recovery from a scope that is missing at a head. -/
def unopenedEntry (s : State) : Entry := .unopened s.offset (s.met?.getD ' ')

/-- The recoveries from the faults at a head. -/
def faults (s : State) : List Entry :=
  (if s.stranded then [s.strayEntry] else []) ++ List.replicate s.missing s.unopenedEntry

end State

variable {s : State} {new : List Entry} {τ : ScopeStack}

theorem eq_of_mem_faults {e : Entry} (he : e ∈ s.faults) : e = s.strayEntry ∨ e = s.unopenedEntry := by
  rw [State.faults, List.mem_append, List.mem_replicate] at he
  refine he.imp (fun h => ?_) fun h => h.2
  split at h
  · exact List.mem_singleton.1 h
  · cases h

/-- A text is stranded before a character that is met. -/
theorem met_of_stranded (h : s.stranded = true) : ∃ c ∈ strayMarks, s.met? = some c := by
  rw [State.stranded, Bool.and_eq_true] at h
  cases hc : s.met? with
  | none => simp [hc] at h
  | some c => exact ⟨c, by simpa [hc] using h.1, rfl⟩

/-- A scope is missing where a closing character is met. -/
theorem met_of_missing (h : 0 < s.missing) : ∃ c ∈ closingMarks, s.met? = some c := by
  rw [State.missing] at h
  cases hc : s.met? with
  | none => simp [hc] at h
  | some c =>
    refine ⟨c, ?_, rfl⟩
    rw [hc, Option.elim_some] at h
    unfold closings at h
    split at h
    · decide
    · decide
    · decide
    · simp at h

theorem filter_isFault_flushEntries (s : State) : s.flushEntries.filter Entry.isFault = [] := by
  unfold State.flushEntries
  split <;> rfl

theorem filter_isFault_closingEntries (σ : ScopeStack) (offset : Nat) (c : Char) :
    (closingEntries σ offset c).filter Entry.isFault =
      List.replicate (1 - σ.depth) (.unopened offset c) := by
  unfold closingEntries
  split
  · rename_i h
    rw [(σ.isEmpty_iff_depth).1 h]
    rfl
  · rename_i h
    rw [Bool.not_eq_true, σ.isEmpty_eq_false_iff_depth] at h
    rw [Nat.sub_eq_zero_of_le h]
    rfl

theorem Inner.isFault {σ : ScopeStack} {e : Entry} (h : Inner σ e) : e.isFault = false := by
  cases h <;> rfl

theorem filter_isFault_strayEntries (s : State) (c : Char) :
    (s.strayEntries c).filter Entry.isFault =
      if s.pending = "" then [] else [.stray s.offset c s.pending] := by
  unfold State.strayEntries
  split <;> rfl

theorem closings_of_not_mem {c : Char} (h : c ∉ scopeMarks) : closings c = 0 := by
  unfold closings
  split
  · exact absurd (by decide) h
  · exact absurd (by decide) h
  · exact absurd (by decide) h
  · rfl

/-- The faults at a head where a character is met. -/
theorem faults_of_met {c : Char} (hmet : s.met? = some c) :
    s.faults = (if c ∈ strayMarks ∧ s.pending ≠ "" then [.stray s.offset c s.pending] else []) ++
      List.replicate (closings c - s.scopes.depth) (.unopened s.offset c) := by
  simp [State.faults, State.strayEntry, State.unopenedEntry, State.stranded, State.missing, hmet]

/-- Where a character that can only strand text is met. -/
theorem faults_of_mem_strayMarks {c : Char} (hmet : s.met? = some c) (hc : c ∈ strayMarks)
    (hclosings : closings c = 0) :
    s.faults = if s.pending = "" then [] else [.stray s.offset c s.pending] := by
  rw [faults_of_met hmet, hclosings, Nat.zero_sub, List.replicate_zero, List.append_nil]
  by_cases hpending : s.pending = "" <;> simp [hc, hpending]

/-- Where a character that can only close scopes is met. -/
theorem faults_of_not_mem_strayMarks {c : Char} (hmet : s.met? = some c) (hc : c ∉ strayMarks) :
    s.faults = List.replicate (closings c - s.scopes.depth) (.unopened s.offset c) := by
  rw [faults_of_met hmet, if_neg fun h => hc h.1, List.nil_append]

/-- An act records the faults of its head, and no others. -/
theorem Act.filter_isFault (h : Act s new τ) : new.filter Entry.isFault = s.faults := by
  cases h with
  | inner hmet hnew =>
    have hnone : new.filter Entry.isFault = [] := by
      rw [List.filter_eq_nil_iff]
      exact fun e he => by simp [(hnew e he).isFault]
    rw [hnone]
    cases hc : s.met? with
    | none => simp [State.faults, State.stranded, State.missing, hc]
    | some c =>
      obtain ⟨hstray, hscope⟩ := hmet c hc
      rw [faults_of_not_mem_strayMarks hc hstray, closings_of_not_mem hscope, Nat.zero_sub]
      rfl
  | stray hmet hc hscope =>
    rw [filter_isFault_strayEntries, faults_of_mem_strayMarks hmet hc (closings_of_not_mem hscope)]
  | array hmet =>
    rw [List.filter_append, filter_isFault_strayEntries, faults_of_mem_strayMarks hmet (by decide) rfl]
    exact List.append_nil _
  | row hmet =>
    rw [List.filter_append, List.filter_append, filter_isFault_flushEntries,
      filter_isFault_closingEntries, faults_of_not_mem_strayMarks hmet (by decide)]
    exact List.append_nil _
  | endArray hmet =>
    rw [List.filter_append, List.filter_append, filter_isFault_flushEntries,
      filter_isFault_closingEntries, filter_isFault_closingEntries,
      faults_of_not_mem_strayMarks hmet (by decide), List.nil_append, List.replicate_append_replicate,
      ScopeStack.depth_pop]
    congr 1
    show _ = 2 - s.scopes.depth
    omega
  | group hmet =>
    have hnone : closings '(' - s.scopes.depth = 0 := Nat.zero_sub _
    rw [faults_of_not_mem_strayMarks hmet (by decide), hnone]
    rfl
  | endGroup hmet =>
    rw [List.filter_append, filter_isFault_flushEntries, filter_isFault_closingEntries,
      faults_of_not_mem_strayMarks hmet (by decide)]
    rfl

/-! ## Unknown tokens -/

/-- The unknown ones among some tokens. -/
def unknowns (ts : List Token) : List Token := ts.filter (·.kind = .unknown)

@[simp] theorem unknowns_append (ts us : List Token) :
    unknowns (ts ++ us) = unknowns ts ++ unknowns us :=
  List.filter_append ..

theorem unknowns_singleton_of_ne {t : Token} (h : t.kind ≠ .unknown) : unknowns [t] = [] := by
  simp [unknowns, h]

theorem unknowns_flushEntries (s : State) : unknowns (tokensOf s.flushEntries) = [] := by
  unfold State.flushEntries
  split <;> rfl

theorem unknowns_closingEntries {σ : ScopeStack} (hσ : Started σ) (offset : Nat) (c : Char) :
    unknowns (tokensOf (closingEntries σ offset c)) = [] := by
  have hscope := hσ.isScope_closing
  rw [tokensOf_closingEntries]
  refine unknowns_singleton_of_ne fun hkind => ?_
  rw [hkind] at hscope
  cases hscope

theorem Inner.unknowns {σ : ScopeStack} {e : Entry} (h : Inner σ e) : unknowns (tokensOf [e]) = [] := by
  cases h with
  | token _ _ hk => exact unknowns_singleton_of_ne (beq_eq_false_iff_ne.1 hk)
  | comma _ =>
    rcases commaToken_cases σ with h | h <;> rw [tokensOf_token, h] <;> rfl

theorem unknowns_of_inner {σ : ScopeStack} (h : ∀ e ∈ new, Inner σ e) :
    unknowns (tokensOf new) = [] := by
  induction new with
  | nil => rfl
  | cons e es ih =>
    rw [List.forall_mem_cons] at h
    rw [← List.singleton_append, tokensOf_append, unknowns_append, h.1.unknowns, ih h.2, List.append_nil]

theorem unknowns_strayEntries (s : State) (c : Char) :
    unknowns (tokensOf (s.strayEntries c)) =
      if s.pending = "" then [] else [⟨s.pending, .unknown, .plain⟩] := by
  unfold State.strayEntries
  split <;> rfl

theorem stranded_of_met {c : Char} (hmet : s.met? = some c) :
    s.stranded = (decide (c ∈ strayMarks) && decide (s.pending ≠ "")) := by
  simp [State.stranded, hmet]

/-- An act puts out the text that is stranded at its head as unknown, and no other token. -/
theorem Act.unknowns (h : Act s new τ) (hσ : Started s.scopes) :
    unknowns (tokensOf new) = if s.stranded then [⟨s.pending, .unknown, .plain⟩] else [] := by
  have hnot : ∀ c, s.met? = some c → c ∉ strayMarks → s.stranded = false := by
    intro c hmet hc
    rw [stranded_of_met hmet, decide_eq_false hc, Bool.false_and]
  have hstray : ∀ c, s.met? = some c → c ∈ strayMarks →
      Scan.unknowns (tokensOf (s.strayEntries c)) =
        if s.stranded then [⟨s.pending, .unknown, .plain⟩] else [] := by
    intro c hmet hc
    rw [unknowns_strayEntries, stranded_of_met hmet, decide_eq_true hc, Bool.true_and]
    split <;> simp_all
  cases h with
  | inner hmet hnew =>
    have hstranded : s.stranded = false := by
      cases hc : s.met? with
      | none => rw [State.stranded, hc]; rfl
      | some c => exact hnot c hc (hmet c hc).1
    rw [unknowns_of_inner hnew, hstranded]
    rfl
  | stray hmet hc hscope => exact hstray _ hmet hc
  | array hmet =>
    rw [tokensOf_append, unknowns_append, hstray _ hmet (by decide)]
    exact List.append_nil _
  | row hmet =>
    rw [tokensOf_append, tokensOf_append, unknowns_append, unknowns_append, unknowns_flushEntries,
      unknowns_closingEntries hσ, hnot _ hmet (by decide)]
    rfl
  | endArray hmet =>
    rw [tokensOf_append, tokensOf_append, unknowns_append, unknowns_append, unknowns_flushEntries,
      unknowns_closingEntries hσ, unknowns_closingEntries hσ.pop, hnot _ hmet (by decide)]
    rfl
  | group hmet =>
    rw [tokensOf_opened, tokensOf_nil, hnot _ hmet (by decide)]
    refine unknowns_singleton_of_ne ?_
    unfold State.openingToken
    split <;> nofun
  | endGroup hmet =>
    rw [tokensOf_append, unknowns_append, unknowns_flushEntries, unknowns_closingEntries hσ,
      hnot _ hmet (by decide)]
    rfl

/-! ## The faults of a whole scan -/

/-- The recoveries of a scan are the faults of its heads. -/
theorem filter_isFault_trace (formula : String) :
    (scan formula).trace.filter Entry.isFault = (State.start formula).heads.flatMap State.faults := by
  rw [trace_scan, List.filter_append, filter_isFault_flushEntries, List.append_nil, List.filter_flatMap]
  exact List.flatMap_congr fun t ht => (State.stepped (State.rest_of_mem_heads ht)).act.filter_isFault

theorem map_filter_eq_flatMap {α β : Type} (p : α → Bool) (g : α → β) (l : List α) :
    (l.filter p).map g = l.flatMap fun a => if p a then [g a] else [] := by
  induction l with
  | nil => rfl
  | cons a l ih =>
    rw [List.flatMap_cons, ← ih, List.filter_cons]
    split <;> rfl

/-- The unknown tokens of a scan are the texts that are stranded at its heads. -/
theorem unknowns_tokens (formula : String) :
    unknowns (scan formula).tokens =
      ((State.start formula).heads.filter State.stranded).map fun t =>
        ⟨t.pending, .unknown, .plain⟩ := by
  have hflat : unknowns (tokensOf ((State.start formula).heads.flatMap State.entriesAt)) =
      (State.start formula).heads.flatMap fun t => unknowns (tokensOf t.entriesAt) := by
    simp only [unknowns, tokensOf, List.filterMap_flatMap, List.filter_flatMap]
  show unknowns (tokensOf (scan formula).trace) = _
  rw [trace_scan, tokensOf_append, unknowns_append, unknowns_flushEntries, List.append_nil, hflat,
    map_filter_eq_flatMap]
  exact List.flatMap_congr fun t ht =>
    (State.stepped (State.rest_of_mem_heads ht)).act.unknowns (State.started_of_mem_heads ht)

/-- The strays among the faults of some heads. -/
theorem filter_isStray_faults (heads : List State) :
    (heads.flatMap State.faults).filter Entry.isStray =
      (heads.filter State.stranded).map State.strayEntry := by
  rw [List.filter_flatMap, map_filter_eq_flatMap]
  refine List.flatMap_congr fun t _ => ?_
  rw [State.faults, List.filter_append, List.filter_replicate]
  split <;> simp [State.strayEntry, State.unopenedEntry, Entry.isStray]

/-- The closings without a scope among the faults of some heads. -/
theorem filter_isUnopened_faults (heads : List State) :
    (heads.flatMap State.faults).filter Entry.isUnopened =
      (heads.flatMap fun t => List.replicate t.missing t).map State.unopenedEntry := by
  rw [List.filter_flatMap, List.map_flatMap]
  refine List.flatMap_congr fun t _ => ?_
  rw [State.faults, List.filter_append, List.filter_replicate, List.map_replicate]
  split <;> simp [State.strayEntry, State.unopenedEntry, Entry.isUnopened]

/-- The underflows of a scan are the closings that its heads lack a scope for. -/
theorem countP_isUnopened_trace (formula : String) :
    (scan formula).trace.countP Entry.isUnopened =
      ((State.start formula).heads.flatMap fun t => List.replicate t.missing t).length := by
  have hfault : ∀ e : Entry, (e.isUnopened && e.isFault) = e.isUnopened := fun e => by cases e <;> rfl
  have hfilter : ((scan formula).trace.filter Entry.isFault).filter Entry.isUnopened =
      (scan formula).trace.filter Entry.isUnopened := by
    rw [List.filter_filter]
    exact List.filter_congr fun e _ => hfault e
  rw [List.countP_eq_length_filter, ← hfilter, filter_isFault_trace, filter_isUnopened_faults,
    List.length_map]

end SheetFormula.Scan
