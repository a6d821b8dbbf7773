import SheetFormula.Proofs.ScanWalk

/-!
# Where a scan does what it does

A run takes its steps from one head to the next: `State.heads` lists the states from which they are
taken, in order. What a step does is decided by the character that it meets outside the literals and by
the open scopes (`Act`), and all of it is recorded with the offset of that character. So a trace can be
cut into the parts of its heads, and what is to be known of every entry of every trace is proved for each
act. Main statements:

* `stepped_step`: every step is an act that moves the cursor over the text;
* `trace_run`, `trace_scan`: a run records the entries of its heads, one after the other;
* `forall_heads`: what every step keeps holds at every head;
* `pairwise_offset_heads`: no two heads are at one offset;
* `Located.step`: the cursor is at its offset in the text.
-/

namespace SheetFormula.Scan

/-! ## What a step records -/

/-- The characters that end the pending text as unknown outside the literals. -/
def strayMarks : List Char := ['"', '\x27', '#', '\x7b']

/-- The characters that open, close or change a scope outside the literals. -/
def scopeMarks : List Char := ['(', ')', '\x7b', '\x7d', ';']

/-- The token that begins an array. -/
def arrayToken : Token := ⟨arrayName, .function, .start⟩

namespace State

/-- The character that the scan meets outside the literals. -/
def met? (s : State) : Option Char := if s.mode = .code then s.current? else none

/-- The entries of putting out the pending text as an operand. -/
def flushEntries (s : State) : List Entry :=
  if s.pending = "" then [] else [.token s.offset ⟨s.pending, .operand, .plain⟩]

/-- The entries of putting out the pending text before a delimiter that cannot follow it. -/
def strayEntries (s : State) (delimiter : Char) : List Entry :=
  if s.pending = "" then []
  else [.stray s.offset delimiter s.pending, .token s.offset ⟨s.pending, .unknown, .plain⟩]

/-- The token that an opening parenthesis puts out after the pending text. -/
def openingToken (s : State) : Token :=
  if s.pending = "" then ⟨"", .subexpression, .start⟩ else ⟨s.pending, .function, .start⟩

end State

/-- An entry that puts out a known token of no concern to the scopes, or a comma. -/
inductive Inner (σ : ScopeStack) : Entry → Prop
  | token {t : Token} (offset : Nat) (ht : isSimple t = true) (hk : (t.kind == .unknown) = false) :
    Inner σ (.token offset t)
  | comma (offset : Nat) : Inner σ (.token offset (commaToken σ))

/-- What a step can do: what it records, and the scopes that are open after it. -/
inductive Act (s : State) : List Entry → ScopeStack → Prop
  /-- No scope is opened or closed. -/
  | inner {new : List Entry} (hmet : ∀ c ∈ s.met?, c ∉ strayMarks ∧ c ∉ scopeMarks)
    (hnew : ∀ e ∈ new, Inner s.scopes e) : Act s new s.scopes
  /-- A literal begins. -/
  | stray {c : Char} (hmet : s.met? = some c) (hc : c ∈ strayMarks) (hscope : c ∉ scopeMarks) :
    Act s (s.strayEntries c) s.scopes
  /-- An array begins, with its first row. -/
  | array (hmet : s.met? = some '\x7b') :
    Act s
      (s.strayEntries '\x7b' ++
        [.opened s.offset (s.scopes.depth + 1) arrayToken,
          .opened s.offset (s.scopes.depth + 2) rowToken])
      ((s.scopes.push arrayToken).push rowToken)
  /-- A row ends and the next begins. -/
  | row (hmet : s.met? = some ';') :
    Act s
      (s.flushEntries ++ closingEntries s.scopes s.offset ';' ++
        [.token s.offset argumentToken, .opened s.offset (s.scopes.pop.depth + 1) rowToken])
      (s.scopes.pop.push rowToken)
  /-- An array ends, with its last row. -/
  | endArray (hmet : s.met? = some '\x7d') :
    Act s
      (s.flushEntries ++ closingEntries s.scopes s.offset '\x7d' ++
        closingEntries s.scopes.pop s.offset '\x7d')
      s.scopes.pop.pop
  /-- A function call or a parenthesis begins. -/
  | group (hmet : s.met? = some '(') :
    Act s [.opened s.offset (s.scopes.depth + 1) s.openingToken] (s.scopes.push s.openingToken)
  /-- A function call or a parenthesis ends. -/
  | endGroup (hmet : s.met? = some ')') :
    Act s (s.flushEntries ++ closingEntries s.scopes s.offset ')') s.scopes.pop

/-- A state that a step leads to: the act, what it records, and the move of the cursor. -/
structure Stepped (s t : State) (new : List Entry) : Prop where
  act : Act s new t.scopes
  trace : t.trace.toList = s.trace.toList ++ new
  moved : ∃ n, 0 < n ∧ n ≤ s.rest.length ∧ t.offset = s.offset + n ∧ t.rest = s.rest.drop n
  text : t.text = s.text

namespace State

variable {s : State} {c : Char} {rest : List Char}

/-! ## The operations on whole states -/

theorem flush_eq (s : State) :
    s.flush = { s with pending := "", trace := s.trace ++ s.flushEntries } := by
  unfold flush flushEntries
  split
  · rename_i hs
    cases s
    cases hs
    simp
  · simp [emitPending, emit, note, dropPending]

theorem flushStray_eq (s : State) (c : Char) :
    s.flushStray c = { s with pending := "", trace := s.trace ++ s.strayEntries c } := by
  unfold flushStray strayEntries
  split
  · rename_i hs
    cases s
    cases hs
    simp
  · simp [emitPending, emit, note, dropPending]

theorem closeScope_eq (s : State) (c : Char) :
    s.closeScope c =
      { s with
        scopes := s.scopes.pop
        trace := s.trace ++ closingEntries s.scopes s.offset c } := by
  unfold closeScope closingEntries
  split <;> simp [note]

theorem inner_flushEntries {σ : ScopeStack} (s : State) : ∀ e ∈ s.flushEntries, Inner σ e := by
  unfold flushEntries
  split
  · exact fun _ he => nomatch he
  · intro e he
    rcases List.mem_singleton.1 he with rfl
    exact .token _ rfl rfl

/-! ## Every step is an act -/

/-- The cursor is moved after everything else. -/
theorem stepped_advance {t : State} {new : List Entry} {n : Nat} (hact : Act s new t.scopes)
    (htrace : t.trace.toList = s.trace.toList ++ new) (hoffset : t.offset = s.offset)
    (hrest : t.rest = s.rest) (htext : t.text = s.text) (hn : 0 < n) (hle : n ≤ s.rest.length) :
    Stepped s (t.advance n) new where
  act := hact
  trace := htrace
  moved := ⟨n, hn, hle, congrArg (· + n) hoffset, congrArg (List.drop n) hrest⟩
  text := htext

/-- The cursor is moved and nothing is recorded. -/
theorem stepped_quiet {t : State} {n : Nat} (hact : Act s [] t.scopes) (htrace : t.trace = s.trace)
    (hoffset : t.offset = s.offset) (hrest : t.rest = s.rest) (htext : t.text = s.text) (hn : 0 < n)
    (hle : n ≤ s.rest.length) : Stepped s (t.advance n) [] :=
  stepped_advance hact (by rw [htrace, List.append_nil]) hoffset hrest htext hn hle

/-- Inside a literal nothing is met. -/
theorem act_inside (hmode : s.mode ≠ .code) {new : List Entry}
    (hnew : ∀ e ∈ new, Inner s.scopes e) : Act s new s.scopes := by
  refine .inner (fun c hc => ?_) hnew
  rw [met?, if_neg hmode] at hc
  cases hc

theorem act_inside_nil (hmode : s.mode ≠ .code) : Act s [] s.scopes :=
  act_inside hmode (List.forall_mem_nil _)

theorem stepped_quotedStep (hmode : s.mode ≠ .code) (hrest : s.rest = c :: rest) (quote : Char)
    {closed : State → State}
    (hclosed : ∃ new, Stepped s ((closed (s.enter .code)).advance 1) new) :
    ∃ new, Stepped s (s.quotedStep quote c closed) new := by
  have hlen : 1 ≤ s.rest.length := by rw [hrest]; exact Nat.succ_pos _
  unfold quotedStep
  split
  · split
    · rename_i hnext
      have hlen2 : 2 ≤ s.rest.length := (List.getElem?_eq_some_iff.1 hnext).1
      exact ⟨[], stepped_quiet (act_inside_nil hmode) rfl rfl rfl rfl (by decide) hlen2⟩
    · exact hclosed
  · exact ⟨[], stepped_quiet (act_inside_nil hmode) rfl rfl rfl rfl Nat.one_pos hlen⟩

theorem stepped_bracketStep (hmode : s.mode ≠ .code) (hrest : s.rest = c :: rest) :
    Stepped s (s.bracketStep c) [] := by
  have hlen : 1 ≤ s.rest.length := by rw [hrest]; exact Nat.succ_pos _
  unfold bracketStep
  split <;> exact stepped_quiet (act_inside_nil hmode) rfl rfl rfl rfl Nat.one_pos hlen

theorem stepped_errorStep (hmode : s.mode ≠ .code) (hrest : s.rest = c :: rest) :
    ∃ new, Stepped s (s.errorStep c) new := by
  have hmoved : ∃ n, 0 < n ∧ n ≤ s.rest.length ∧ s.offset + 1 = s.offset + n ∧
      s.rest.drop 1 = s.rest.drop n :=
    ⟨1, Nat.one_pos, by rw [hrest]; exact Nat.succ_pos _, rfl, rfl⟩
  unfold errorStep
  dsimp only
  split
  · refine ⟨_, act_inside hmode ?_, Array.toList_push, hmoved, rfl⟩
    exact List.forall_mem_singleton.2 (.token _ rfl rfl)
  · exact ⟨[], act_inside_nil hmode, (List.append_nil _).symm, hmoved, rfl⟩

/-- Outside the literals the character under the cursor is met. -/
theorem met?_of_code (hmode : s.mode = .code) (hrest : s.rest = c :: rest) : s.met? = some c := by
  rw [met?, if_pos hmode, current?, hrest]
  rfl

/-- What is met is under the cursor, outside the literals. -/
theorem rest_of_met (hmet : s.met? = some c) :
    s.mode = .code ∧ ∃ rest, s.rest = c :: rest := by
  unfold met? at hmet
  split at hmet
  · exact ⟨‹_›, List.head?_eq_some_iff.1 hmet⟩
  · cases hmet

/-- A character that is not for the scopes, before which the pending text may be put out. -/
theorem act_of_met (hmet : s.met? = some c) (hc : c ∉ strayMarks ∧ c ∉ scopeMarks) {new : List Entry}
    (hnew : ∀ e ∈ new, Inner s.scopes e) : Act s new s.scopes := by
  refine .inner (fun d hd => ?_) hnew
  rw [hmet, Option.mem_some_iff] at hd
  exact hd ▸ hc

/-- A token is put out after the pending text. -/
theorem stepped_emit (hmet : s.met? = some c) (hc : c ∉ strayMarks ∧ c ∉ scopeMarks) {t : Token}
    (ht : Inner s.scopes (.token s.offset t)) {n : Nat} (hn : 0 < n) (hle : n ≤ s.rest.length) :
    ∃ new, Stepped s ((s.flush.emit t).advance n) new := by
  have hnew : ∀ e ∈ s.flushEntries ++ [.token s.offset t], Inner s.scopes e := by
    rw [List.forall_mem_append, List.forall_mem_singleton]
    exact ⟨s.inner_flushEntries, ht⟩
  rw [flush_eq]
  exact ⟨_, stepped_advance (act_of_met hmet hc hnew) (by simp [emit, note]) rfl rfl rfl hn hle⟩

/-- A literal begins after the pending text. -/
theorem stepped_literal (hmet : s.met? = some c) (hc : c ∈ strayMarks) (hscope : c ∉ scopeMarks)
    (hlen : 1 ≤ s.rest.length) (mode : Mode) :
    Stepped s (((s.flushStray c).enter mode).advance 1) (s.strayEntries c) := by
  rw [flushStray_eq]
  exact stepped_advance (.stray hmet hc hscope) (by simp [enter]) rfl rfl rfl Nat.one_pos hlen

/-- A character goes on with the pending text. -/
theorem stepped_collect (hmet : s.met? = some c) (hc : c ∉ strayMarks ∧ c ∉ scopeMarks)
    (hlen : 1 ≤ s.rest.length) : Stepped s ((s.collect c).advance 1) [] :=
  stepped_quiet (act_of_met hmet hc (List.forall_mem_nil _)) rfl rfl rfl rfl Nat.one_pos hlen

theorem stepped_codeStep (hmode : s.mode = .code) (hrest : s.rest = c :: rest) :
    ∃ new, Stepped s (s.codeStep c rest) new := by
  have hmet : s.met? = some c := met?_of_code hmode hrest
  have hlen : 1 ≤ s.rest.length := by rw [hrest]; exact Nat.succ_pos _
  unfold codeStep
  split
  · rename_i hsign
    refine ⟨[], stepped_collect hmet ?_ hlen⟩
    rcases hsign.1 with rfl | rfl <;> decide
  · split
    case h_1 => exact ⟨_, stepped_literal hmet (by decide) (by decide) hlen _⟩
    case h_2 => exact ⟨_, stepped_literal hmet (by decide) (by decide) hlen _⟩
    case h_3 =>
      have hact : Act s [] s.scopes := act_of_met hmet (by decide) (List.forall_mem_nil _)
      exact ⟨[], stepped_quiet hact rfl rfl rfl rfl Nat.one_pos hlen⟩
    case h_4 =>
      rw [flushStray_eq]
      exact ⟨_, stepped_advance (.stray hmet (by decide) (by decide)) (by simp [enter, collect]) rfl
        rfl rfl Nat.one_pos hlen⟩
    case h_5 =>
      rw [flushStray_eq]
      exact ⟨_, stepped_advance (.array hmet) (by simp [openScope, note, arrayToken, rowToken])
        rfl rfl rfl Nat.one_pos hlen⟩
    case h_6 =>
      rw [flush_eq, closeScope_eq]
      exact ⟨_, stepped_advance (.row hmet)
        (by simp [openScope, emit, note, argumentToken, rowToken]) rfl rfl rfl Nat.one_pos hlen⟩
    case h_7 =>
      rw [flush_eq, closeScope_eq, closeScope_eq]
      exact ⟨_, stepped_advance (.endArray hmet) (by simp) rfl rfl rfl Nat.one_pos hlen⟩
    case h_8 =>
      refine stepped_emit hmet (by decide) (.token _ rfl rfl) (Nat.lt_add_right _ Nat.one_pos) ?_
      rw [hrest, List.length_cons, Nat.add_comm]
      exact Nat.succ_le_succ (List.takeWhile_sublist _).length_le
    case h_9 => exact stepped_emit hmet (by decide) (.token _ rfl rfl) Nat.one_pos hlen
    case h_10 =>
      have hopen : (if s.pending = "" then s.openScope "" .subexpression else s.openPending) =
          { s with
            pending := ""
            scopes := s.scopes.push s.openingToken
            trace := s.trace.push (.opened s.offset (s.scopes.depth + 1) s.openingToken) } := by
        unfold openingToken
        split
        · rename_i hs
          rw [← hs]
          simp [openScope, note]
        · simp [openPending, openScope, dropPending, note]
      rw [hopen]
      exact ⟨_, stepped_advance (.group hmet) (by simp) rfl rfl rfl Nat.one_pos hlen⟩
    case h_11 => exact stepped_emit hmet (by decide) (.comma _) Nat.one_pos hlen
    case h_12 =>
      rw [flush_eq, closeScope_eq]
      exact ⟨_, stepped_advance (.endGroup hmet) (by simp) rfl rfl rfl Nat.one_pos hlen⟩
    case h_13 =>
      have hc : c ∉ strayMarks ∧ c ∉ scopeMarks := by simp_all [strayMarks, scopeMarks]
      split
      · rename_i hpair
        refine stepped_emit hmet hc (.token _ rfl rfl) (by decide) ?_
        unfold isComparisonPair at hpair
        split at hpair <;> simp_all
      · split
        · exact stepped_emit hmet hc (.token _ rfl rfl) Nat.one_pos hlen
        · exact ⟨[], stepped_collect hmet hc hlen⟩

/-- Every step is an act that moves the cursor over the text. -/
theorem stepped_step (h : s.rest ≠ []) : ∃ new, Stepped s s.step new := by
  unfold step
  split
  · contradiction
  · rename_i c rest hrest
    have hlen : 1 ≤ s.rest.length := by rw [hrest]; exact Nat.succ_pos _
    split
    · exact stepped_codeStep ‹_› hrest
    · rename_i hmode
      have hcode : s.mode ≠ .code := by rw [hmode]; nofun
      refine stepped_quotedStep hcode hrest _
        ⟨_, stepped_advance (act_inside hcode ?_) Array.toList_push rfl rfl rfl Nat.one_pos hlen⟩
      exact List.forall_mem_singleton.2 (.token _ rfl rfl)
    · rename_i hmode
      have hcode : s.mode ≠ .code := by rw [hmode]; nofun
      exact stepped_quotedStep hcode hrest _
        ⟨[], stepped_quiet (act_inside_nil hcode) rfl rfl rfl rfl Nat.one_pos hlen⟩
    · rename_i hmode
      exact ⟨[], stepped_bracketStep (by rw [hmode]; nofun) hrest⟩
    · rename_i hmode
      exact stepped_errorStep (by rw [hmode]; nofun) hrest

/-! ## Heads -/

/-- The states from which a run takes its steps, in order. -/
def heads (s : State) : List State :=
  if s.rest = [] then [] else s :: s.step.heads
termination_by s.rest.length
decreasing_by exact length_rest_step_lt (by assumption)

/-- What the step from a state records. -/
def entriesAt (s : State) : List Entry := s.step.trace.toList.drop s.trace.size

theorem heads_of_nil (h : s.rest = []) : s.heads = [] := by
  rw [heads, if_pos h]

theorem heads_of_ne_nil (h : s.rest ≠ []) : s.heads = s :: s.step.heads := by
  conv => lhs; rw [heads, if_neg h]

/-- A step records the entries of its head. -/
theorem stepped (h : s.rest ≠ []) : Stepped s s.step s.entriesAt := by
  obtain ⟨new, hnew⟩ := stepped_step h
  have hentries : s.entriesAt = new := by
    rw [entriesAt, hnew.trace, ← Array.length_toList, List.drop_left]
  rwa [hentries]

/-- A run records the entries of its heads. -/
theorem trace_run (s : State) : s.run.trace.toList = s.trace.toList ++ s.heads.flatMap entriesAt := by
  induction s using run.induct with
  | case1 s hs => rw [run_of_nil hs, heads_of_nil hs, List.flatMap_nil, List.append_nil]
  | case2 s hs ih =>
    rw [run_of_ne_nil hs, heads_of_ne_nil hs, ih, (stepped hs).trace, List.flatMap_cons,
      List.append_assoc]

/-- There is text under the cursor at every head. -/
theorem rest_of_mem_heads {t : State} (ht : t ∈ s.heads) : t.rest ≠ [] := by
  induction s using run.induct with
  | case1 s hs => rw [heads_of_nil hs] at ht; cases ht
  | case2 s hs ih =>
    rw [heads_of_ne_nil hs, List.mem_cons] at ht
    rcases ht with rfl | ht
    · exact hs
    · exact ih ht

/-- The run from a head is that from the state before it. -/
theorem run_of_mem_heads {t : State} (ht : t ∈ s.heads) : t.run = s.run := by
  induction s using run.induct with
  | case1 s hs => rw [heads_of_nil hs] at ht; cases ht
  | case2 s hs ih =>
    rw [heads_of_ne_nil hs, List.mem_cons] at ht
    rcases ht with rfl | ht
    · rfl
    · rw [ih ht, run_of_ne_nil hs]

/-- The step from a head leads to the next one, unless no text is left then. -/
theorem step_mem_heads {t : State} (ht : t ∈ s.heads) (hnext : t.step.rest ≠ []) :
    t.step ∈ s.heads := by
  induction s using run.induct with
  | case1 s hs => rw [heads_of_nil hs] at ht; cases ht
  | case2 s hs ih =>
    rw [heads_of_ne_nil hs, List.mem_cons] at ht ⊢
    refine .inr ?_
    rcases ht with rfl | ht
    · rw [heads_of_ne_nil hnext]
      exact List.mem_cons_self
    · exact ih ht

/-- A step does not change where a run ends. -/
theorem run_step (s : State) : s.step.run = s.run := by
  by_cases hs : s.rest = []
  · have hstep : s.step = s := by
      unfold step
      rw [hs]
    rw [hstep]
  · rw [run_of_ne_nil hs]

/-- What was put out before a run is the beginning of what is put out in the end. -/
theorem tokens_prefix_finish (s : State) : s.tokens <+: s.finish.tokens := by
  have hrun : s.run.tokens = s.tokens ++ tokensOf (s.heads.flatMap entriesAt) := by
    rw [tokens, trace_run, tokensOf_append]
    rfl
  refine ⟨tokensOf (s.heads.flatMap entriesAt) ++ tokensOf s.run.flushEntries, ?_⟩
  rw [← List.append_assoc, ← hrun, finish, flush_eq]
  simp [tokens]

/-- A property that every step keeps holds at every head. -/
theorem forall_heads {P : State → Prop} (hstep : ∀ s, s.rest ≠ [] → P s → P s.step) (h : P s) :
    ∀ t ∈ s.heads, P t := by
  induction s using run.induct with
  | case1 s hs => rw [heads_of_nil hs]; exact List.forall_mem_nil P
  | case2 s hs ih =>
    rw [heads_of_ne_nil hs, List.forall_mem_cons]
    exact ⟨h, ih (hstep s hs h)⟩

theorem offset_step_lt (h : s.rest ≠ []) : s.offset < s.step.offset := by
  obtain ⟨n, hn, -, hoffset, -⟩ := (stepped h).moved
  omega

/-- No two heads are at one offset. -/
theorem pairwise_offset_heads (s : State) : s.heads.Pairwise fun a b => a.offset < b.offset := by
  induction s using run.induct with
  | case1 s hs => rw [heads_of_nil hs]; exact .nil
  | case2 s hs ih =>
    have hlater : ∀ t ∈ s.step.heads, s.step.offset ≤ t.offset :=
      forall_heads (fun t ht h => Nat.le_trans h (Nat.le_of_lt (offset_step_lt ht))) (Nat.le_refl _)
    rw [heads_of_ne_nil hs]
    exact .cons (fun t ht => Nat.lt_of_lt_of_le (offset_step_lt hs) (hlater t ht)) ih

/-! ## The place of the cursor -/

/-- The cursor is at its offset in the whole text, and the text that is left follows it there. -/
structure Located (whole : List Char) (s : State) : Prop where
  text : s.text = whole
  le : s.offset ≤ whole.length
  rest : s.rest = whole.drop s.offset

theorem located_start (formula : String) : Located (start formula).text (start formula) := by
  unfold start
  cases normalize formula.toList with
  | nil => exact ⟨rfl, Nat.le_refl 0, rfl⟩
  | cons c cs => exact ⟨rfl, Nat.succ_pos _, rfl⟩

theorem Located.step {whole : List Char} (h : Located whole s) (hs : s.rest ≠ []) :
    Located whole s.step := by
  obtain ⟨n, -, hle, hoffset, hrest⟩ := (stepped hs).moved
  have hlength := h.le
  rw [h.rest, List.length_drop] at hle
  refine ⟨(stepped hs).text.trans h.text, by omega, ?_⟩
  rw [hrest, h.rest, hoffset, List.drop_drop]

/-- The character that is met stands at the offset of the cursor. -/
theorem Located.met? {whole : List Char} (h : Located whole s) (hc : s.met? = some c) :
    whole[s.offset]? = some c := by
  unfold State.met? at hc
  split at hc
  · rwa [State.current?, h.rest, List.head?_drop] at hc
  · cases hc

theorem located_of_mem_heads {formula : String} {t : State} (ht : t ∈ (start formula).heads) :
    Located (start formula).text t :=
  forall_heads (fun _ hs h => Located.step h hs) (located_start formula) t ht

theorem located_run (formula : String) : Located (start formula).text (start formula).run :=
  run_induction (fun _ hs h => Located.step h hs) (located_start formula)

/-- A scan ends at the end of the text. -/
theorem offset_run (formula : String) :
    (start formula).run.offset = (start formula).text.length := by
  have h := located_run formula
  have hrest := h.rest
  rw [rest_run, eq_comm, List.drop_eq_nil_iff] at hrest
  exact Nat.le_antisymm h.le hrest

/-- The open scopes at every head were opened. -/
theorem started_of_mem_heads {formula : String} {t : State} (ht : t ∈ (start formula).heads) :
    Started t.scopes :=
  (forall_heads (fun _ _ h => walks_step h) (show (start formula).Walks from .nil) t ht).started

end State

/-- The trace of a scan has the entries of its heads, and in the end what is pending then. -/
theorem trace_scan (formula : String) :
    (scan formula).trace =
      (State.start formula).heads.flatMap State.entriesAt ++ (State.start formula).run.flushEntries := by
  show (State.start formula).run.flush.trace.toList = _
  rw [State.flush_eq, Array.toList_appendList, State.trace_run]
  rfl

/-- The normalized formula is the text that is scanned. -/
theorem formula_scan (formula : String) :
    (scan formula).formula = String.ofList (State.start formula).text := by
  show String.ofList (State.start formula).run.flush.text = _
  rw [State.flush_eq, (State.located_run formula).text]

end SheetFormula.Scan
