import Mathlib.Logic.Function.Iterate
import SheetFormula.Proofs.ScanHeads

/-!
# The scan of error literals

A `#` outside the literals begins an error literal, and the scan collects characters until what it has
collected is one of the seven. As no error literal is the beginning of another, this is the one that the
text from the `#` on begins with; if it begins with none, the scan collects all that is left. Main
statements:

* `State.step_reading`: a step inside an error literal collects a character or puts the literal out;
* `State.iterate_literal`: where a literal stands, as many steps as it has characters put it out;
* `State.run_of_unfinished`: where none stands, the run ends with all that is left pending;
* `State.begun_step`, `State.run_of_error`: only so does a run end inside an error literal.
-/

namespace SheetFormula

namespace Scan

/-- No beginning of an error literal is one. -/
theorem take_not_mem_errorLiterals {e : String} (he : e ∈ errorLiterals) :
    ∀ n < e.toList.length, String.ofList (e.toList.take n) ∉ errorLiterals := by
  simp only [errorLiterals, List.mem_cons, List.not_mem_nil, or_false] at he
  rcases he with rfl | rfl | rfl | rfl | rfl | rfl | rfl <;> decide

namespace State

variable {s : State} {e : String} {n : Nat}

/-- A state inside an error literal that begins at a head, after `n` characters of it. -/
def reading (s : State) (n : Nat) : State :=
  { s with
    mode := .error
    offset := s.offset + n
    rest := s.rest.drop n
    pending := String.ofList (s.rest.take n)
    trace := s.trace ++ s.strayEntries '#' }

/-- The state after an error literal that begins at a head: the cursor is right after it, outside the
literals, nothing is pending, and the literal is the last token. -/
def afterLiteral (s : State) (e : String) : State :=
  { s with
    mode := .code
    offset := s.offset + e.length
    rest := s.rest.drop e.length
    pending := ""
    trace := (s.trace ++ s.strayEntries '#').push
      (.token (s.offset + e.length) ⟨e, .operand, .error⟩) }

/-! ## Steps -/

/-- The step from a `#` begins an error literal. -/
theorem step_hash (hmet : s.met? = some '#') : s.step = s.reading 1 := by
  obtain ⟨hmode, rest, hrest⟩ := rest_of_met hmet
  have hstep : s.step = (((s.flushStray '#').enter .error).collect '#').advance 1 := by
    simp only [step, hrest, hmode]
    rfl
  rw [hstep, flushStray_eq]
  simp only [enter, collect, advance, reading, hrest]
  rfl

/-- A step inside an error literal collects a character, and puts the literal out if that completes it. -/
theorem step_reading (hn : n < s.rest.length) :
    (s.reading n).step =
      if String.ofList (s.rest.take (n + 1)) ∈ errorLiterals then
        s.afterLiteral (String.ofList (s.rest.take (n + 1)))
      else s.reading (n + 1) := by
  have hrest : (s.reading n).rest = s.rest[n] :: s.rest.drop (n + 1) := List.drop_eq_getElem_cons hn
  have hpending : (String.ofList (s.rest.take n)).push s.rest[n] =
      String.ofList (s.rest.take (n + 1)) := by
    rw [← List.take_append_getElem hn, String.ofList_append, String.push_eq_append,
      String.singleton_eq_ofList]
  have hstep : (s.reading n).step = (s.reading n).errorStep s.rest[n] := by
    simp only [step, hrest]
    rfl
  have hlength : (String.ofList (s.rest.take (n + 1))).length = n + 1 := by
    rw [String.length_ofList, List.length_take]
    omega
  have hmore : (((s.reading n).collect s.rest[n]).advance 1) = s.reading (n + 1) := by
    simp only [reading, collect, advance, hpending, List.drop_drop, Nat.add_assoc]
  rw [hstep, errorStep, hmore]
  refine if_congr Iff.rfl ?_ rfl
  simp [reading, afterLiteral, enter, emitPending, dropPending, emit, note, hlength]

/-! ## From a `#` to the end of its literal -/

/-- What is collected is no error literal as long as none was completed. -/
def Unfinished (s : State) (n : Nat) : Prop :=
  ∀ k ≤ n, String.ofList (s.rest.take k) ∉ errorLiterals

/-- One character more does not complete a literal. -/
theorem Unfinished.succ (h : s.Unfinished n)
    (hnext : String.ofList (s.rest.take (n + 1)) ∉ errorLiterals) : s.Unfinished (n + 1) := by
  intro k hk
  rcases Nat.le_succ_iff.1 hk with hk | rfl
  · exact h k hk
  · exact hnext

/-- Neither nothing nor a `#` is a literal. -/
theorem unfinished_one (hmet : s.met? = some '#') : s.Unfinished 1 := by
  obtain ⟨-, rest, hrest⟩ := rest_of_met hmet
  intro k hk
  rw [hrest]
  match k, hk with
  | 0, _ =>
    show String.ofList [] ∉ errorLiterals
    decide
  | 1, _ =>
    show String.ofList ['#'] ∉ errorLiterals
    decide

/-- Where no error literal stands, none is completed. -/
theorem unfinished_of_absent (h : ∀ e ∈ errorLiterals, ¬ e.toList <+: s.rest) (n : Nat) :
    s.Unfinished n := by
  intro k _ he
  refine h _ he ?_
  rw [String.toList_ofList]
  exact List.take_prefix k s.rest

/-- Where an error literal stands, it is the first that is completed. -/
theorem unfinished_of_present (he : e ∈ errorLiterals) (hstands : e.toList <+: s.rest)
    (hn : n < e.toList.length) : s.Unfinished n := by
  intro k hk
  have htake : s.rest.take k = e.toList.take k := by
    obtain ⟨after, hafter⟩ := hstands
    rw [← hafter, List.take_append_of_le_length (by omega)]
  rw [htake]
  exact take_not_mem_errorLiterals he k (by omega)

/-- As long as no literal is completed, every step collects a character. -/
theorem iterate_reading (hmet : s.met? = some '#') (hlength : n + 1 ≤ s.rest.length)
    (h : s.Unfinished (n + 1)) : step^[n + 1] s = s.reading (n + 1) := by
  induction n with
  | zero => exact step_hash hmet
  | succ n ih =>
    have hbefore : s.Unfinished (n + 1) := fun k hk => h k (Nat.le_succ_of_le hk)
    rw [Function.iterate_succ_apply', ih (by omega) hbefore, step_reading (by omega),
      if_neg (h _ (Nat.le_refl _))]

/-- Where an error literal stands, as many steps as it has characters put it out. -/
theorem iterate_literal (hmet : s.met? = some '#') (he : e ∈ errorLiterals)
    (hstands : e.toList <+: s.rest) : step^[e.length] s = s.afterLiteral e := by
  obtain ⟨n, hn⟩ : ∃ n, e.toList.length = n + 2 := by
    simp only [errorLiterals, List.mem_cons, List.not_mem_nil, or_false] at he
    rcases he with rfl | rfl | rfl | rfl | rfl | rfl | rfl <;> exact ⟨_, rfl⟩
  have hlength : n + 2 ≤ s.rest.length := hn ▸ hstands.length_le
  have htake : String.ofList (s.rest.take (n + 1 + 1)) = e := by
    rw [← hn, ← List.prefix_iff_eq_take.1 hstands, String.ofList_toList]
  rw [← String.length_toList, hn, Function.iterate_succ_apply',
    iterate_reading hmet (by omega) (unfinished_of_present he hstands (by omega)),
    step_reading (by omega), htake, if_pos he]

/-- Some steps before it do not change where a run ends. -/
theorem run_iterate (s : State) (n : Nat) : (step^[n] s).run = s.run := by
  induction n with
  | zero => rfl
  | succ n ih => rw [Function.iterate_succ_apply', run_step, ih]

/-- Where no error literal stands, the run ends with all that is left pending. -/
theorem run_of_unfinished (hmet : s.met? = some '#')
    (h : ∀ e ∈ errorLiterals, ¬ e.toList <+: s.rest) : s.run = s.reading s.rest.length := by
  obtain ⟨n, hn⟩ : ∃ n, s.rest.length = n + 1 := by
    obtain ⟨-, rest, hrest⟩ := rest_of_met hmet
    exact ⟨rest.length, by rw [hrest, List.length_cons]⟩
  have hend : (s.reading (n + 1)).rest = [] := List.drop_eq_nil_of_le (Nat.le_of_eq hn)
  rw [hn, ← run_of_nil hend, ← iterate_reading hmet (Nat.le_of_eq hn.symm)
    (unfinished_of_absent h _), run_iterate]

/-! ## What is put out -/

theorem tokens_afterLiteral (s : State) (e : String) :
    (s.afterLiteral e).tokens =
      s.tokens ++ tokensOf (s.strayEntries '#') ++ [⟨e, .operand, .error⟩] := by
  simp [tokens, afterLiteral]

theorem tokens_flush_of_pending (h : s.pending ≠ "") :
    s.flush.tokens = s.tokens ++ [⟨s.pending, .operand, .plain⟩] := by
  rw [flush, if_neg h]
  simp [tokens, emitPending, emit, note, dropPending]

/-- All that was left from a `#` on is put out as one operand. -/
theorem tokens_flush_reading (hmet : s.met? = some '#') :
    (s.reading s.rest.length).flush.tokens = s.tokens ++ tokensOf (s.strayEntries '#') ++
      [⟨String.ofList s.rest, .operand, .plain⟩] := by
  obtain ⟨-, rest, hrest⟩ := rest_of_met hmet
  have htext : (s.reading s.rest.length).pending = String.ofList s.rest :=
    congrArg String.ofList (List.take_length ..)
  have hne : String.ofList s.rest ≠ "" := by
    rw [hrest, Ne, String.ofList_eq_empty_iff]
    exact List.cons_ne_nil _ _
  rw [tokens_flush_of_pending (htext ▸ hne), htext]
  simp [tokens, reading]

/-! ## Where an error literal begins -/

/-- Outside the literals, only a `#` leads into an error literal. -/
theorem met_of_codeStep_error {c : Char} {rest : List Char} (hs : s.mode = .code)
    (h : (s.codeStep c rest).mode = .error) : c = '#' := by
  revert h
  unfold codeStep
  split
  · simp [hs]
  · split
    case h_4 => exact fun _ => rfl
    case h_10 => split <;> simp [hs]
    case h_13 =>
      split
      · simp [hs]
      · split <;> simp [hs]
    all_goals simp [hs]

/-- No step in quoted text leads into an error literal. -/
theorem mode_quotedStep_ne_error {quote c : Char} {closed : State → State} (hs : s.mode ≠ .error)
    (hclosed : ∀ t : State, (closed t).mode = t.mode) :
    (s.quotedStep quote c closed).mode ≠ .error := by
  unfold quotedStep
  split
  · split
    · exact hs
    · simp [hclosed]
  · exact hs

/-- A step that leads into an error literal is one from a `#`. -/
theorem met_of_step_error (hs : s.mode ≠ .error) (h : s.step.mode = .error) :
    s.met? = some '#' := by
  revert h
  unfold step
  split
  · exact fun h => absurd h hs
  · rename_i c rest hrest
    split
    · rename_i hmode
      intro h
      rw [met?_of_code hmode hrest, met_of_codeStep_error hmode h]
    · exact fun h => absurd h (mode_quotedStep_ne_error hs fun _ => rfl)
    · exact fun h => absurd h (mode_quotedStep_ne_error hs fun _ => rfl)
    · rename_i hmode
      unfold bracketStep
      split <;> simp [hmode]
    · exact absurd ‹_› hs

/-- Inside an error literal, the scan began one at one of some states and completed none since. -/
def Begun (seen : List State) (s : State) : Prop :=
  s.mode = .error →
    ∃ head ∈ seen, head.met? = some '#' ∧
      ∃ n ≤ head.rest.length, s = head.reading n ∧ head.Unfinished n

/-- Only from a `#` on does the scan come to be inside an error literal. -/
theorem begun_step {seen : List State} (hmem : s ∈ seen) (hrest : s.rest ≠ []) (h : s.Begun seen) :
    s.step.Begun seen := by
  intro hmode
  by_cases herror : s.mode = .error
  · obtain ⟨head, hhead, hmet, n, hn, rfl, hopen⟩ := h herror
    have hmore : n < head.rest.length := by
      refine Nat.lt_of_le_of_ne hn fun heq => hrest ?_
      exact List.drop_eq_nil_of_le (Nat.le_of_eq heq.symm)
    rw [step_reading hmore] at hmode ⊢
    split at hmode
    · cases hmode
    · rw [if_neg ‹_›]
      exact ⟨head, hhead, hmet, n + 1, hmore, rfl, hopen.succ ‹_›⟩
  · have hmet := met_of_step_error herror hmode
    exact ⟨s, hmem, hmet, 1, List.length_pos_iff.2 hrest, step_hash hmet, unfinished_one hmet⟩

/-- A run that ends inside an error literal met a `#` that begins none of the seven, and has all that was
left from there on pending. -/
theorem run_of_error {formula : String} (h : (start formula).run.mode = .error) :
    ∃ s ∈ (start formula).heads, s.met? = some '#' ∧ (∀ e ∈ errorLiterals, ¬ e.toList <+: s.rest) ∧
      (start formula).run = s.reading s.rest.length := by
  have hstart : (start formula).rest ≠ [] → start formula ∈ (start formula).heads := by
    intro hs
    rw [heads_of_ne_nil hs]
    exact List.mem_cons_self
  -- that the state is a head itself is needed where an error literal begins
  have hbegun : (start formula).run.Begun (start formula).heads := by
    refine (run_induction
      (P := fun s => (s.rest ≠ [] → s ∈ (start formula).heads) ∧ s.Begun (start formula).heads)
      (fun s hs h => ⟨step_mem_heads (h.1 hs), begun_step (h.1 hs) hs h.2⟩) ⟨hstart, ?_⟩).2
    exact fun hmode => nomatch hmode
  obtain ⟨s, hs, hmet, n, hn, hrun, hopen⟩ := hbegun h
  obtain rfl : n = s.rest.length := by
    have hrest := (start formula).rest_run
    rw [hrun] at hrest
    exact Nat.le_antisymm hn (List.drop_eq_nil_iff.1 hrest)
  refine ⟨s, hs, hmet, fun e he hstands => ?_, hrun⟩
  refine hopen e.toList.length hstands.length_le ?_
  rwa [← List.prefix_iff_eq_take.1 hstands, String.ofList_toList]

end State

/-- A formula that ends inside an error literal is one whose run does. -/
theorem mode_of_inError {formula : String} (h : (scan formula).inError = true) :
    (State.start formula).run.mode = .error := by
  rw [← State.mode_flush]
  exact eq_of_beq h

end Scan

end SheetFormula
