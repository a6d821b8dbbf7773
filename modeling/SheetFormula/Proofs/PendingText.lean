import Mathlib.Logic.Function.Iterate
import SheetFormula.Proofs.Grammar.Lexeme
import SheetFormula.Proofs.ScanHeads

/-!
# What is pending inside a literal

Every step of a scan moves the cursor over some of the text, so the loop of a scan ends, and it ends at the
end of the text. At each of its heads inside a literal, what is pending is the text since the literal
began: in quoted text with the doubled quotes undone, in a bracket segment after what was pending before,
and in an error literal with none of the seven completed. A step out of the code begins a literal
(`State.Begins`), and a step that stays in a literal collects one character more (`State.GoesOn`). Main
statements:

* `State.begins_of_step`, `State.goesOn_of_step`: what a step does that ends inside a literal;
* `State.Begins.collected`, `State.Collected.goesOn`: what is pending after such a step;
* `getElem?_heads`, `iterate_length_heads`: the states of the loop by the number of steps;
* `pendingAt`: what is pending at every head;
* `scan_loop`: the loop makes progress, ends at the end of the text, and has that pending on the way.
-/

namespace SheetFormula.Scan

open Grammar (doubled)

/-! ## Parts of a text -/

/-- The text from the offset `i` on up to the offset `j`. -/
def between (text : List Char) (i j : Nat) : List Char := (text.take j).drop i

/-- The text with each two quotes that follow each other taken for one. -/
def undoubled (quote : Char) : List Char → List Char
  | c :: d :: cs =>
    if c = quote ∧ d = quote then quote :: undoubled quote cs else c :: undoubled quote (d :: cs)
  | cs => cs

theorem doubled_append (quote : Char) (cs ds : List Char) :
    doubled quote (cs ++ ds) = doubled quote cs ++ doubled quote ds :=
  List.flatMap_append

theorem doubled_cons_self (quote : Char) (cs : List Char) :
    doubled quote (quote :: cs) = quote :: quote :: doubled quote cs := by
  simp [doubled]

theorem doubled_cons_of_ne {quote c : Char} (h : c ≠ quote) (cs : List Char) :
    doubled quote (c :: cs) = c :: doubled quote cs := by
  simp [doubled, h]

theorem undoubled_cons_of_ne {quote c : Char} (h : c ≠ quote) (cs : List Char) :
    undoubled quote (c :: cs) = c :: undoubled quote cs := by
  cases cs with
  | nil => rfl
  | cons d cs => rw [undoubled, if_neg fun hquotes => h hquotes.1]

/-- To double the quotes of a text is undone. -/
theorem undoubled_doubled (quote : Char) (cs : List Char) : undoubled quote (doubled quote cs) = cs := by
  induction cs with
  | nil => rfl
  | cons c cs ih =>
    by_cases hc : c = quote
    · rw [hc, doubled_cons_self, undoubled, if_pos ⟨rfl, rfl⟩, ih]
    · rw [doubled_cons_of_ne hc, undoubled_cons_of_ne hc, ih]

theorem between_self (text : List Char) (i : Nat) : between text i i = [] :=
  List.drop_eq_nil_of_le (List.length_take_le i text)

/-- The text up to the cursor goes on with the text that the cursor is moved over. -/
theorem State.Located.between_add {whole : List Char} {s : State} (h : Located whole s) {i : Nat}
    (hi : i ≤ s.offset) {cs : List Char} (hcs : cs <+: s.rest) :
    between whole i (s.offset + cs.length) = between whole i s.offset ++ cs := by
  have hfits : i ≤ (whole.take s.offset).length := by
    rw [List.length_take, Nat.min_eq_left h.le]
    exact hi
  rw [between, List.take_add, List.drop_append_of_le_length hfits, ← h.rest,
    ← List.prefix_iff_eq_take.1 hcs]
  rfl

/-! ## Literals by their mode -/

/-- The character that begins the literals of a mode. -/
def Mode.opener? : Mode → Option Char
  | .code => none
  | .text => some '"'
  | .path => some '\x27'
  | .bracket => some '['
  | .error => some '#'

/-- What is pending right after the beginning of a literal: only a bracket keeps what was pending. -/
def Mode.openingText : Mode → String → String
  | .bracket, before => before.push '['
  | .error, _ => "#"
  | _, _ => ""

/-- The text that stands for a character inside the literals of a mode. -/
def Mode.spelling : Mode → Char → List Char
  | .text, c => doubled '"' [c]
  | .path, c => doubled '\x27' [c]
  | _, c => [c]

theorem Mode.ne_code_of_opener {m : Mode} {c : Char} (h : m.opener? = some c) : m ≠ .code := by
  rintro rfl
  cases h

namespace State

variable {s t : State} {c : Char} {rest : List Char}

/-! ## Steps into a literal and inside one -/

/-- The step from `s` to `t` begins a literal. -/
structure Begins (s t : State) : Prop where
  met : s.met? = t.mode.opener?
  offset : t.offset = s.offset + 1
  pending : t.pending = t.mode.openingText s.pending

/-- The step from `s` to `t` goes on with a literal by the character `c`. -/
structure GoesOn (s t : State) (c : Char) : Prop where
  mode : t.mode = s.mode
  spelling : s.mode.spelling c <+: s.rest
  offset : t.offset = s.offset + (s.mode.spelling c).length
  pending : t.pending = s.pending.push c
  bracket : s.mode = .bracket → c ≠ ']'
  error : s.mode = .error → t.pending ∉ errorLiterals

theorem begins_of_codeStep (hs : s.mode = .code) (hrest : s.rest = c :: rest)
    (h : (s.codeStep c rest).mode ≠ .code) : Begins s (s.codeStep c rest) := by
  have hmet : s.met? = some c := met?_of_code hs hrest
  revert h
  unfold codeStep
  split
  · simp [hs]
  · split
    -- the four delimiters that begin a literal
    case h_1 => rw [flushStray_eq]; exact fun _ => ⟨hmet, rfl, rfl⟩
    case h_2 => rw [flushStray_eq]; exact fun _ => ⟨hmet, rfl, rfl⟩
    case h_3 => exact fun _ => ⟨hmet, rfl, rfl⟩
    case h_4 => rw [flushStray_eq]; exact fun _ => ⟨hmet, rfl, rfl⟩
    case h_10 => split <;> simp [hs]
    case h_13 =>
      split
      · simp [hs]
      · split <;> simp [hs]
    all_goals simp [hs]

/-- A step from outside the literals that ends inside one begins it. -/
theorem begins_of_step (hs : s.mode = .code) (hrest : s.rest ≠ []) (h : s.step.mode ≠ .code) :
    Begins s s.step := by
  obtain ⟨c, rest, hcons⟩ := List.exists_cons_of_ne_nil hrest
  have hstep : s.step = s.codeStep c rest := by
    simp only [step, hcons, hs]
  rw [hstep] at h ⊢
  exact begins_of_codeStep hs hcons h

/-- A step that stays in quoted text collects one character, which a doubled quote stands for as well. -/
theorem goesOn_of_quotedStep {quote : Char} {closed : State → State}
    (hclosed : ∀ t : State, (closed t).mode = t.mode) (hs : s.mode = .text ∨ s.mode = .path)
    (hspelling : ∀ d, s.mode.spelling d = doubled quote [d]) (hrest : s.rest = c :: rest)
    (h : (s.quotedStep quote c closed).mode ≠ .code) : GoesOn s (s.quotedStep quote c closed) c := by
  have hbracket : s.mode ≠ .bracket := by rcases hs with hs | hs <;> rw [hs] <;> nofun
  have herror : s.mode ≠ .error := by rcases hs with hs | hs <;> rw [hs] <;> nofun
  revert h
  unfold quotedStep
  split
  · rename_i hquote
    subst hquote
    split
    · rename_i hnext
      obtain ⟨rest, rfl⟩ : ∃ rest', rest = c :: rest' := by
        rw [next?, hrest, List.getElem?_cons_succ, ← List.head?_eq_getElem?] at hnext
        exact List.head?_eq_some_iff.1 hnext
      intro _
      refine ⟨rfl, ?_, ?_, rfl, fun h => absurd h hbracket, fun h => absurd h herror⟩
      · rw [hspelling, doubled_cons_self, hrest]
        exact ⟨rest, rfl⟩
      · rw [hspelling, doubled_cons_self]
        rfl
    · simp [hclosed]
  · rename_i hquote
    intro _
    refine ⟨rfl, ?_, ?_, rfl, fun h => absurd h hbracket, fun h => absurd h herror⟩
    · rw [hspelling, doubled_cons_of_ne hquote, hrest]
      exact ⟨rest, rfl⟩
    · rw [hspelling, doubled_cons_of_ne hquote]
      rfl

/-- A step that stays in a bracket segment collects a character that does not end it. -/
theorem goesOn_of_bracketStep (hs : s.mode = .bracket) (hrest : s.rest = c :: rest)
    (h : (s.bracketStep c).mode ≠ .code) : GoesOn s (s.bracketStep c) c := by
  have hspelling : s.mode.spelling c = [c] := by rw [hs]; rfl
  revert h
  unfold bracketStep
  split
  · simp
  · rename_i hc
    refine fun _ => ⟨rfl, ?_, ?_, rfl, fun _ => hc, fun h => nomatch hs.symm.trans h⟩
    · rw [hspelling, hrest]
      exact ⟨rest, rfl⟩
    · rw [hspelling]
      rfl

/-- A step that stays in an error literal collects a character that does not complete it. -/
theorem goesOn_of_errorStep (hs : s.mode = .error) (hrest : s.rest = c :: rest)
    (h : (s.errorStep c).mode ≠ .code) : GoesOn s (s.errorStep c) c := by
  have hspelling : s.mode.spelling c = [c] := by rw [hs]; rfl
  revert h
  unfold errorStep
  dsimp only
  split
  · simp
  · rename_i hopen
    refine fun _ => ⟨rfl, ?_, ?_, rfl, (fun h => nomatch hs.symm.trans h), fun _ => hopen⟩
    · rw [hspelling, hrest]
      exact ⟨rest, rfl⟩
    · rw [hspelling]
      rfl

/-- A step from inside a literal that does not end it goes on with it. -/
theorem goesOn_of_step (hs : s.mode ≠ .code) (hrest : s.rest ≠ []) (h : s.step.mode ≠ .code) :
    ∃ c, GoesOn s s.step c := by
  obtain ⟨c, rest, hcons⟩ := List.exists_cons_of_ne_nil hrest
  refine ⟨c, ?_⟩
  revert h
  cases hmode : s.mode with
  | code => exact absurd hmode hs
  | text =>
    have hstep : s.step = s.quotedStep '"' c fun s => s.emitPending .operand .text := by
      simp only [step, hcons, hmode]
    rw [hstep]
    exact goesOn_of_quotedStep (fun _ => rfl) (.inl hmode) (fun _ => by rw [hmode]; rfl) hcons
  | path =>
    have hstep : s.step = s.quotedStep '\x27' c id := by
      simp only [step, hcons, hmode]
    rw [hstep]
    exact goesOn_of_quotedStep (fun _ => rfl) (.inr hmode) (fun _ => by rw [hmode]; rfl) hcons
  | bracket =>
    have hstep : s.step = s.bracketStep c := by
      simp only [step, hcons, hmode]
    rw [hstep]
    exact goesOn_of_bracketStep hmode hcons
  | error =>
    have hstep : s.step = s.errorStep c := by
      simp only [step, hcons, hmode]
    rw [hstep]
    exact goesOn_of_errorStep hmode hcons

/-! ## What is pending since the beginning of a literal -/

/-- What is pending after the text `cs` between quotes: the text with its doubled quotes undone, and no
quote in it stands alone. -/
structure Unquoted (quote : Char) (cs : List Char) (pending : String) : Prop where
  undone : pending.toList = undoubled quote cs
  doubled : cs = doubled quote pending.toList

/-- What is pending at `s`, inside a literal of the formula `whole` that began at `o`. -/
def Collected (whole : List Char) (o s : State) : Prop :=
  match s.mode with
  | .code => True
  | .text => Unquoted '"' (between whole (o.offset + 1) s.offset) s.pending
  | .path => Unquoted '\x27' (between whole (o.offset + 1) s.offset) s.pending
  | .bracket =>
    s.pending.toList = o.pending.toList ++ between whole o.offset s.offset ∧
      ']' ∉ between whole o.offset s.offset
  | .error =>
    s.pending.toList = between whole o.offset s.offset ∧ s.pending ≠ "" ∧
      ∀ e ∈ errorLiterals, ¬ e.toList <+: s.pending.toList

variable {whole : List Char} {o : State} {quote : Char}

theorem unquoted_nil (quote : Char) : Unquoted quote [] "" := ⟨rfl, rfl⟩

theorem Unquoted.concat {cs : List Char} {pending : String} (h : Unquoted quote cs pending) (c : Char) :
    Unquoted quote (cs ++ Grammar.doubled quote [c]) (pending.push c) := by
  have hdoubled : cs ++ Grammar.doubled quote [c] = Grammar.doubled quote (pending.push c).toList := by
    rw [String.toList_push, doubled_append, ← h.doubled]
  exact ⟨by rw [hdoubled, undoubled_doubled], hdoubled⟩

/-- The character that is met is the text right behind the cursor after one step. -/
theorem Located.between_met (hl : Located whole s) (hmet : s.met? = some c) :
    between whole s.offset (s.offset + 1) = [c] := by
  obtain ⟨-, rest, hrest⟩ := rest_of_met hmet
  have hprefix : [c] <+: s.rest := ⟨rest, hrest.symm⟩
  have hadd := hl.between_add (Nat.le_refl _) hprefix
  rwa [between_self, List.nil_append] at hadd

/-- What is pending right after a literal began. -/
theorem Begins.collected (h : Begins s t) (hl : Located whole s) : Collected whole s t := by
  obtain ⟨hmet, hoffset, hpending⟩ := h
  unfold Collected
  split
  · trivial
  · rename_i hmode
    rw [hoffset, between_self, hpending, hmode]
    exact unquoted_nil _
  · rename_i hmode
    rw [hoffset, between_self, hpending, hmode]
    exact unquoted_nil _
  · rename_i hmode
    rw [hmode] at hmet hpending
    rw [hoffset, hl.between_met hmet, hpending, Mode.openingText, String.toList_push]
    exact ⟨rfl, by decide⟩
  · rename_i hmode
    rw [hmode] at hmet hpending
    rw [hoffset, hl.between_met hmet, hpending, Mode.openingText]
    exact ⟨rfl, by decide, by decide⟩

/-- What is pending after one character more of a literal. -/
theorem Collected.goesOn (h : Collected whole o s) (hl : Located whole s) (ho : o.offset < s.offset)
    (hstep : GoesOn s t c) : Collected whole o t := by
  have hsince : ∀ i ≤ s.offset,
      between whole i t.offset = between whole i s.offset ++ s.mode.spelling c := fun i hi => by
    rw [hstep.offset, hl.between_add hi hstep.spelling]
  have hopen := hsince o.offset (Nat.le_of_lt ho)
  have hbody := hsince (o.offset + 1) ho
  have hpush : t.pending.toList = s.pending.toList ++ [c] := by
    rw [hstep.pending, String.toList_push]
  unfold Collected at h ⊢
  rw [hstep.mode]
  cases hmode : s.mode with
  | code => trivial
  | text =>
    simp only [hmode] at h hbody
    rw [hbody, hstep.pending]
    exact h.concat c
  | path =>
    simp only [hmode] at h hbody
    rw [hbody, hstep.pending]
    exact h.concat c
  | bracket =>
    simp only [hmode] at h hopen
    refine ⟨by rw [hpush, hopen, h.1, List.append_assoc]; rfl, fun hmem => ?_⟩
    rw [hopen] at hmem
    rcases List.mem_append.1 hmem with hmem | hmem
    · exact h.2 hmem
    · exact hstep.bracket hmode (List.mem_singleton.1 hmem).symm
  | error =>
    simp only [hmode] at h hopen
    refine ⟨by rw [hpush, hopen, h.1]; rfl, ?_, fun e he hprefix => ?_⟩
    · rw [← String.toList_inj.ne, hpush]
      exact List.concat_ne_nil _ _
    · rw [hpush, List.prefix_concat_iff, ← hpush] at hprefix
      rcases hprefix with heq | hprefix
      · exact hstep.error hmode (String.toList_inj.1 heq ▸ he)
      · exact h.2.2 e he hprefix

/-! ## The states of the loop -/

/-- The heads of a run are the states after the first steps. -/
theorem getElem?_heads {n : Nat} (hn : n < s.heads.length) : s.heads[n]? = some (step^[n] s) := by
  induction s using run.induct generalizing n with
  | case1 s hs => rw [heads_of_nil hs] at hn; exact absurd hn (Nat.not_lt_zero n)
  | case2 s hs ih =>
    rw [heads_of_ne_nil hs] at hn ⊢
    cases n with
    | zero => rfl
    | succ n =>
      rw [List.getElem?_cons_succ, ih (Nat.lt_of_succ_lt_succ hn), Function.iterate_succ_apply]

/-- A run takes as many steps as it has heads. -/
theorem iterate_length_heads (s : State) : step^[s.heads.length] s = s.run := by
  induction s using run.induct with
  | case1 s hs => rw [heads_of_nil hs, run_of_nil hs]; rfl
  | case2 s hs ih =>
    rw [heads_of_ne_nil hs, run_of_ne_nil hs, List.length_cons, Function.iterate_succ_apply, ih]

end State

/-! ## The loop of a scan -/

/-- The state of the scan of a formula after `n` steps. -/
def headAt (formula : String) (n : Nat) : State := State.step^[n] (State.start formula)

/-- How many steps the scan of a formula takes. -/
def steps (formula : String) : Nat := (State.start formula).heads.length

variable {formula : String} {m n : Nat}

theorem headAt_succ (formula : String) (n : Nat) : headAt formula (n + 1) = (headAt formula n).step :=
  Function.iterate_succ_apply' ..

theorem headAt_steps (formula : String) : headAt formula (steps formula) = (State.start formula).run :=
  State.iterate_length_heads _

theorem headAt_mem_heads (hn : n < steps formula) :
    headAt formula n ∈ (State.start formula).heads :=
  List.mem_of_getElem? (State.getElem?_heads hn)

theorem rest_headAt (hn : n < steps formula) : (headAt formula n).rest ≠ [] :=
  State.rest_of_mem_heads (headAt_mem_heads hn)

theorem located_headAt (hn : n ≤ steps formula) :
    State.Located (State.start formula).text (headAt formula n) := by
  rcases Nat.lt_or_eq_of_le hn with hlt | rfl
  · exact State.located_of_mem_heads (headAt_mem_heads hlt)
  · rw [headAt_steps]
    exact State.located_run formula

theorem offset_headAt_lt (hn : n < steps formula) :
    (headAt formula n).offset < (headAt formula (n + 1)).offset := by
  rw [headAt_succ]
  exact State.offset_step_lt (rest_headAt hn)

/-- The cursor has passed at least as many characters as steps were taken. -/
theorem le_offset_headAt (hn : n ≤ steps formula) : n ≤ (headAt formula n).offset := by
  induction n with
  | zero => exact Nat.zero_le _
  | succ n ih => exact Nat.lt_of_le_of_lt (ih (Nat.le_of_succ_le hn)) (offset_headAt_lt hn)

theorem offset_headAt_lt_of_lt (hmn : m < n) (hn : n ≤ steps formula) :
    (headAt formula m).offset < (headAt formula n).offset := by
  induction n with
  | zero => exact absurd hmn (Nat.not_lt_zero m)
  | succ n ih =>
    have hstep : (headAt formula n).offset < (headAt formula (n + 1)).offset := offset_headAt_lt hn
    rcases Nat.lt_succ_iff_lt_or_eq.1 hmn with hlt | rfl
    · exact Nat.lt_trans (ih hlt (Nat.le_of_succ_le hn)) hstep
    · exact hstep

/-- After `n` steps the scan is inside a literal that it met the beginning `c` of after `m` steps. -/
structure Inside (formula : String) (c : Char) (m n : Nat) : Prop where
  lt : m < n
  met : (headAt formula m).met? = some c
  stays : ∀ i, m < i → i ≤ n → (headAt formula i).mode = (headAt formula n).mode

/-- What is pending after `n` steps if that is inside a literal. -/
def PendingAt (formula : String) (n : Nat) : Prop :=
  ∀ c, (headAt formula n).mode.opener? = some c →
    ∃ m, Inside formula c m n ∧
      State.Collected (State.start formula).text (headAt formula m) (headAt formula n)

/-- One more step keeps what is pending determined by the literal that it is in. -/
theorem PendingAt.succ (h : PendingAt formula n) (hn : n < steps formula) :
    PendingAt formula (n + 1) := by
  intro c hc
  have hmode := Mode.ne_code_of_opener hc
  have hlocated := located_headAt (Nat.le_of_lt hn)
  by_cases hcode : (headAt formula n).mode = .code
  · -- a literal begins
    have hbegins : State.Begins (headAt formula n) (headAt formula (n + 1)) := by
      rw [headAt_succ] at hmode ⊢
      exact State.begins_of_step hcode (rest_headAt hn) hmode
    refine ⟨n, ⟨Nat.lt_succ_self n, hbegins.met.trans hc, fun i hlt hle => ?_⟩,
      hbegins.collected hlocated⟩
    rw [Nat.le_antisymm hle hlt]
  · -- the literal that the scan is in goes on
    obtain ⟨d, hgoes⟩ : ∃ d, State.GoesOn (headAt formula n) (headAt formula (n + 1)) d := by
      rw [headAt_succ] at hmode ⊢
      exact State.goesOn_of_step hcode (rest_headAt hn) hmode
    obtain ⟨m, hinside, hcollected⟩ := h c (hgoes.mode ▸ hc)
    refine ⟨m, ⟨Nat.lt_succ_of_lt hinside.lt, hinside.met, fun i hlt hle => ?_⟩,
      hcollected.goesOn hlocated (offset_headAt_lt_of_lt hinside.lt (Nat.le_of_lt hn)) hgoes⟩
    rcases Nat.le_succ_iff.1 hle with hle | rfl
    · rw [hinside.stays i hlt hle, hgoes.mode]
    · rfl

/-- What is pending at every head of the loop. -/
theorem pendingAt (hn : n ≤ steps formula) : PendingAt formula n := by
  induction n with
  | zero => exact fun c hc => nomatch hc
  | succ n ih => exact (ih (Nat.le_of_succ_le hn)).succ hn

/-- The loop of the scan of a formula, which ends after `k` steps. -/
structure Loop (formula : String) (k : Nat) : Prop where
  /-- There is text under the cursor as long as the loop goes on. -/
  guard : ∀ n < k, (headAt formula n).rest ≠ []
  advances : ∀ n < k, (headAt formula n).offset + 1 ≤ (headAt formula (n + 1)).offset
  inBounds : ∀ n ≤ k, (headAt formula n).offset ≤ (scan formula).formula.length
  /-- The text that is left is that from the offset on. -/
  rest : ∀ n ≤ k, (headAt formula n).rest =
    (scan formula).formula.toList.drop (headAt formula n).offset
  bound : k ≤ (scan formula).formula.length
  finished : (headAt formula k).rest = []
  last : headAt formula k = (State.start formula).run
  ending : (headAt formula k).offset = (scan formula).formula.length
  pending : ∀ n ≤ k, PendingAt formula n

/-- Every step of the loop of a scan moves the cursor, and not beyond the text, so the loop ends at the
end of the text; and at every head, what is pending inside a literal is determined by the text since the
literal began. -/
theorem scan_loop (formula : String) : ∃ k, Loop formula k := by
  have hlength : (scan formula).formula.length = (State.start formula).text.length := by
    rw [formula_scan, String.length_ofList]
  have hending : (headAt formula (steps formula)).offset = (scan formula).formula.length := by
    rw [headAt_steps, State.offset_run, hlength]
  exact ⟨steps formula, {
    guard := fun n hn => rest_headAt hn
    advances := fun n hn => offset_headAt_lt hn
    inBounds := fun n hn => hlength ▸ (located_headAt hn).le
    rest := fun n hn => by rw [(located_headAt hn).rest, formula_scan, String.toList_ofList]
    bound := hending ▸ le_offset_headAt (Nat.le_refl _)
    finished := by rw [headAt_steps, State.rest_run]
    last := headAt_steps formula
    ending := hending
    pending := fun n hn => pendingAt hn }⟩

end SheetFormula.Scan
