import SheetFormula.Proofs.Grammar.Lexeme
import SheetFormula.Proofs.StructureCheck

/-!
# Following a scan through a text

What a scan does next depends on the kind of text that it is in, the text that is left, the pending text
and the open scopes, so a state is described by these and by the tokens that were put out (`Shows`). A
scan visits such a description if it comes by a state with it (`Visits`), and each rule of the scanner
leads from one visit to the next. Main statements:

* `Visits.step`: a rule that holds of all states with one description leads to the next;
* `Visits.plains`, `Visits.quotedText`, `Visits.bracketText`, `Visits.errorText`: the runs of characters
  that are collected;
* `Visits.spaces`, `Visits.operator`, `Visits.pair` and the like: the delimiters.
-/

namespace SheetFormula.Grammar

open SheetFormula.Scan

/-- The token that pending text is put out as before a delimiter, if there is any. -/
def held (pending : List Char) : List Token :=
  if pending = [] then [] else [⟨String.ofList pending, .operand, .plain⟩]

/-- The state is in this kind of text, with this text left, this text pending, these scopes open, and
these tokens put out, and no scope was closed where none was open. -/
structure Shows (mode : Mode) (rest pending : List Char) (σ : ScopeStack) (out : List Token)
    (s : State) : Prop where
  mode : s.mode = mode
  rest : s.rest = rest
  pending : s.pending = String.ofList pending
  scopes : s.scopes = σ
  tokens : s.tokens = out
  clean : ∀ e ∈ s.trace.toList, e.isUnopened = false

variable {mode : Mode} {rest pending : List Char} {σ : ScopeStack} {out : List Token} {s : State}

namespace Shows

/-! ## What the operations show -/

theorem advance (h : Shows mode rest pending σ out s) (n : Nat) :
    Shows mode (rest.drop n) pending σ out (s.advance n) :=
  ⟨h.mode, congrArg (List.drop n) h.rest, h.pending, h.scopes, h.tokens, h.clean⟩

theorem enter (h : Shows mode rest pending σ out s) (m : Mode) :
    Shows m rest pending σ out (s.enter m) :=
  ⟨rfl, h.rest, h.pending, h.scopes, h.tokens, h.clean⟩

theorem collect (h : Shows mode rest pending σ out s) (c : Char) :
    Shows mode rest (pending ++ [c]) σ out (s.collect c) := by
  refine ⟨h.mode, h.rest, ?_, h.scopes, h.tokens, h.clean⟩
  rw [State.pending_collect, h.pending, String.push_eq_append, String.ofList_append,
    String.singleton_eq_ofList]

/-- An entry with a token is added. -/
theorem note (h : Shows mode rest pending σ out s) {e : Entry} {t : Token} (he : e.token? = some t) :
    Shows mode rest pending σ (out ++ [t]) (s.note e) := by
  refine ⟨h.mode, h.rest, h.pending, h.scopes, ?_, fun f hf => ?_⟩
  · rw [State.tokens, State.trace_note, Array.toList_push, tokensOf_append, ← h.tokens]
    simp only [tokensOf, List.filterMap_cons, he, List.filterMap_nil]
    rfl
  · rw [State.trace_note, Array.toList_push, List.mem_append, List.mem_singleton] at hf
    rcases hf with hf | rfl
    · exact h.clean f hf
    · cases f <;> first | rfl | cases he

theorem emit (h : Shows mode rest pending σ out s) (t : Token) :
    Shows mode rest pending σ (out ++ [t]) (s.emit t) :=
  h.note (e := .token s.offset t) rfl

theorem dropPending (h : Shows mode rest pending σ out s) :
    Shows mode rest [] σ out s.dropPending :=
  ⟨h.mode, h.rest, rfl, h.scopes, h.tokens, h.clean⟩

theorem emitPending (h : Shows mode rest pending σ out s) (k : Kind) (u : Subkind) :
    Shows mode rest [] σ (out ++ [⟨String.ofList pending, k, u⟩]) (s.emitPending k u) := by
  rw [State.emitPending, h.pending]
  exact h.dropPending.emit _

theorem pending_eq_empty_iff (h : Shows mode rest pending σ out s) :
    s.pending = "" ↔ pending = [] := by
  rw [h.pending, ← String.ofList_nil, String.ofList_inj]

theorem flush (h : Shows mode rest pending σ out s) :
    Shows mode rest [] σ (out ++ held pending) s.flush := by
  rw [State.flush, held]
  by_cases hp : pending = []
  · rw [if_pos (h.pending_eq_empty_iff.2 hp), if_pos hp, List.append_nil]
    exact hp ▸ h
  · rw [if_neg (mt h.pending_eq_empty_iff.1 hp), if_neg hp]
    exact h.emitPending _ _

/-- With nothing pending, there is nothing that a delimiter cannot follow. -/
theorem flushStray (h : Shows mode rest [] σ out s) (c : Char) :
    Shows mode rest [] σ out (s.flushStray c) := by
  rw [State.flushStray, if_pos (h.pending_eq_empty_iff.2 rfl)]
  exact h

theorem openScope (h : Shows mode rest pending σ out s) (value : String) (k : Kind) :
    Shows mode rest pending (σ.push ⟨value, k, .start⟩) (out ++ [⟨value, k, .start⟩])
      (s.openScope value k) := by
  obtain ⟨hmode, hrest, hpending, rfl, htokens, hclean⟩ := h
  have hs : Shows mode rest pending (s.scopes.push ⟨value, k, .start⟩) out
      { s with scopes := s.scopes.push ⟨value, k, .start⟩ } :=
    ⟨hmode, hrest, hpending, rfl, htokens, hclean⟩
  exact hs.note (e := .opened _ _ _) rfl

theorem openPending (h : Shows mode rest pending σ out s) :
    Shows mode rest [] (σ.push ⟨String.ofList pending, .function, .start⟩)
      (out ++ [⟨String.ofList pending, .function, .start⟩]) s.openPending := by
  rw [State.openPending, h.pending]
  exact h.dropPending.openScope _ _

/-- Where a scope is open, a closing delimiter closes it. -/
theorem closeScope (h : Shows mode rest pending σ out s) (hσ : σ.isEmpty = false) (c : Char) :
    Shows mode rest pending σ.pop (out ++ [σ.closing]) (s.closeScope c) := by
  obtain ⟨hmode, hrest, hpending, rfl, htokens, hclean⟩ := h
  have hs : Shows mode rest pending s.scopes.pop out { s with scopes := s.scopes.pop } :=
    ⟨hmode, hrest, hpending, rfl, htokens, hclean⟩
  rw [State.closeScope, hσ, if_neg (by decide)]
  exact hs.note (e := .closed _) rfl

end Shows

/-! ## Visits -/

/-- The scan that ends in `stop` comes by a state of this description. -/
def Visits (stop : State) (mode : Mode) (rest pending : List Char) (σ : ScopeStack)
    (out : List Token) : Prop :=
  ∃ s : State, s.run = stop ∧ Shows mode rest pending σ out s

variable {stop : State} {c : Char}

/-- A step that leads from every state of one description to one of the other. -/
theorem Visits.step {mode' : Mode} {rest' pending' : List Char} {σ' : ScopeStack} {out' : List Token}
    (h : Visits stop mode (c :: rest) pending σ out)
    (hstep : ∀ s, Shows mode (c :: rest) pending σ out s → Shows mode' rest' pending' σ' out' s.step) :
    Visits stop mode' rest' pending' σ' out' := by
  obtain ⟨s, hrun, hs⟩ := h
  have hne : s.rest ≠ [] := by
    rw [hs.rest]
    exact List.cons_ne_nil c rest
  exact ⟨s.step, (State.run_of_ne_nil hne).symm.trans hrun, hstep s hs⟩

/-- A step takes the rule for the kind of text that the scan is in. -/
theorem Shows.step_eq :
    Shows mode (c :: rest) pending σ out s → s.step =
      match mode with
      | .code => s.codeStep c rest
      | .text => s.quotedStep '"' c fun s => s.emitPending .operand .text
      | .path => s.quotedStep '\x27' c id
      | .bracket => s.bracketStep c
      | .error => s.errorStep c := by
  intro h
  cases mode <;> simp only [State.step, h.rest, h.mode]

theorem Shows.step_code (h : Shows .code (c :: rest) pending σ out s) :
    s.step = s.codeStep c rest := h.step_eq

theorem Shows.step_text (h : Shows .text (c :: rest) pending σ out s) :
    s.step = s.quotedStep '"' c fun s => s.emitPending .operand .text := h.step_eq

theorem Shows.step_path (h : Shows .path (c :: rest) pending σ out s) :
    s.step = s.quotedStep '\x27' c id := h.step_eq

theorem Shows.step_bracket (h : Shows .bracket (c :: rest) pending σ out s) :
    s.step = s.bracketStep c := h.step_eq

theorem Shows.step_error (h : Shows .error (c :: rest) pending σ out s) :
    s.step = s.errorStep c := h.step_eq

/-! ## Characters that are collected -/

theorem codeStep_plain (h : isPlain c = true) (s : State) :
    s.codeStep c rest = (s.collect c).advance 1 := by
  have hne : ∀ d ∈ delimiters, c ≠ d := fun d hd => ne_of_isPlain h hd
  have hpair : isComparisonPair c rest = false := by
    unfold isComparisonPair
    split
    · simp [hne '<' (by decide), hne '>' (by decide)]
    · simp [hne '<' (by decide)]
    · rfl
  have hinfix : isInfixChar c = false := by
    rw [← Bool.not_eq_true]
    intro hinfix
    simp only [isInfixChar, Bool.or_eq_true, beq_iff_eq] at hinfix
    rcases hinfix with (((((((rfl | rfl) | rfl) | rfl) | rfl) | rfl) | rfl) | rfl) | rfl <;>
      exact absurd h (by decide)
  unfold State.codeStep
  split
  · rfl
  · split
    case h_8 => exact absurd h (by decide)
    case h_13 => rw [hpair, hinfix, if_neg (by decide), if_neg (by decide)]
    all_goals exact absurd rfl (hne _ (by decide))

theorem Visits.plains {cs : List Char} (hcs : ∀ c ∈ cs, isPlain c = true)
    (h : Visits stop .code (cs ++ rest) pending σ out) :
    Visits stop .code rest (pending ++ cs) σ out := by
  induction cs generalizing pending with
  | nil => rwa [List.append_nil]
  | cons c cs ih =>
    rw [List.append_cons]
    refine ih (fun d hd => hcs d (List.mem_cons_of_mem c hd)) (h.step fun s hs => ?_)
    rw [hs.step_code, codeStep_plain (hcs c List.mem_cons_self)]
    exact (hs.collect c).advance 1

/-- The text between quotes is collected, and each of its quotes once. -/
theorem Visits.quoted {quote : Char} {closed : State → State} {cs : List Char}
    (hmode : ∀ {c rest p s}, Shows mode (c :: rest) p σ out s → s.step = s.quotedStep quote c closed)
    (h : Visits stop mode (doubled quote cs ++ rest) pending σ out) :
    Visits stop mode rest (pending ++ cs) σ out := by
  induction cs generalizing pending with
  | nil => rwa [List.append_nil]
  | cons c cs ih =>
    rw [List.append_cons]
    by_cases hc : c = quote
    · have hq : doubled quote (c :: cs) ++ rest = quote :: quote :: (doubled quote cs ++ rest) := by
        simp [doubled, hc]
      rw [hq] at h
      refine ih (h.step fun s hs => ?_)
      have hnext : s.next? = some quote := by
        rw [State.next?, hs.rest]
        rfl
      rw [hmode hs, State.quotedStep, if_pos rfl, if_pos hnext, hc]
      exact (hs.collect quote).advance 2
    · have hq : doubled quote (c :: cs) ++ rest = c :: (doubled quote cs ++ rest) := by
        simp [doubled, hc]
      rw [hq] at h
      refine ih (h.step fun s hs => ?_)
      rw [hmode hs, State.quotedStep, if_neg hc]
      exact (hs.collect c).advance 1

/-- A single quote ends the text between quotes. -/
theorem Shows.quotedStep_close {quote : Char} (closed : State → State)
    (h : Shows mode (quote :: rest) pending σ out s) (hrest : rest.head? ≠ some quote) :
    s.quotedStep quote quote closed = (closed (s.enter .code)).advance 1 := by
  have hnext : s.next? ≠ some quote := by
    rw [State.next?, h.rest]
    cases rest with
    | nil => exact nofun
    | cons d rest => exact hrest
  rw [State.quotedStep, if_pos rfl, if_neg hnext]

/-- A text literal. -/
theorem Visits.quotedText {cs : List Char} (hrest : rest.head? ≠ some '"')
    (h : Visits stop .code ('"' :: (doubled '"' cs ++ '"' :: rest)) [] σ out) :
    Visits stop .code rest [] σ (out ++ [⟨String.ofList cs, .operand, .text⟩]) := by
  have hopen : Visits stop .text (doubled '"' cs ++ '"' :: rest) [] σ out := by
    refine h.step fun s hs => ?_
    rw [hs.step_code]
    exact ((hs.flushStray '"').enter .text).advance 1
  refine (hopen.quoted Shows.step_text).step fun s hs => ?_
  rw [hs.step_text, hs.quotedStep_close _ hrest]
  exact ((hs.enter .code).emitPending .operand .text).advance 1

/-- A path is left pending. -/
theorem Visits.quotedPath {cs : List Char} (hrest : rest.head? ≠ some '\x27')
    (h : Visits stop .code ('\x27' :: (doubled '\x27' cs ++ '\x27' :: rest)) [] σ out) :
    Visits stop .code rest cs σ out := by
  have hopen : Visits stop .path (doubled '\x27' cs ++ '\x27' :: rest) [] σ out := by
    refine h.step fun s hs => ?_
    rw [hs.step_code]
    exact ((hs.flushStray '\x27').enter .path).advance 1
  refine (hopen.quoted Shows.step_path).step fun s hs => ?_
  rw [hs.step_path, hs.quotedStep_close _ hrest]
  exact (hs.enter .code).advance 1

/-- A bracket segment is left pending, with its brackets. -/
theorem Visits.bracketText {cs : List Char} (hcs : ']' ∉ cs)
    (h : Visits stop .code ('[' :: (cs ++ ']' :: rest)) pending σ out) :
    Visits stop .code rest (pending ++ '[' :: (cs ++ [']'])) σ out := by
  have hinner : ∀ {pending}, Visits stop .bracket (cs ++ ']' :: rest) pending σ out →
      Visits stop .bracket (']' :: rest) (pending ++ cs) σ out := by
    clear h
    induction cs with
    | nil => exact fun h => by rwa [List.append_nil]
    | cons c cs ih =>
      intro pending h
      rw [List.mem_cons, not_or] at hcs
      rw [List.append_cons]
      refine ih hcs.2 (h.step fun s hs => ?_)
      rw [hs.step_bracket, State.bracketStep, if_neg (Ne.symm hcs.1)]
      exact (hs.collect c).advance 1
  have hopen : Visits stop .bracket (cs ++ ']' :: rest) (pending ++ ['[']) σ out := by
    refine h.step fun s hs => ?_
    rw [hs.step_code]
    exact ((hs.enter .bracket).collect '[').advance 1
  have hclose : Visits stop .code rest (pending ++ ['['] ++ cs ++ [']']) σ out := by
    refine (hinner hopen).step fun s hs => ?_
    rw [hs.step_bracket, State.bracketStep, if_pos rfl]
    exact ((hs.enter .code).collect ']').advance 1
  simpa using hclose

/-- The rest of an error literal: none of the texts on the way is an error literal, and then it is. -/
theorem Visits.errorText {cs : List Char} (hcs : cs ≠ [])
    (hshort : ∀ n < cs.length, String.ofList (pending ++ cs.take n) ∉ errorLiterals)
    (hfull : String.ofList (pending ++ cs) ∈ errorLiterals)
    (h : Visits stop .error (cs ++ rest) pending σ out) :
    Visits stop .code rest [] σ (out ++ [⟨String.ofList (pending ++ cs), .operand, .error⟩]) := by
  induction cs generalizing pending with
  | nil => exact absurd rfl hcs
  | cons c cs ih =>
    rw [List.append_cons pending c cs] at hfull ⊢
    have hstep : ∀ s, Shows .error (c :: (cs ++ rest)) pending σ out s →
        Shows .error (cs ++ rest) (pending ++ [c]) σ out ((s.collect c).advance 1) :=
      fun s hs => (hs.collect c).advance 1
    cases cs with
    | nil =>
      rw [List.append_nil] at hfull ⊢
      refine h.step fun s hs => ?_
      have hs' := hstep s hs
      rw [hs.step_error, State.errorStep]
      simp only [hs'.pending, if_pos hfull]
      exact (hs'.enter .code).emitPending .operand .error
    | cons d cs =>
      refine ih (List.cons_ne_nil d cs) (fun n hn => ?_) hfull (h.step fun s hs => ?_)
      · have hn' := hshort (n + 1) (Nat.succ_lt_succ hn)
        rwa [List.take_succ_cons, List.append_cons] at hn'
      · have hs' := hstep s hs
        have hmore : String.ofList (pending ++ [c]) ∉ errorLiterals := by
          have h1 := hshort 1 (Nat.succ_lt_succ (Nat.zero_lt_succ _))
          rwa [List.take_succ_cons, List.take_zero] at h1
        rw [hs.step_error, State.errorStep]
        simp only [hs'.pending, if_neg hmore]
        exact hs'

/-- An error literal. -/
theorem Visits.errorLiteral {e : String} (he : e ∈ errorLiterals)
    (h : Visits stop .code (e.toList ++ rest) [] σ out) :
    Visits stop .code rest [] σ (out ++ [⟨e, .operand, .error⟩]) := by
  obtain ⟨cs, hcs, hne, hshort⟩ : ∃ cs, e.toList = '#' :: cs ∧ cs ≠ [] ∧
      ∀ n < cs.length, String.ofList ('#' :: cs.take n) ∉ errorLiterals := by
    simp only [errorLiterals, List.mem_cons, List.not_mem_nil, or_false] at he
    rcases he with rfl | rfl | rfl | rfl | rfl | rfl | rfl <;> exact ⟨_, rfl, by decide, by decide⟩
  have hfull : String.ofList ('#' :: cs) = e := by rw [← hcs, String.ofList_toList]
  rw [hcs] at h
  have hopen : Visits stop .error (cs ++ rest) ['#'] σ out := by
    refine h.step fun s hs => ?_
    rw [hs.step_code]
    exact (((hs.flushStray '#').enter .error).collect '#').advance 1
  rw [← hfull]
  exact hopen.errorText hne hshort (hfull.symm ▸ he)

/-! ## Delimiters -/

theorem takeWhile_spaces (n : Nat) (hrest : rest.head? ≠ some ' ') :
    (List.replicate n ' ' ++ rest).takeWhile (· = ' ') = List.replicate n ' ' := by
  have hnone : rest.takeWhile (· = ' ') = [] := by
    cases rest with
    | nil => rfl
    | cons c rest => exact List.takeWhile_cons_of_neg (by simpa using hrest)
  rw [List.takeWhile_append_of_pos (by simp), hnone, List.append_nil]

/-- A run of spaces, to its end. -/
theorem Visits.spaces (n : Nat) (hrest : rest.head? ≠ some ' ')
    (h : Visits stop .code (List.replicate (n + 1) ' ' ++ rest) pending σ out) :
    Visits stop .code rest [] σ (out ++ held pending ++ [⟨"", .whitespace, .plain⟩]) := by
  refine h.step fun s hs => ?_
  have hstep : s.step = (s.flush.emit ⟨"", .whitespace, .plain⟩).advance (1 + n) := by
    rw [hs.step_code]
    show (s.flush.emit _).advance (1 + ((List.replicate n ' ' ++ rest).takeWhile (· = ' ')).length) = _
    rw [takeWhile_spaces n hrest, List.length_replicate]
  have hdrop : (List.replicate (n + 1) ' ' ++ rest).drop (1 + n) = rest :=
    List.drop_left' (by rw [List.length_replicate, Nat.add_comm])
  have hs' := (hs.flush.emit ⟨"", .whitespace, .plain⟩).advance (1 + n)
  rwa [hstep, ← hdrop]

theorem Visits.percent (h : Visits stop .code ('%' :: rest) pending σ out) :
    Visits stop .code rest [] σ (out ++ held pending ++ [⟨"%", .postfixOp, .plain⟩]) := by
  refine h.step fun s hs => ?_
  rw [hs.step_code]
  exact (hs.flush.emit _).advance 1

theorem Visits.comma (h : Visits stop .code (',' :: rest) pending σ out) :
    Visits stop .code rest [] σ (out ++ held pending ++ [commaToken σ]) := by
  refine h.step fun s hs => ?_
  have hstep : s.codeStep ',' rest = (s.flush.emit (commaToken s.scopes)).advance 1 := rfl
  rw [hs.step_code, hstep, hs.scopes]
  exact (hs.flush.emit _).advance 1

theorem codeStep_paren (s : State) : s.codeStep '(' rest =
    (if s.pending = "" then s.openScope "" .subexpression else s.openPending).advance 1 := rfl

/-- An opening parenthesis with nothing pending. -/
theorem Visits.group (h : Visits stop .code ('(' :: rest) [] σ out) :
    Visits stop .code rest [] (σ.push ⟨"", .subexpression, .start⟩)
      (out ++ [⟨"", .subexpression, .start⟩]) := by
  refine h.step fun s hs => ?_
  rw [hs.step_code, codeStep_paren, if_pos (hs.pending_eq_empty_iff.2 rfl)]
  exact (hs.openScope "" .subexpression).advance 1

/-- An opening parenthesis after a name. -/
theorem Visits.call (hpending : pending ≠ []) (h : Visits stop .code ('(' :: rest) pending σ out) :
    Visits stop .code rest [] (σ.push ⟨String.ofList pending, .function, .start⟩)
      (out ++ [⟨String.ofList pending, .function, .start⟩]) := by
  refine h.step fun s hs => ?_
  rw [hs.step_code, codeStep_paren, if_neg (mt hs.pending_eq_empty_iff.1 hpending)]
  exact hs.openPending.advance 1

theorem Visits.close (hσ : σ.isEmpty = false) (h : Visits stop .code (')' :: rest) pending σ out) :
    Visits stop .code rest [] σ.pop (out ++ held pending ++ [σ.closing]) := by
  refine h.step fun s hs => ?_
  rw [hs.step_code]
  exact (hs.flush.closeScope hσ ')').advance 1

theorem Visits.array (h : Visits stop .code ('\x7b' :: rest) [] σ out) :
    Visits stop .code rest [] ((σ.push arrayToken).push rowToken) (out ++ [arrayToken, rowToken]) := by
  refine h.step fun s hs => ?_
  rw [hs.step_code, List.append_cons]
  exact (((hs.flushStray '\x7b').openScope arrayName .function).openScope rowName .function).advance 1

theorem Visits.row (hσ : σ.isEmpty = false) (h : Visits stop .code (';' :: rest) pending σ out) :
    Visits stop .code rest [] (σ.pop.push rowToken)
      (out ++ held pending ++ [σ.closing, argumentToken, rowToken]) := by
  refine h.step fun s hs => ?_
  rw [hs.step_code, List.append_cons, List.append_cons]
  exact (((hs.flush.closeScope hσ ';').emit _).openScope rowName .function).advance 1

theorem Visits.closeArray (hσ : σ.isEmpty = false) (hpop : σ.pop.isEmpty = false)
    (h : Visits stop .code ('\x7d' :: rest) pending σ out) :
    Visits stop .code rest [] σ.pop.pop (out ++ held pending ++ [σ.closing, σ.pop.closing]) := by
  refine h.step fun s hs => ?_
  rw [hs.step_code, List.append_cons]
  exact ((hs.flush.closeScope hσ '\x7d').closeScope hpop '\x7d').advance 1

theorem codeStep_infix (hc : isInfixChar c = true)
    (hsteady : Text.isExponentStem s.pending.toList = false) :
    s.codeStep c rest =
      if isComparisonPair c rest then
        (s.flush.emit ⟨String.ofList (c :: rest.take 1), .infixOp, .logical⟩).advance 2
      else (s.flush.emit ⟨String.singleton c, .infixOp, .plain⟩).advance 1 := by
  have hsign : ¬((c = '+' ∨ c = '-') ∧ Text.isExponentStem s.pending.toList = true) := by
    rw [hsteady]
    exact fun h => nomatch h.2
  rw [State.codeStep, if_neg hsign, if_pos hc]
  all_goals
    rintro rfl
    exact absurd hc (by decide)

/-- An infix operator of one character, where no sign belongs to the pending text. -/
theorem Visits.operator (hc : isInfixChar c = true) (hpair : isComparisonPair c rest = false)
    (hsteady : Text.isExponentStem pending = false)
    (h : Visits stop .code (c :: rest) pending σ out) :
    Visits stop .code rest [] σ (out ++ held pending ++ [⟨String.singleton c, .infixOp, .plain⟩]) := by
  refine h.step fun s hs => ?_
  have hsteady' : Text.isExponentStem s.pending.toList = false := by
    rwa [hs.pending, String.toList_ofList]
  rw [hs.step_code, codeStep_infix hc hsteady', hpair, if_neg (by decide)]
  exact (hs.flush.emit _).advance 1

/-- A comparison of two characters. -/
theorem Visits.pair {d : Char} (hc : isInfixChar c = true) (hpair : isComparisonPair c (d :: rest) = true)
    (hsteady : Text.isExponentStem pending = false)
    (h : Visits stop .code (c :: d :: rest) pending σ out) :
    Visits stop .code rest [] σ
      (out ++ held pending ++ [⟨String.ofList [c, d], .infixOp, .logical⟩]) := by
  refine h.step fun s hs => ?_
  have hsteady' : Text.isExponentStem s.pending.toList = false := by
    rwa [hs.pending, String.toList_ofList]
  rw [hs.step_code, codeStep_infix hc hsteady', hpair, if_pos rfl]
  exact (hs.flush.emit _).advance 2

end SheetFormula.Grammar
