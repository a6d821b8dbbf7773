import SheetFormula.Scan.Result

/-!
# What a scan can do to the open scopes

A scan changes the open scopes in a few ways only, whatever the text: it opens a scope, closes one,
changes one row of an array for the next, or leaves them as they are while it puts out another token.
`Move` lists these ways, each with the entries that it leaves in the trace, and a `Walk` is a sequence
of moves. Every scan is a walk, so what is to be known of the scopes and of the tokens of all scans is
proved for each move, and then by induction on walks, without looking at the rules of the scanner
again. Main statements:

* `run_induction`: what every step keeps holds at the end of the text;
* `walks_step`, `walk_scan`: a step adds one or more moves to the walk, so a scan is a walk;
* `Walk.started`: the scopes that are open on a walk are those that it opened;
* `Walk.token_cases`: the sorts of tokens that a walk puts out.
-/

namespace SheetFormula.Scan

namespace State

/-! ## Runs -/

/-- A property that every step keeps holds at the end of a run. -/
theorem run_induction {P : State → Prop} (hstep : ∀ s, s.rest ≠ [] → P s → P s.step) {s : State}
    (h : P s) : P s.run := by
  induction s using run.induct with
  | case1 s hs => rwa [run_of_nil hs]
  | case2 s hs ih =>
    rw [run_of_ne_nil hs]
    exact ih (hstep s hs h)

theorem rest_run (s : State) : s.run.rest = [] := by
  induction s using run.induct with
  | case1 s hs => rw [run_of_nil hs, hs]
  | case2 s hs ih => rw [run_of_ne_nil hs, ih]

end State

/-! ## Moves and walks -/

/-- A token that neither opens nor closes a scope nor separates anything. -/
def isSimple (t : Token) : Bool :=
  match t.kind, t.subkind with
  | .operand, .plain | .operand, .text | .operand, .error | .unknown, .plain => true
  | .infixOp, .plain | .infixOp, .logical | .postfixOp, .plain => true
  | .whitespace, .plain => t.value == ""
  | _, _ => false

/-- The separator of two arguments, or of two rows. -/
def argumentToken : Token := ⟨",", .argument, .plain⟩

/-- The token that begins a row of an array. -/
def rowToken : Token := ⟨rowName, .function, .start⟩

/-- The entries of closing the innermost of some scopes. -/
def closingEntries (σ : ScopeStack) (offset : Nat) (delimiter : Char) : List Entry :=
  if σ.isEmpty then [.unopened offset delimiter, .closed σ.closing] else [.closed σ.closing]

/-- The ways in which a scan changes the open scopes, with the entries that each leaves. -/
inductive Move (σ : ScopeStack) : List Entry → ScopeStack → Prop
  /-- A token of no concern to the scopes. -/
  | token {t : Token} (offset : Nat) (ht : isSimple t = true) : Move σ [.token offset t] σ
  /-- A comma, which the innermost scope gives its meaning. -/
  | comma (offset : Nat) : Move σ [.token offset (commaToken σ)] σ
  /-- Text where no operand can be. -/
  | stray (offset : Nat) (delimiter : Char) (pending : String) :
    Move σ [.stray offset delimiter pending] σ
  /-- A scope is opened. -/
  | opened {k : Kind} (offset : Nat) (value : String) (hk : k.isScope = true) :
    Move σ [.opened offset (σ.depth + 1) ⟨value, k, .start⟩] (σ.push ⟨value, k, .start⟩)
  /-- The innermost scope is closed, if there is one. -/
  | closed (offset : Nat) (delimiter : Char) : Move σ (closingEntries σ offset delimiter) σ.pop
  /-- The innermost scope is closed and the row of an array is opened in its place. -/
  | row (offset : Nat) (delimiter : Char) :
    Move σ
      (closingEntries σ offset delimiter ++
        [.token offset argumentToken, .opened offset (σ.pop.depth + 1) rowToken])
      (σ.pop.push rowToken)

/-- A sequence of moves: its trace, and the scopes that are open at its end. -/
inductive Walk : List Entry → ScopeStack → Prop
  | nil : Walk [] {}
  | snoc {es new : List Entry} {σ τ : ScopeStack} : Walk es σ → Move σ new τ → Walk (es ++ new) τ

namespace State

variable {s : State}

/-- What a scan did so far is a walk that ends at its open scopes. -/
def Walks (s : State) : Prop := Walk s.trace.toList s.scopes

theorem trace_closeScope (s : State) (c : Char) :
    (s.closeScope c).trace.toList = s.trace.toList ++ closingEntries s.scopes s.offset c := by
  unfold closeScope closingEntries
  split <;> simp [note]

theorem scopes_flush (s : State) : s.flush.scopes = s.scopes := by
  unfold flush
  split <;> rfl

theorem scopes_closeScope (s : State) (c : Char) : (s.closeScope c).scopes = s.scopes.pop := by
  unfold closeScope
  split <;> rfl

theorem offset_closeScope (s : State) (c : Char) : (s.closeScope c).offset = s.offset := by
  unfold closeScope
  split <;> rfl

/-- An entry that is a move by itself. -/
theorem Walks.note (h : s.Walks) {e : Entry} (he : Move s.scopes [e] s.scopes) :
    (s.note e).Walks := by
  simpa [Walks, State.note] using h.snoc he

theorem Walks.emit (h : s.Walks) {t : Token} (ht : isSimple t = true) : (s.emit t).Walks :=
  h.note (.token s.offset ht)

theorem Walks.emitComma (h : s.Walks) : (s.emit (commaToken s.scopes)).Walks :=
  h.note (.comma s.offset)

/-- Pending text is put out as a token of no concern to the scopes. -/
theorem Walks.emitPending (h : s.Walks) {k : Kind} {u : Subkind}
    (ht : isSimple ⟨s.pending, k, u⟩ = true) : (s.emitPending k u).Walks :=
  Walks.emit (s := s.dropPending) h ht

theorem Walks.flush (h : s.Walks) : s.flush.Walks := by
  unfold State.flush
  split
  · exact h
  · exact h.emitPending rfl

theorem Walks.flushStray (h : s.Walks) (c : Char) : (s.flushStray c).Walks := by
  unfold State.flushStray
  split
  · exact h
  · exact (h.note (.stray s.offset c s.pending)).emitPending rfl

theorem Walks.openScope (h : s.Walks) (value : String) {k : Kind} (hk : k.isScope = true) :
    (s.openScope value k).Walks := by
  simpa [Walks, State.openScope, State.note] using h.snoc (.opened s.offset value hk)

theorem Walks.openPending (h : s.Walks) : s.openPending.Walks :=
  Walks.openScope (s := s.dropPending) h s.pending rfl

theorem Walks.closeScope (h : s.Walks) (c : Char) : (s.closeScope c).Walks := by
  rw [Walks, trace_closeScope, scopes_closeScope]
  exact h.snoc (.closed s.offset c)

/-- One row of an array ends and the next begins. -/
theorem Walks.changeRow (h : s.Walks) (c : Char) :
    (((s.closeScope c).emit argumentToken).openScope rowName .function).Walks := by
  have hrow := h.snoc (.row s.offset c)
  rw [← List.append_assoc, ← trace_closeScope, ← scopes_closeScope s c] at hrow
  simpa [Walks, State.emit, State.openScope, State.note, offset_closeScope, rowToken] using hrow

/-! ## Every scan is a walk -/

theorem walks_quotedStep (h : s.Walks) {quote c : Char} {closed : State → State}
    (hclosed : ∀ s : State, s.Walks → (closed s).Walks) : (s.quotedStep quote c closed).Walks := by
  unfold quotedStep
  split
  · split
    · exact h
    · exact hclosed _ h
  · exact h

theorem walks_bracketStep (h : s.Walks) (c : Char) : (s.bracketStep c).Walks := by
  unfold bracketStep
  split <;> exact h

theorem walks_errorStep (h : s.Walks) (c : Char) : (s.errorStep c).Walks := by
  unfold errorStep
  dsimp only
  split
  · exact Walks.emitPending (s := ((s.collect c).advance 1).enter .code) h rfl
  · exact h

theorem walks_codeStep (h : s.Walks) (c : Char) (rest : List Char) : (s.codeStep c rest).Walks := by
  unfold codeStep
  split
  · exact h
  · split
    case h_1 => exact h.flushStray _
    case h_2 => exact h.flushStray _
    case h_3 => exact h
    case h_4 => exact h.flushStray _
    case h_5 => exact ((h.flushStray _).openScope _ rfl).openScope _ rfl
    case h_6 => exact h.flush.changeRow _
    case h_7 => exact (h.flush.closeScope _).closeScope _
    case h_8 => exact h.flush.emit rfl
    case h_9 => exact h.flush.emit rfl
    case h_10 =>
      split
      · exact h.openScope _ rfl
      · exact h.openPending
    case h_11 => exact s.scopes_flush ▸ h.flush.emitComma
    case h_12 => exact h.flush.closeScope _
    case h_13 =>
      split
      · exact h.flush.emit rfl
      · split
        · exact h.flush.emit rfl
        · exact h

/-- A step of the scan makes moves. -/
theorem walks_step (h : s.Walks) : s.step.Walks := by
  unfold step
  split
  · exact h
  · split
    · exact walks_codeStep h _ _
    · exact walks_quotedStep h fun s hs => hs.emitPending rfl
    · exact walks_quotedStep h fun _ hs => hs
    · exact walks_bracketStep h _
    · exact walks_errorStep h _

/-- A whole scan is a walk. -/
theorem walks_finish (formula : String) : (start formula).finish.Walks := by
  have hstart : (start formula).Walks := show Walk [] {} from .nil
  exact (run_induction (fun _ _ h => walks_step h) hstart).flush

end State

/-- The trace of a scan is a walk that ends at the scopes that the scan leaves open. -/
theorem walk_scan (formula : String) :
    Walk (scan formula).trace (State.start formula).finish.scopes :=
  State.walks_finish formula

/-! ## The tokens of a walk -/

@[simp] theorem tokensOf_token (o : Nat) (t : Token) (es : List Entry) :
    tokensOf (.token o t :: es) = t :: tokensOf es := rfl
@[simp] theorem tokensOf_opened (o d : Nat) (t : Token) (es : List Entry) :
    tokensOf (.opened o d t :: es) = t :: tokensOf es := rfl
@[simp] theorem tokensOf_closed (t : Token) (es : List Entry) :
    tokensOf (.closed t :: es) = t :: tokensOf es := rfl
@[simp] theorem tokensOf_unopened (o : Nat) (c : Char) (es : List Entry) :
    tokensOf (.unopened o c :: es) = tokensOf es := rfl
@[simp] theorem tokensOf_stray (o : Nat) (c : Char) (p : String) (es : List Entry) :
    tokensOf (.stray o c p :: es) = tokensOf es := rfl

@[simp] theorem tokensOf_closingEntries (σ : ScopeStack) (o : Nat) (c : Char) :
    tokensOf (closingEntries σ o c) = [σ.closing] := by
  unfold closingEntries
  split <;> rfl

theorem commaToken_cases (σ : ScopeStack) :
    commaToken σ = argumentToken ∨ commaToken σ = ⟨",", .infixOp, .union⟩ := by
  unfold commaToken
  split
  · exact .inl rfl
  · exact .inr rfl

variable {es new : List Entry} {σ τ : ScopeStack} {t : Token}

/-- Each open scope is held as the token that opened it. -/
def Started (σ : ScopeStack) : Prop := ∀ t ∈ σ.scopes, t.isStart = true

theorem Started.push (h : Started σ) (ht : t.isStart = true) : Started (σ.push t) := by
  intro u hu
  rcases List.mem_cons.1 hu with rfl | hu
  · exact ht
  · exact h u hu

theorem Started.pop (h : Started σ) : Started σ.pop := fun t ht => h t (List.mem_of_mem_tail ht)

theorem isStart_of_isScope {k : Kind} (hk : k.isScope = true) (value : String) :
    Token.isStart ⟨value, k, .start⟩ = true := by
  simpa [Token.isStart] using hk

theorem Move.started (h : Move σ new τ) (hσ : Started σ) : Started τ := by
  cases h with
  | token _ _ => exact hσ
  | comma _ => exact hσ
  | stray _ _ _ => exact hσ
  | opened _ value hk => exact hσ.push (isStart_of_isScope hk value)
  | closed _ _ => exact hσ.pop
  | row _ _ => exact hσ.pop.push rfl

/-- The open scopes of a walk were opened. -/
theorem Walk.started (h : Walk es σ) : Started σ := by
  induction h with
  | nil => exact fun _ ht => nomatch ht
  | snoc _ hmove ih => exact hmove.started ih

/-- The token that closes the innermost scope is a stop. -/
theorem Started.isStop_closing (h : Started σ) : σ.closing.isStop = true := by
  obtain ⟨scopes⟩ := σ
  cases scopes with
  | nil => rfl
  | cons t ts =>
    have ht : t.isStart = true := h t List.mem_cons_self
    simp only [Token.isStart, Bool.and_eq_true] at ht
    simpa [Token.isStop, ScopeStack.closing, ScopeStack.topKind?, ScopeStack.top?] using ht.1

theorem Started.isScope_closing (h : Started σ) : σ.closing.kind.isScope = true := by
  have hstop := h.isStop_closing
  rw [Token.isStop, Bool.and_eq_true] at hstop
  exact hstop.1

/-- The sorts of tokens that a scan puts out. -/
def IsRaw (t : Token) : Prop :=
  isSimple t = true ∨ t = argumentToken ∨ t = ⟨",", .infixOp, .union⟩ ∨ t.isStart = true ∨
    t.isStop = true

theorem Move.token_cases (h : Move σ new τ) (hσ : Started σ) (ht : t ∈ tokensOf new) : IsRaw t := by
  cases h with
  | token _ hsimple =>
    rcases List.mem_singleton.1 ht with rfl
    exact .inl hsimple
  | comma _ =>
    rcases List.mem_singleton.1 ht with rfl
    rcases commaToken_cases σ with h | h
    · exact .inr (.inl h)
    · exact .inr (.inr (.inl h))
  | stray _ _ _ => nomatch ht
  | opened _ value hk =>
    rcases List.mem_singleton.1 ht with rfl
    exact .inr (.inr (.inr (.inl (isStart_of_isScope hk value))))
  | closed _ _ =>
    rw [tokensOf_closingEntries, List.mem_singleton] at ht
    exact .inr (.inr (.inr (.inr (ht ▸ hσ.isStop_closing))))
  | row _ _ =>
    simp only [tokensOf_append, tokensOf_closingEntries, tokensOf_token, tokensOf_opened, tokensOf_nil,
      List.mem_append, List.mem_cons, List.not_mem_nil, or_false] at ht
    rcases ht with rfl | rfl | rfl
    · exact .inr (.inr (.inr (.inr hσ.isStop_closing)))
    · exact .inr (.inl rfl)
    · exact .inr (.inr (.inr (.inl rfl)))

/-- The sorts of tokens that a walk puts out. -/
theorem Walk.token_cases (h : Walk es σ) (ht : t ∈ tokensOf es) : IsRaw t := by
  induction h with
  | nil => nomatch ht
  | snoc hwalk hmove ih =>
    rw [tokensOf_append, List.mem_append] at ht
    exact ht.elim ih (hmove.token_cases hwalk.started)

theorem whitespace_value_of_isSimple (h : isSimple t = true) (hk : t.kind = .whitespace) :
    t.value = "" := by
  obtain ⟨value, kind, subkind⟩ := t
  cases hk
  cases subkind <;> simp_all [isSimple]

/-- The raw tokens for spaces have no text. -/
theorem whitespace_value_of_mem_scan {formula : String} (ht : t ∈ (scan formula).tokens)
    (hk : t.kind = .whitespace) : t.value = "" := by
  rcases (walk_scan formula).token_cases ht with h | rfl | rfl | h | h
  · exact whitespace_value_of_isSimple h hk
  · cases hk
  · cases hk
  · simp [Token.isStart, Kind.isScope, hk] at h
  · simp [Token.isStop, Kind.isScope, hk] at h

end SheetFormula.Scan
