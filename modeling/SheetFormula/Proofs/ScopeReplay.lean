import SheetFormula.Parse
import SheetFormula.Proofs.PassesPointwise
import SheetFormula.Proofs.ScanWalk

/-!
# Replaying tokens on a stack of scopes

The scopes that are open at a point of a token stream can be read off the stream alone: an opening
token opens a scope, a closing token closes the innermost one, and with no scope open it closes
nothing (`ScopeStack.replay`). Main statements:

* `Walk.replay_eq`: replaying the raw tokens of a scan gives the scopes that the scanner holds open;
* `outcome_keeps`, `isScopeEnd_of_outcome_eq_none`: the passes keep every token that opens or closes a
  scope, with its kind, and make no other token into one;
* `Outcomes.scopeEnds_eq`, `Outcomes.kinds_replay`: so the scope ends of the final stream are those of
  the raw one, and so is what a replay of them leaves open.
-/

namespace SheetFormula

namespace ScopeStack

/-- The open scopes after one more token. -/
def feed (s : ScopeStack) (t : Token) : ScopeStack :=
  if t.isStart then s.push t else if t.isStop then s.pop else s

/-- The open scopes after some more tokens. -/
def replay (s : ScopeStack) (ts : List Token) : ScopeStack := ts.foldl feed s

/-- The kinds of the open scopes, innermost first. -/
def kinds (s : ScopeStack) : List Kind := s.scopes.map Token.kind

@[simp] theorem replay_nil (s : ScopeStack) : s.replay [] = s := rfl

@[simp] theorem replay_cons (s : ScopeStack) (t : Token) (ts : List Token) :
    s.replay (t :: ts) = (s.feed t).replay ts := rfl

@[simp] theorem replay_append (s : ScopeStack) (ts us : List Token) :
    s.replay (ts ++ us) = (s.replay ts).replay us := List.foldl_append

theorem feed_of_isStart {t : Token} (h : t.isStart = true) (s : ScopeStack) : s.feed t = s.push t := by
  rw [feed, if_pos h]

theorem isStart_of_isStop {t : Token} (h : t.isStop = true) : t.isStart = false := by
  simp only [Token.isStop, Bool.and_eq_true, beq_iff_eq] at h
  simp [Token.isStart, h.2]

/-- A token opens a scope, or closes one, or does neither. -/
theorem role_cases (t : Token) :
    t.isStart = true ∧ t.isStop = false ∨ t.isStart = false ∧ t.isStop = true ∨
      t.isStart = false ∧ t.isStop = false := by
  cases hstop : t.isStop with
  | true => exact .inr (.inl ⟨isStart_of_isStop hstop, rfl⟩)
  | false => cases t.isStart <;> simp

theorem feed_of_isStop {t : Token} (h : t.isStop = true) (s : ScopeStack) : s.feed t = s.pop := by
  rw [feed, isStart_of_isStop h, if_neg (by decide), if_pos h]

theorem feed_of_inner {t : Token} (hstart : t.isStart = false) (hstop : t.isStop = false)
    (s : ScopeStack) : s.feed t = s := by
  rw [feed, hstart, hstop, if_neg (by decide), if_neg (by decide)]

theorem topKind?_eq_head? (s : ScopeStack) : s.topKind? = s.kinds.head? := by
  rw [topKind?, top?, kinds, List.head?_map]

theorem depth_eq_length_kinds (s : ScopeStack) : s.depth = s.kinds.length := by
  rw [depth, kinds, List.length_map]

theorem kinds_push (s : ScopeStack) (t : Token) : (s.push t).kinds = t.kind :: s.kinds := rfl

theorem kinds_pop (s : ScopeStack) : s.pop.kinds = s.kinds.tail := by
  rw [pop, kinds, kinds, List.map_tail]

end ScopeStack

/-- The token opens or closes a scope. -/
def Token.isScopeEnd (t : Token) : Bool := t.isStart || t.isStop

namespace Scan

theorem isScopeEnd_of_isSimple {t : Token} (h : isSimple t = true) : t.isScopeEnd = false := by
  obtain ⟨value, kind, subkind⟩ := t
  cases kind <;> cases subkind <;> simp_all [isSimple, Token.isScopeEnd, Token.isStart, Token.isStop,
    Kind.isScope]

theorem feed_of_isSimple {t : Token} (h : isSimple t = true) (σ : ScopeStack) : σ.feed t = σ := by
  have hend := isScopeEnd_of_isSimple h
  simp only [Token.isScopeEnd, Bool.or_eq_false_iff] at hend
  exact ScopeStack.feed_of_inner hend.1 hend.2 σ

theorem feed_commaToken (σ τ : ScopeStack) : σ.feed (commaToken τ) = σ := by
  rcases commaToken_cases τ with h | h <;> rw [h] <;> rfl

/-- Replaying the tokens of a move changes the scopes as the move does. -/
theorem Move.replay_eq {new : List Entry} {σ τ : ScopeStack} (h : Move σ new τ) (hσ : Started σ) :
    σ.replay (tokensOf new) = τ := by
  cases h with
  | token _ hsimple => exact feed_of_isSimple hsimple σ
  | comma _ => exact feed_commaToken σ σ
  | stray _ _ _ => rfl
  | opened _ value hk => exact ScopeStack.feed_of_isStart (isStart_of_isScope hk value) σ
  | closed _ _ =>
    rw [tokensOf_closingEntries]
    exact ScopeStack.feed_of_isStop hσ.isStop_closing σ
  | row _ _ =>
    simp only [tokensOf_append, tokensOf_closingEntries, tokensOf_token, tokensOf_opened, tokensOf_nil,
      ScopeStack.replay_append, ScopeStack.replay_cons, ScopeStack.replay_nil,
      ScopeStack.feed_of_isStop hσ.isStop_closing]
    rfl

/-- Replaying the tokens of a walk gives the scopes that are open at its end. -/
theorem Walk.replay_eq {es : List Entry} {σ : ScopeStack} (h : Walk es σ) :
    ({} : ScopeStack).replay (tokensOf es) = σ := by
  induction h with
  | nil => rfl
  | snoc hwalk hmove ih =>
    rw [tokensOf_append, ScopeStack.replay_append, ih]
    exact hmove.replay_eq hwalk.started

end Scan

/-- The final tokens of a formula are the outcomes of its raw tokens. -/
theorem tokens_parse (p : ScanPreferences) (formula : String) :
    (parse p formula).tokens =
      (Stream.outcomesFrom false none (parse p formula).raw).filterMap id := by
  have h := TokenList.finalize_tokens (l := .ofList (parse p formula).raw)
    fun _ ht => Scan.whitespace_value_of_mem_scan ht
  rw [TokenList.outcomes_eq_outcomesFrom] at h
  exact h

namespace Stream

variable {follows meets : Bool} {t u : Token}

/-! ## What the passes keep of a token -/

/-- What a token keeps when it gives way to its outcome. -/
structure Keeps (t u : Token) : Prop where
  isStart : u.isStart = t.isStart
  isStop : u.isStop = t.isStop
  kind : t.kind.isScope = true → u.kind = t.kind
  argument : u.kind = .argument → u = t
  union : u.kind = .infixOp → u.subkind = .union → u = t
  unknown : t.kind = .unknown ∨ u.kind = .unknown → u = t

theorem Keeps.refl (t : Token) : Keeps t t where
  isStart := rfl
  isStop := rfl
  kind _ := rfl
  argument _ := rfl
  union _ _ := rfl
  unknown _ := rfl

/-- Changing only the subkind or the kind of an operator or an operand keeps what has to be kept. -/
theorem keeps_of_not_scope {t u : Token} (ht : t.kind = .infixOp ∨ t.kind = .operand ∨ t.kind = .whitespace)
    (hu : u.kind = .infixOp ∨ u.kind = .operand ∨ u.kind = .prefixOp)
    (hunion : u.subkind ≠ .union ∨ u.kind ≠ .infixOp) : Keeps t u where
  isStart := by
    rcases ht with h | h | h <;> rcases hu with h' | h' | h' <;>
      simp [Token.isStart, Kind.isScope, h, h']
  isStop := by
    rcases ht with h | h | h <;> rcases hu with h' | h' | h' <;>
      simp [Token.isStop, Kind.isScope, h, h']
  kind h := by rcases ht with h' | h' | h' <;> simp [Kind.isScope, h'] at h
  argument h := by simp [h] at hu
  union h h' := by simp [h, h'] at hunion
  unknown h := by
    rcases h with h | h
    · simp [h] at ht
    · simp [h] at hu

theorem outcome_keeps (h : outcome follows meets t = some u) : Keeps t u := by
  obtain ⟨value, kind, subkind⟩ := t
  cases kind <;> simp only [outcome] at h
  case operand =>
    cases h
    split
    · exact keeps_of_not_scope (by simp) (by simp) (.inr (by simp))
    · exact .refl _
  case infixOp =>
    split at h
    · cases h
      split <;> exact keeps_of_not_scope (by simp) (by simp) (by simp)
    · split at h
      · split at h <;> cases h
        exact keeps_of_not_scope (by simp) (by simp) (by simp)
      · split at h <;> cases h
        · exact keeps_of_not_scope (by simp) (by simp) (.inl (infixSubkind_ne (by decide) value))
        · exact .refl _
  case whitespace =>
    split at h <;> cases h
    exact keeps_of_not_scope (by simp) (by simp) (by simp)
  case function =>
    cases h
    constructor <;> simp [Token.isStart, Token.isStop]
  case noop => cases h
  all_goals
    cases h
    exact .refl _

/-- The passes drop no token that opens or closes a scope. -/
theorem isScopeEnd_of_outcome_eq_none (h : outcome follows meets t = none) : t.isScopeEnd = false := by
  obtain ⟨value, kind, subkind⟩ := t
  cases kind <;> first | rfl | simp [outcome] at h

/-- A token and its outcome change the open scopes alike. -/
theorem Keeps.kinds_feed (h : Keeps t u) {s r : ScopeStack} (hsr : r.kinds = s.kinds) :
    (r.feed u).kinds = (s.feed t).kinds := by
  by_cases hstart : t.isStart = true
  · have hscope : t.kind.isScope = true := by
      simp only [Token.isStart, Bool.and_eq_true] at hstart
      exact hstart.1
    rw [ScopeStack.feed_of_isStart hstart, ScopeStack.feed_of_isStart (h.isStart.trans hstart),
      ScopeStack.kinds_push, ScopeStack.kinds_push, h.kind hscope, hsr]
  · simp only [Bool.not_eq_true] at hstart
    by_cases hstop : t.isStop = true
    · rw [ScopeStack.feed_of_isStop hstop, ScopeStack.feed_of_isStop (h.isStop.trans hstop),
        ScopeStack.kinds_pop, ScopeStack.kinds_pop, hsr]
    · simp only [Bool.not_eq_true] at hstop
      rw [ScopeStack.feed_of_inner hstart hstop,
        ScopeStack.feed_of_inner (h.isStart.trans hstart) (h.isStop.trans hstop), hsr]

theorem feed_of_outcome_eq_none (h : outcome follows meets t = none) (s : ScopeStack) :
    s.feed t = s := by
  have hend := isScopeEnd_of_outcome_eq_none h
  simp only [Token.isScopeEnd, Bool.or_eq_false_iff] at hend
  exact ScopeStack.feed_of_inner hend.1 hend.2 s

/-- The scope ends among some tokens, in order: which sort of scope each opens or closes. -/
def scopeEnds (ts : List Token) : List (Kind × Subkind) :=
  (ts.filter Token.isScopeEnd).map fun t => (t.kind, t.subkind)

theorem scopeEnds_cons (t : Token) (ts : List Token) :
    scopeEnds (t :: ts) = (if t.isScopeEnd then [(t.kind, t.subkind)] else []) ++ scopeEnds ts := by
  rw [scopeEnds, List.filter_cons]
  split <;> rfl

/-- A scope end and its outcome are ends of the same sort. -/
theorem Keeps.scopeEnd (h : Keeps t u) (ht : t.isScopeEnd = true) :
    (u.kind, u.subkind) = (t.kind, t.subkind) := by
  rw [Token.isScopeEnd, Bool.or_eq_true] at ht
  rcases ht with ht | ht
  · have hu : u.isStart = true := h.isStart.trans ht
    simp only [Token.isStart, Bool.and_eq_true, beq_iff_eq] at ht hu
    rw [h.kind ht.1, ht.2, hu.2]
  · have hu : u.isStop = true := h.isStop.trans ht
    simp only [Token.isStop, Bool.and_eq_true, beq_iff_eq] at ht hu
    rw [h.kind ht.1, ht.2, hu.2]

/-! ## The passes, whatever the neighbours -/

/-- One outcome for each of some items, by whatever neighbours. -/
inductive Outcomes : List Token → List (Option Token) → Prop
  | nil : Outcomes [] []
  | cons {t : Token} {o : Option Token} {ts : List Token} {os : List (Option Token)}
      (ho : ∃ follows meets, outcome follows meets t = o) (hos : Outcomes ts os) :
      Outcomes (t :: ts) (o :: os)

theorem outcomes_outcomesFrom (follows : Bool) (left : Option Token) (ts : List Token) :
    Outcomes ts (outcomesFrom follows left ts) := by
  induction ts generalizing follows left with
  | nil => exact .nil
  | cons t ts ih => exact .cons ⟨follows, _, rfl⟩ (ih _ _)

variable {ts : List Token} {os : List (Option Token)}

/-- The passes neither lose, make, change nor move a scope end. -/
theorem Outcomes.scopeEnds_eq (h : Outcomes ts os) : scopeEnds (os.filterMap id) = scopeEnds ts := by
  induction h with
  | nil => rfl
  | @cons t o ts os ho _ ih =>
    obtain ⟨follows, meets, ho⟩ := ho
    rw [filterMap_id_cons]
    cases o with
    | none =>
      rw [Option.toList_none, List.nil_append, scopeEnds_cons, isScopeEnd_of_outcome_eq_none ho, ih]
      rfl
    | some u =>
      have hk : Keeps t u := outcome_keeps ho
      have hend : u.isScopeEnd = t.isScopeEnd := by
        rw [Token.isScopeEnd, hk.isStart, hk.isStop, ← Token.isScopeEnd]
      rw [Option.toList_some, List.singleton_append, scopeEnds_cons, scopeEnds_cons, ih, hend]
      split
      · rename_i ht
        rw [hk.scopeEnd ht]
      · rfl

/-- The outcomes of some tokens change the open scopes as the tokens do. -/
theorem Outcomes.kinds_replay (h : Outcomes ts os) {σ τ : ScopeStack} (hkinds : τ.kinds = σ.kinds) :
    (τ.replay (os.filterMap id)).kinds = (σ.replay ts).kinds := by
  induction h generalizing σ τ with
  | nil => exact hkinds
  | @cons t o ts os ho _ ih =>
    obtain ⟨follows, meets, ho⟩ := ho
    rw [filterMap_id_cons, ScopeStack.replay_cons]
    cases o with
    | none => exact ih (by rw [feed_of_outcome_eq_none ho, hkinds])
    | some u => exact ih ((outcome_keeps ho).kinds_feed hkinds)

end Stream

end SheetFormula
