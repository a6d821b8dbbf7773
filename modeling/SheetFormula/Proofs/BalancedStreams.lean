import SheetFormula.Proofs.ScopeBalance

/-!
# Balanced streams

What the structure check finds in a token stream, whoever made the stream: it accepts those whose ends of
scopes are generated by a grammar (`Balanced`), and otherwise it tells the first place where more scopes
are closed than opened (`Overclosed`), or how many are opened and closed in all. Main statements:

* `Balanced.grounded`: what the grammar generates closes only scopes that it opened, and all of them;
* `unwinds_of_grounded`: so does nothing else, as the scopes that are left open at each place show;
* `grounded_or_stop`: the first stop that closes nothing;
* `checkStructure_verdict`: the verdict on every stream.
-/

namespace SheetFormula

variable {σ : ScopeStack} {ts us : List Token} {t u : Token} {p : Nat}

/-- Ends of scopes that are balanced: none at all, or a start, balanced ends, a stop, and balanced ends. -/
inductive Balanced : List Token → Prop
  | nil : Balanced []
  | scope {t u : Token} {ts us : List Token} (ht : t.isStart = true) (hts : Balanced ts)
      (hu : u.isStop = true) (hus : Balanced us) : Balanced (t :: (ts ++ u :: us))

/-- Up to the `p`-th token and with it, more scopes are closed than opened. -/
def Overclosed (ts : List Token) (p : Nat) : Prop :=
  p < ts.length ∧ (ts.take (p + 1)).countP Token.isStart < (ts.take (p + 1)).countP Token.isStop

/-! ## The grammar and the stack -/

/-- Balanced ends close only scopes that they opened, and all of them. -/
theorem Balanced.grounded (h : Balanced ts) (σ : ScopeStack) : Grounded σ ts ∧ σ.replay ts = σ := by
  induction h generalizing σ with
  | nil => exact ⟨trivial, rfl⟩
  | @scope t u ts us ht _ hu _ hts hus =>
    obtain ⟨hinner, hback⟩ := hts (σ.push t)
    obtain ⟨hafter, hend⟩ := hus σ
    have hfeed : (σ.push t).feed u = σ := by
      rw [ScopeStack.feed_of_isStop hu, ScopeStack.pop_push]
    have hopen : (σ.push t).isEmpty = false := rfl
    refine ⟨⟨fun hstop => ?_, ?_⟩, ?_⟩
    · exact Bool.noConfusion ((ScopeStack.isStart_of_isStop hstop).symm.trans ht)
    · rw [ScopeStack.feed_of_isStart ht]
      refine hinner.append ?_
      rw [hback]
      exact ⟨fun _ => hopen, hfeed.symm ▸ hafter⟩
    · rw [ScopeStack.replay_cons, ScopeStack.feed_of_isStart ht, ScopeStack.replay_append, hback,
        ScopeStack.replay_cons, hfeed, hend]

/-- Ends of scopes that close `n` scopes opened before them, and are balanced otherwise. -/
inductive Unwinds : Nat → List Token → Prop
  | zero {ts : List Token} (hts : Balanced ts) : Unwinds 0 ts
  | succ {n : Nat} {u : Token} {ts us : List Token} (hts : Balanced ts) (hu : u.isStop = true)
      (hus : Unwinds n us) : Unwinds (n + 1) (ts ++ u :: us)

theorem Unwinds.balanced (h : Unwinds 0 ts) : Balanced ts := by
  cases h
  assumption

/-- A start before ends that close one scope more. -/
theorem Unwinds.cons_start {n : Nat} (h : Unwinds (n + 1) ts) (ht : t.isStart = true) :
    Unwinds n (t :: ts) := by
  cases h with
  | succ hts hu hus =>
    -- the scope that is closed first is that of the new start
    cases hus with
    | zero hus => exact .zero (.scope ht hts hu hus)
    | @succ n v us vs hus hv hvs =>
      have hsplit : ∀ before : List Token, before ++ (us ++ v :: vs) = before ++ us ++ v :: vs :=
        fun before => (List.append_assoc before us _).symm
      rw [List.append_cons, hsplit, ← List.append_cons, ← List.cons_append]
      exact .succ (.scope ht hts hu hus) hv hvs

/-- Where each of some ends closes a scope and none is left open, they close the scopes that are open
before them and are balanced otherwise. -/
theorem unwinds_of_grounded (hends : ∀ t ∈ ts, t.isScopeEnd = true) (h : Grounded σ ts)
    (hempty : (σ.replay ts).isEmpty = true) : Unwinds σ.depth ts := by
  induction ts generalizing σ with
  | nil =>
    rw [(ScopeStack.isEmpty_iff_depth σ).1 hempty]
    exact .zero .nil
  | cons t ts ih =>
    rw [List.forall_mem_cons] at hends
    have hrest : Unwinds (σ.feed t).depth ts := ih hends.2 h.2 hempty
    obtain ⟨hstart, -⟩ | ⟨-, hstop⟩ | ⟨hstart, hstop⟩ := ScopeStack.role_cases t
    · rw [ScopeStack.feed_of_isStart hstart, ScopeStack.depth_push] at hrest
      exact hrest.cons_start hstart
    · have hopen : 0 < σ.depth := (σ.isEmpty_eq_false_iff_depth).1 (h.1 hstop)
      rw [ScopeStack.feed_of_isStop hstop, ScopeStack.depth_pop] at hrest
      rw [← Nat.sub_add_cancel hopen]
      exact .succ .nil hstop hrest
    · have hend : t.isScopeEnd = false := by rw [Token.isScopeEnd, hstart, hstop, Bool.or_self]
      exact Bool.noConfusion (hend.symm.trans hends.1)

/-- Tokens that are no ends of scopes change nothing. -/
theorem grounded_filter (σ : ScopeStack) (ts : List Token) :
    (Grounded σ (ts.filter Token.isScopeEnd) ↔ Grounded σ ts) ∧
      σ.replay (ts.filter Token.isScopeEnd) = σ.replay ts := by
  induction ts generalizing σ with
  | nil => exact ⟨Iff.rfl, rfl⟩
  | cons t ts ih =>
    obtain ⟨hgrounded, hreplay⟩ := ih (σ.feed t)
    cases hend : t.isScopeEnd with
    | true =>
      rw [List.filter_cons_of_pos hend, ScopeStack.replay_cons, ScopeStack.replay_cons, hreplay]
      exact ⟨and_congr_right fun _ => hgrounded, rfl⟩
    | false =>
      obtain ⟨hstart, hstop⟩ := Bool.or_eq_false_iff.1 hend
      rw [ScopeStack.feed_of_inner hstart hstop] at hgrounded hreplay
      rw [List.filter_cons_of_neg (by simp [hend]), ScopeStack.replay_cons,
        ScopeStack.feed_of_inner hstart hstop, hreplay, hgrounded, Grounded,
        ScopeStack.feed_of_inner hstart hstop, hstop]
      exact ⟨(and_iff_right fun h => nomatch h).symm, rfl⟩

/-- The ends of scopes of a stream are balanced exactly if each stop closes a scope and none is left open
in the end. -/
theorem balanced_filter_iff (ts : List Token) :
    Balanced (ts.filter Token.isScopeEnd) ↔
      Grounded {} ts ∧ (({} : ScopeStack).replay ts).isEmpty = true := by
  obtain ⟨hgrounded, hreplay⟩ := grounded_filter {} ts
  rw [← hgrounded, ← hreplay]
  constructor
  · intro h
    obtain ⟨hends, hback⟩ := h.grounded {}
    exact ⟨hends, by rw [hback]; rfl⟩
  · rintro ⟨hends, hempty⟩
    have hunwinds : Unwinds 0 (ts.filter Token.isScopeEnd) :=
      unwinds_of_grounded (fun t ht => (List.mem_filter.1 ht).2) hends hempty
    exact hunwinds.balanced

/-! ## The first stop that closes nothing -/

/-- Each stop closes a scope, or there is a first one that closes nothing. -/
theorem grounded_or_stop (σ : ScopeStack) (ts : List Token) :
    Grounded σ ts ∨ ∃ before t after, ts = before ++ t :: after ∧ Grounded σ before ∧
      (σ.replay before).isEmpty = true ∧ t.isStop = true := by
  induction ts generalizing σ with
  | nil => exact .inl trivial
  | cons t ts ih =>
    by_cases hstray : t.isStop = true ∧ σ.isEmpty = true
    · exact .inr ⟨[], t, ts, rfl, trivial, hstray.2, hstray.1⟩
    · have ht : t.isStop = true → σ.isEmpty = false := by simpa using hstray
      obtain hts | ⟨before, u, after, rfl, hbefore, hempty, hu⟩ := ih (σ.feed t)
      · exact .inl ⟨ht, hts⟩
      · exact .inr ⟨t :: before, u, after, rfl, ⟨ht, hbefore⟩, hempty, hu⟩

/-- Where each stop closes a scope, nowhere are more closed than opened. -/
theorem Grounded.not_overclosed (h : Grounded {} ts) (us : List Token) (hp : p < ts.length) :
    ¬Overclosed (ts ++ us) p := by
  rintro ⟨-, hcount⟩
  have hprefix : Grounded {} (ts.take (p + 1)) := by
    rw [← List.take_append_drop (p + 1) ts] at h
    exact h.of_append
  have hbalance := hprefix.countP
  have hzero : ({} : ScopeStack).depth = 0 := rfl
  have hinside : p + 1 ≤ ts.length := hp
  rw [List.take_append_of_le_length hinside] at hcount
  omega

/-- At a stop that closes nothing, more scopes are closed than opened. -/
theorem overclosed_of_stop (h : Grounded {} ts)
    (hempty : (({} : ScopeStack).replay ts).isEmpty = true) (ht : t.isStop = true) (us : List Token) :
    Overclosed (ts ++ t :: us) ts.length := by
  have hbalance := h.countP
  have hzero : ({} : ScopeStack).depth = 0 := rfl
  rw [(ScopeStack.isEmpty_iff_depth _).1 hempty] at hbalance
  have hstart : t.isStart = false := ScopeStack.isStart_of_isStop ht
  refine ⟨by simp, ?_⟩
  rw [List.append_cons, List.take_left' (by simp), List.countP_append, List.countP_append,
    List.countP_singleton, List.countP_singleton, hstart, ht, if_neg (by decide), if_pos rfl]
  omega

/-- Where each stop closes a scope, the check compares the numbers of starts and stops. -/
theorem checkScopes_counts (h : Grounded {} ts) :
    checkScopes 0 0 0 ts =
      if ts.countP Token.isStart = ts.countP Token.isStop then .ok ()
      else .error (.unbalancedScope (ts.countP Token.isStart) (ts.countP Token.isStop)) := by
  have hcheck : checkScopes 0 0 0 (ts ++ []) =
      checkScopes (0 + ts.length) (0 + ts.countP Token.isStart) (0 + ts.countP Token.isStop) [] :=
    checkScopes_append_counts h rfl []
  simpa only [List.append_nil, Nat.zero_add, checkScopes] using hcheck

/-! ## The verdict -/

/-- What the result of a check says of the scopes of a stream. -/
structure ScopeVerdict (ts : List Token) (result : Except StructureError Unit) : Prop where
  /-- The stream is accepted if its ends of scopes are balanced. -/
  ok : result = .ok () ↔ Balanced (ts.filter Token.isScopeEnd)
  /-- A stop is unexpected at the first place where more scopes are closed than opened. -/
  stop (p : Nat) : result = .error (.unexpectedStop p) ↔ Overclosed ts p ∧ ∀ q < p, ¬Overclosed ts q
  /-- Scopes are missing their stops if there is no such place, and more are opened than closed in all. -/
  unbalanced (opened closed : Nat) : result = .error (.unbalancedScope opened closed) ↔
    (∀ q, ¬Overclosed ts q) ∧ opened = ts.countP Token.isStart ∧ closed = ts.countP Token.isStop ∧
      closed < opened

theorem scopeVerdict_of_grounded (h : Grounded {} ts) : ScopeVerdict ts (checkScopes 0 0 0 ts) := by
  have hnever : ∀ q, ¬Overclosed ts q := by
    intro q hq
    rw [← List.append_nil ts] at hq
    exact h.not_overclosed [] (by simpa using hq.1) hq
  have hbalance := h.countP
  have hzero : ({} : ScopeStack).depth = 0 := rfl
  have hempty : (({} : ScopeStack).replay ts).isEmpty = true ↔
      ts.countP Token.isStart = ts.countP Token.isStop := by
    rw [ScopeStack.isEmpty_iff_depth]
    omega
  rw [checkScopes_counts h]
  constructor
  · rw [balanced_filter_iff, hempty]
    split
    · exact iff_of_true rfl ⟨h, ‹_›⟩
    · exact iff_of_false nofun fun hok => absurd hok.2 ‹_›
  · intro p
    refine iff_of_false ?_ fun hp => hnever p hp.1
    split <;> exact nofun
  · intro opened closed
    split
    · refine iff_of_false nofun ?_
      rintro ⟨-, rfl, rfl, hlt⟩
      omega
    · rw [Except.error.injEq, StructureError.unbalancedScope.injEq]
      constructor
      · rintro ⟨rfl, rfl⟩
        exact ⟨hnever, rfl, rfl, by omega⟩
      · rintro ⟨-, rfl, rfl, -⟩
        exact ⟨rfl, rfl⟩

theorem scopeVerdict_of_stop (h : Grounded {} ts)
    (hempty : (({} : ScopeStack).replay ts).isEmpty = true) (ht : t.isStop = true) (us : List Token) :
    ScopeVerdict (ts ++ t :: us) (checkScopes 0 0 0 (ts ++ t :: us)) := by
  have hover : Overclosed (ts ++ t :: us) ts.length := overclosed_of_stop h hempty ht us
  have hfirst : ∀ q < ts.length, ¬Overclosed (ts ++ t :: us) q := fun q => h.not_overclosed (t :: us)
  rw [checkScopes_of_stop h hempty ht]
  constructor
  · rw [balanced_filter_iff]
    refine iff_of_false nofun fun hok => ?_
    rw [← List.append_nil (ts ++ t :: us)] at hover
    exact hok.1.not_overclosed [] (by simp) hover
  · intro p
    rw [Except.error.injEq, StructureError.unexpectedStop.injEq]
    constructor
    · rintro rfl
      exact ⟨hover, hfirst⟩
    · rintro ⟨hp, hbefore⟩
      rcases Nat.lt_trichotomy ts.length p with hlt | heq | hlt
      · exact absurd hover (hbefore _ hlt)
      · exact heq
      · exact absurd hp (hfirst p hlt)
  · exact fun _ _ => iff_of_false nofun fun hnever => hnever.1 _ hover

/-- A stream of a formula that ended inside an error literal is reported with the value of its last token.
Otherwise the first unknown token is reported with its place, whatever the scopes are; and if there is
none, the scopes decide. -/
theorem checkStructure_verdict (ts : List Token) (inError : Bool) :
    (inError = true → checkStructure ts inError =
      .error (.unterminatedError ((ts.getLast?.map Token.value).getD ""))) ∧
    (inError = false → ∀ before t after, ts = before ++ t :: after →
      (∀ u ∈ before, u.kind ≠ .unknown) → t.kind = .unknown →
      checkStructure ts inError = .error (.unknownToken t.value before.length)) ∧
    (inError = false → (∀ t ∈ ts, t.kind ≠ .unknown) →
      ScopeVerdict ts (checkStructure ts inError)) := by
  refine ⟨fun herror => if_pos herror, ?_, ?_⟩
  · rintro rfl before t after rfl hbefore ht
    rw [checkStructure, if_neg (by decide), findUnknown?_append hbefore ht, Nat.zero_add]
  · rintro rfl hknown
    have hcheck : checkStructure ts false = checkScopes 0 0 0 ts := by
      rw [checkStructure, if_neg (by decide), findUnknown?_eq_none_iff.2 hknown]
    rw [hcheck]
    obtain h | ⟨before, t, after, rfl, h, hempty, ht⟩ := grounded_or_stop {} ts
    · exact scopeVerdict_of_grounded h
    · exact scopeVerdict_of_stop h hempty ht after

/-- Only ends of scopes count, and a stop may be of another kind than its start. -/
example : checkStructure [⟨"F", .function, .start⟩, ⟨"A1", .operand, .stop⟩, ⟨"", .subexpression, .stop⟩]
    false = .ok () := rfl

end SheetFormula
