import SheetFormula.Proofs.ScanHeads
import SheetFormula.Proofs.StructureCheck

/-!
# Separators of arguments and function calls

A comma separates arguments only where a function call is the innermost scope. A semicolon does so
wherever it stands: it closes the innermost scope, whatever opened that, and begins a row of an array. So
the separators of a structurally complete formula stand in function calls exactly if each of its
semicolons is met where a call is open around the innermost scope, as it is in every array. Main
statements:

* `Act.enclosed`: an act encloses its separators, but for that of a semicolon outside all calls;
* `enclosed_heads`: so it depends on the heads with a semicolon for a whole run;
* `Outcomes.enclosed`: the passes do not change it;
* `arguments_enclosed_iff`: the final stream of every complete formula.
-/

namespace SheetFormula

open Scan

variable {σ τ : ScopeStack} {ts us : List Token} {t : Token}

/-! ## Enclosed separators -/

/-- Each separator of arguments among some tokens stands in a function call, the first of them where some
scopes are open. -/
def Enclosed (σ : ScopeStack) : List Token → Prop
  | [] => True
  | t :: ts => (t.kind = .argument → .function ∈ σ.kinds) ∧ Enclosed (σ.feed t) ts

theorem enclosed_append : Enclosed σ (ts ++ us) ↔ Enclosed σ ts ∧ Enclosed (σ.replay ts) us := by
  induction ts generalizing σ with
  | nil => exact (and_iff_right trivial).symm
  | cons t ts ih => rw [List.cons_append, Enclosed, ih, Enclosed, and_assoc, ScopeStack.replay_cons]

theorem enclosed_of_forall_ne (h : ∀ t ∈ ts, t.kind ≠ .argument) : Enclosed σ ts := by
  induction ts generalizing σ with
  | nil => trivial
  | cons t ts ih =>
    rw [List.forall_mem_cons] at h
    exact ⟨fun ht => absurd ht h.1, ih h.2⟩

/-- What it says of one token in the midst of others. -/
theorem enclosed_iff_forall_split :
    Enclosed σ ts ↔ ∀ before t after, ts = before ++ t :: after → t.kind = .argument →
      .function ∈ (σ.replay before).kinds := by
  constructor
  · rintro h before t after rfl
    exact (enclosed_append.1 h).2.1
  · intro h
    induction ts generalizing σ with
    | nil => trivial
    | cons t ts ih =>
      refine ⟨h [] t ts rfl, ih fun before u after hsplit => ?_⟩
      exact h (t :: before) u after (congrArg (t :: ·) hsplit)

/-- The passes change no separator and no scope. -/
theorem Stream.Outcomes.enclosed {os : List (Option Token)} (hos : Outcomes ts os)
    (hkinds : τ.kinds = σ.kinds) : Enclosed τ (os.filterMap id) ↔ Enclosed σ ts := by
  induction hos generalizing σ τ with
  | nil => exact Iff.rfl
  | @cons t o ts os ho hos ih =>
    obtain ⟨follows, meets, ho⟩ := ho
    rw [filterMap_id_cons, Enclosed]
    cases o with
    | none =>
      have hnone : t.kind ≠ .argument := by
        intro ht
        rw [outcome, ht] at ho
        cases ho
      rw [Option.toList_none, List.nil_append, feed_of_outcome_eq_none ho, ih hkinds]
      exact (and_iff_right fun ht => absurd ht hnone).symm
    | some u =>
      have hk : Keeps t u := outcome_keeps ho
      have hargument : u.kind = .argument ↔ t.kind = .argument := by
        refine ⟨fun hu => hk.argument hu ▸ hu, fun ht => ?_⟩
        rw [outcome, ht] at ho
        cases ho
        exact ht
      rw [Option.toList_some, List.singleton_append, Enclosed, hargument, hkinds,
        ih (hk.kinds_feed hkinds)]

/-! ## Acts and runs -/

namespace Scan

variable {s : State} {new : List Entry}

theorem enclosed_flushEntries (s : State) : Enclosed σ (tokensOf s.flushEntries) := by
  unfold State.flushEntries
  split
  · trivial
  · exact enclosed_of_forall_ne (List.forall_mem_singleton.2 nofun)

theorem enclosed_strayEntries (s : State) (c : Char) : Enclosed σ (tokensOf (s.strayEntries c)) := by
  unfold State.strayEntries
  split
  · trivial
  · exact enclosed_of_forall_ne (List.forall_mem_singleton.2 nofun)

theorem enclosed_closingEntries (hσ : Started σ) (offset : Nat) (c : Char) :
    Enclosed τ (tokensOf (closingEntries σ offset c)) := by
  have hscope := hσ.isScope_closing
  rw [tokensOf_closingEntries]
  refine enclosed_of_forall_ne (List.forall_mem_singleton.2 fun hkind => ?_)
  rw [hkind] at hscope
  cases hscope

theorem function_mem_kinds (h : σ.topKind? = some .function) : .function ∈ σ.kinds := by
  rw [ScopeStack.topKind?_eq_head?] at h
  exact List.mem_of_mem_head? h

/-- A comma separates arguments in a function call only. -/
theorem enclosed_of_inner (h : ∀ e ∈ new, Inner σ e) : Enclosed σ (tokensOf new) := by
  induction new with
  | nil => trivial
  | cons e es ih =>
    rw [List.forall_mem_cons] at h
    cases h.1 with
    | @token t _ hsimple _ =>
      refine ⟨fun ht => ?_, (feed_of_isSimple hsimple σ).symm ▸ ih h.2⟩
      simp [isSimple, ht] at hsimple
    | comma _ =>
      refine ⟨fun hkind => ?_, (feed_commaToken σ σ).symm ▸ ih h.2⟩
      unfold commaToken at hkind
      split at hkind
      · exact function_mem_kinds ‹_›
      · cases hkind

theorem replay_flushEntries (s : State) : σ.replay (tokensOf s.flushEntries) = σ := by
  unfold State.flushEntries
  split <;> rfl

theorem replay_closingEntries (hσ : Started σ) (offset : Nat) (c : Char) :
    σ.replay (tokensOf (closingEntries σ offset c)) = σ.pop := by
  rw [tokensOf_closingEntries]
  exact ScopeStack.feed_of_isStop hσ.isStop_closing σ

/-- An act encloses its separators, but for that of a semicolon outside all calls. -/
theorem Act.enclosed (h : Act s new τ) (hσ : Started s.scopes) :
    Enclosed s.scopes (tokensOf new) ↔ (s.met? = some ';' → .function ∈ s.scopes.pop.kinds) := by
  have hother : ∀ {c}, s.met? = some c → c ≠ ';' → Enclosed s.scopes (tokensOf new) →
      (Enclosed s.scopes (tokensOf new) ↔ (s.met? = some ';' → .function ∈ s.scopes.pop.kinds)) := by
    intro c hmet hc henclosed
    refine iff_of_true henclosed fun hsemicolon => ?_
    rw [hmet, Option.some_inj] at hsemicolon
    exact absurd hsemicolon hc
  cases h with
  | inner hmet hnew =>
    exact iff_of_true (enclosed_of_inner hnew) fun hc => absurd (by decide) (hmet _ hc).2
  | stray hmet hc hscope =>
    exact hother hmet (fun h => hscope (h ▸ by decide)) (enclosed_strayEntries s _)
  | array hmet =>
    refine hother hmet (by decide) ?_
    rw [tokensOf_append, enclosed_append]
    exact ⟨enclosed_strayEntries s _, nofun, nofun, trivial⟩
  | row hmet =>
    rw [tokensOf_append, tokensOf_append, enclosed_append, enclosed_append,
      ScopeStack.replay_append, replay_flushEntries, replay_closingEntries hσ, hmet]
    refine ⟨fun h _ => h.2.1 rfl, fun h => ?_⟩
    exact ⟨⟨enclosed_flushEntries s, enclosed_closingEntries hσ _ _⟩, fun _ => h rfl, nofun, trivial⟩
  | endArray hmet =>
    refine hother hmet (by decide) ?_
    rw [tokensOf_append, tokensOf_append, enclosed_append, enclosed_append]
    exact ⟨⟨enclosed_flushEntries s, enclosed_closingEntries hσ _ _⟩, enclosed_closingEntries hσ.pop _ _⟩
  | group hmet =>
    refine hother hmet (by decide) (enclosed_of_forall_ne (List.forall_mem_singleton.2 ?_))
    unfold State.openingToken
    split <;> nofun
  | endGroup hmet =>
    refine hother hmet (by decide) ?_
    rw [tokensOf_append, enclosed_append]
    exact ⟨enclosed_flushEntries s, enclosed_closingEntries hσ _ _⟩

/-- A replay of what a step puts out leaves the scopes open that the step leaves open. -/
theorem replay_entriesAt (h : s.Walks) (hs : s.rest ≠ []) :
    s.scopes.replay (tokensOf s.entriesAt) = s.step.scopes := by
  have hstep := (State.walks_step h).replay_eq
  rwa [(State.stepped hs).trace, tokensOf_append, ScopeStack.replay_append, Walk.replay_eq h] at hstep

/-- A run encloses its separators exactly if a call is open around each row that a semicolon ends. -/
theorem enclosed_heads (h : s.Walks) :
    Enclosed s.scopes (tokensOf (s.heads.flatMap State.entriesAt)) ↔
      ∀ t ∈ s.heads, t.met? = some ';' → .function ∈ t.scopes.pop.kinds := by
  induction s using State.run.induct with
  | case1 s hs =>
    rw [State.heads_of_nil hs]
    exact iff_of_true trivial (List.forall_mem_nil _)
  | case2 s hs ih =>
    rw [State.heads_of_ne_nil hs, List.flatMap_cons, tokensOf_append, enclosed_append,
      (State.stepped hs).act.enclosed (Walk.started h), replay_entriesAt h hs, ih (State.walks_step h),
      List.forall_mem_cons]

theorem enclosed_scan (formula : String) :
    Enclosed {} (scan formula).tokens ↔
      ∀ t ∈ (State.start formula).heads, t.met? = some ';' → .function ∈ t.scopes.pop.kinds := by
  show Enclosed {} (tokensOf (scan formula).trace) ↔ _
  rw [trace_scan, tokensOf_append, enclosed_append]
  exact (and_iff_left (enclosed_flushEntries _)).trans
    (enclosed_heads (s := State.start formula) .nil)

end Scan

/-! ## The final tokens -/

/-- Every separator of arguments stands in some function call, after more starts than stops. -/
def ArgumentsEnclosed (ts : List Token) : Prop :=
  ∀ before t after, ts = before ++ t :: after → t.kind = .argument →
    .function ∈ (({} : ScopeStack).replay before).kinds ∧
      before.countP Token.isStop < before.countP Token.isStart

/-- Where each stop closes a scope, there are more starts than stops before a token in a call. -/
theorem Grounded.argumentsEnclosed_iff (h : Grounded {} ts) : ArgumentsEnclosed ts ↔ Enclosed {} ts := by
  rw [enclosed_iff_forall_split]
  refine ⟨fun h before t after hsplit ht => (h before t after hsplit ht).1,
    fun henclosed before t after hsplit ht => ?_⟩
  have hmem := henclosed before t after hsplit ht
  have hcount := (hsplit ▸ h).of_append.countP
  have hdepth : 0 < (({} : ScopeStack).replay before).depth := by
    rw [ScopeStack.depth_eq_length_kinds]
    exact List.length_pos_of_mem hmem
  refine ⟨hmem, ?_⟩
  have hzero : ({} : ScopeStack).depth = 0 := rfl
  omega

/-- In the final stream of a structurally complete formula every separator of arguments stands in a
function call, exactly if each semicolon outside the literals is met where a call is open around the
innermost scope. -/
theorem arguments_enclosed_iff (p : ScanPreferences) {formula : String}
    (hok : (parse p formula).check = .ok ()) :
    ArgumentsEnclosed (parse p formula).tokens ↔
      ∀ s ∈ (State.start formula).heads, s.met? = some ';' → .function ∈ s.scopes.pop.kinds := by
  have hgrounded : Grounded {} (parse p formula).tokens :=
    grounded_parse p (recorded_of_check_eq_ok p hok).2.2.1
  rw [hgrounded.argumentsEnclosed_iff, tokens_eq_outcomes, (outcomes_raw p formula).enclosed rfl]
  exact enclosed_scan formula

theorem arguments_enclosed_array :
    (parse {} "=\x7b1,F(2,3);4\x7d").check = .ok () ∧
      ArgumentsEnclosed (parse {} "=\x7b1,F(2,3);4\x7d").tokens := by
  have hok : (parse {} "=\x7b1,F(2,3);4\x7d").check = .ok () :=
    check_eq_ok {} (by decide +kernel) (by decide +kernel) (by decide +kernel) (by decide +kernel)
  exact ⟨hok, (arguments_enclosed_iff {} hok).2 (by decide +kernel)⟩

/-- A semicolon in a parenthesis ends it, so that its separator stands in no scope at all; yet the stream
is structurally complete. -/
theorem arguments_not_enclosed_parenthesis :
    (parse {} "=(1;2)").check = .ok () ∧ ¬ArgumentsEnclosed (parse {} "=(1;2)").tokens := by
  have hok : (parse {} "=(1;2)").check = .ok () :=
    check_eq_ok {} (by decide +kernel) (by decide +kernel) (by decide +kernel) (by decide +kernel)
  refine ⟨hok, fun h => ?_⟩
  have htokens : (parse {} "=(1;2)").tokens =
      [⟨"", .subexpression, .start⟩, ⟨"1", .operand, .number⟩, ⟨"", .subexpression, .stop⟩] ++
        argumentToken :: [rowToken, ⟨"2", .operand, .number⟩, ⟨"", .function, .stop⟩] := by
    decide +kernel
  exact absurd (h _ _ _ htokens rfl).1 (by decide)

end SheetFormula
