import SheetFormula.Proofs.ScanHeads
import SheetFormula.Proofs.StructureCheck
import SheetFormula.Proofs.Vocabulary

/-!
# Indentation

The outline of a token stream keeps a counter of its own, which looks at the subkinds only and never goes
below zero; the scanner keeps a stack of the open scopes while it puts the raw tokens out one by one. For
every formula the counter is the depth of that stack: before the scope of a start is opened, and after
that of a stop is closed. Main statements:

* `outlineLines_eq`: the counter is the depth of the stack that the stream itself replays;
* `reaches_step`, `Reaches.exists_moment`: a step takes the scanner from one operation to the next, and
  each token is put out by one of them;
* `exists_moment`: the moment of the scan at which a raw token is put out, and the depth then;
* `Outcomes.exists_indentAt`: the passes change no depth;
* `outline_parse`: the outline of every formula.
-/

namespace SheetFormula

open Scan

/-! ## The outline and the scopes of the stream -/

/-- How deep the `j`-th of some tokens stands in scopes: a stop stands outside the scope it closes, any
other token in the scopes that are open before it. -/
def indentAt (ts : List Token) (j : Nat) : Nat :=
  (openAt ts (if ts[j]?.any Token.isStop then j + 1 else j)).depth

variable {σ : ScopeStack} {ts : List Token} {t : Token} {i j k : Nat}

theorem indentAt_of_isStop (ht : ts[j]? = some t) (hstop : t.isStop = true) :
    indentAt ts j = (openAt ts (j + 1)).depth := by
  rw [indentAt, ht, Option.any_some, if_pos hstop]

theorem indentAt_of_not_isStop (ht : ts[j]? = some t) (hstop : t.isStop = false) :
    indentAt ts j = (openAt ts j).depth := by
  rw [indentAt, ht, Option.any_some, hstop, if_neg Bool.false_ne_true]

/-- In a final stream the subkinds alone show what opens and closes a scope. -/
theorem Stream.Vocabulary.subkind_iff (h : Stream.Vocabulary t) :
    (t.subkind = .start ↔ t.isStart = true) ∧ (t.subkind = .stop ↔ t.isStop = true) := by
  cases h <;> simp [Token.isStart, Token.isStop, Kind.isScope]

/-- The counter of the outline is the depth of the stack. -/
theorem outlineLines_eq (h : ∀ t ∈ ts, Stream.Vocabulary t) (σ : ScopeStack) :
    outlineLines σ.depth ts = ts.mapIdx fun j t =>
      outlineLine (σ.replay (ts.take (if t.isStop then j + 1 else j))).depth t := by
  induction ts generalizing σ with
  | nil => rfl
  | cons t ts ih =>
    rw [List.forall_mem_cons] at h
    -- the counter tests the subkind and the stack the whole role, which agree in a final stream
    obtain ⟨hstart, hstop⟩ := h.1.subkind_iff
    have hline : lineDepth σ.depth t =
        (σ.replay ((t :: ts).take (if t.isStop then 0 + 1 else 0))).depth := by
      rw [lineDepth]
      by_cases ht : t.isStop = true
      · rw [if_pos (hstop.2 ht), if_pos ht, List.take_succ_cons, List.take_zero,
          ScopeStack.replay_cons, ScopeStack.replay_nil, ScopeStack.feed_of_isStop ht,
          ScopeStack.depth_pop]
      · rw [if_neg (mt hstop.1 ht), if_neg ht, List.take_zero, ScopeStack.replay_nil]
    have hnext : nextDepth (lineDepth σ.depth t) t = (σ.feed t).depth := by
      simp only [nextDepth, lineDepth, hstart, hstop]
      obtain ⟨hs, he⟩ | ⟨hs, he⟩ | ⟨hs, he⟩ := ScopeStack.role_cases t
      · simp [ScopeStack.feed_of_isStart hs, hs, he]
      · simp [ScopeStack.feed_of_isStop he, hs, he]
      · simp [ScopeStack.feed_of_inner hs he, hs, he]
    rw [outlineLines, List.mapIdx_cons, hnext, ih h.2, hline]
    refine congrArg _ (List.mapIdx_eq_mapIdx_iff.2 fun j hj => ?_)
    split <;> rfl

/-- The outline has a line for each token, as deep as the token stands in scopes. -/
theorem outline_eq_join (h : ∀ t ∈ ts, Stream.Vocabulary t) :
    outline ts = String.join (ts.mapIdx fun j t => outlineLine (indentAt ts j) t) := by
  have hlines : outlineLines 0 ts = ts.mapIdx fun j t => outlineLine (indentAt ts j) t := by
    refine (outlineLines_eq h {}).trans (List.mapIdx_eq_mapIdx_iff.2 fun j hj => ?_)
    rw [indentAt, List.getElem?_eq_getElem hj, Option.any_some]
    rfl
  rw [outline, hlines]
  rfl

/-- The two ends of a scope stand equally deep, and all between them stands deeper. -/
theorem Matches.indentAt (h : Matches ts i j) :
    indentAt ts i = indentAt ts j ∧ ∀ k, i < k → k < j → indentAt ts i < indentAt ts k := by
  obtain ⟨t, u, ht, hu, hstart, hstop, -⟩ := h.ends
  have hfirst : SheetFormula.indentAt ts i = (openAt ts i).depth := by
    refine indentAt_of_not_isStop ht ?_
    rw [← Bool.not_eq_true]
    intro hstop
    rw [ScopeStack.isStart_of_isStop hstop] at hstart
    cases hstart
  have hlast : SheetFormula.indentAt ts j = (openAt ts i).depth := by
    rw [indentAt_of_isStop hu hstop, h.outside]
  refine ⟨hfirst.trans hlast.symm, fun k hik hkj => ?_⟩
  rw [hfirst, SheetFormula.indentAt]
  split
  · exact h.inside (k + 1) (Nat.lt_succ_of_lt hik) hkj
  · exact h.inside k hik (Nat.le_of_lt hkj)

/-! ## The operations of the scanner -/

namespace Scan

/-- The scanner puts out a token. -/
inductive Puts : State → Token → State → Prop
  | inner (s : State) {t : Token} (ht : t.isScopeEnd = false) : Puts s t (s.emit t)
  | opening (s : State) (value : String) {k : Kind} (hk : k.isScope = true) :
    Puts s ⟨value, k, .start⟩ (s.openScope value k)
  | closing (s : State) (delimiter : Char) : Puts s s.scopes.closing (s.closeScope delimiter)

/-- The scanner does something else. -/
inductive Quiet : State → State → Prop
  | advance (s : State) (n : Nat) : Quiet s (s.advance n)
  | enter (s : State) (mode : Mode) : Quiet s (s.enter mode)
  | collect (s : State) (c : Char) : Quiet s (s.collect c)
  | dropPending (s : State) : Quiet s s.dropPending
  | stray (s : State) (delimiter : Char) : Quiet s (s.note (.stray s.offset delimiter s.pending))

/-- The scanner comes from one state to another, one operation after the other. -/
inductive Reaches : State → State → Prop
  | refl (s : State) : Reaches s s
  | quiet {s t u : State} : Reaches s t → Quiet t u → Reaches s u
  | puts {s t u : State} {d : Token} : Reaches s t → Puts t d u → Reaches s u

variable {s t u a b : State} {d : Token}

theorem Quiet.same (h : Quiet s t) : t.tokens = s.tokens ∧ t.scopes = s.scopes := by
  cases h with
  | stray delimiter =>
    refine ⟨?_, rfl⟩
    rw [State.tokens_note]
    exact List.append_nil _
  | _ => exact ⟨rfl, rfl⟩

theorem Puts.tokens (h : Puts s d t) : t.tokens = s.tokens ++ [d] := by
  cases h with
  | inner ht => exact s.tokens_emit d
  | opening value hk => exact s.tokens_openScope value _
  | closing delimiter => exact s.tokens_closeScope delimiter

/-- A token that is put out changes the open scopes as it shows. -/
theorem Puts.feed (h : Puts s d t) (hs : Started s.scopes) : t.scopes = s.scopes.feed d := by
  cases h with
  | inner ht =>
    rw [Token.isScopeEnd, Bool.or_eq_false_iff] at ht
    rw [ScopeStack.feed_of_inner ht.1 ht.2]
    rfl
  | opening value hk =>
    rw [ScopeStack.feed_of_isStart (isStart_of_isScope hk value)]
    rfl
  | closing delimiter =>
    rw [State.scopes_closeScope, ScopeStack.feed_of_isStop hs.isStop_closing]

theorem Puts.started (h : Puts s d t) (hs : Started s.scopes) : Started t.scopes := by
  cases h with
  | inner ht => exact hs
  | opening value hk => exact hs.push (isStart_of_isScope hk value)
  | closing delimiter =>
    rw [State.scopes_closeScope]
    exact hs.pop

/-- The open scopes were opened, and they are those that the tokens so far show. -/
def Shown (s : State) : Prop :=
  Started s.scopes ∧ ({} : ScopeStack).replay s.tokens = s.scopes

theorem Reaches.shown (h : Reaches s t) (hs : Shown s) : Shown t := by
  induction h with
  | refl => exact hs
  | quiet _ hquiet ih =>
    obtain ⟨htokens, hscopes⟩ := hquiet.same
    rw [Shown, htokens, hscopes]
    exact ih
  | puts _ hputs ih =>
    refine ⟨hputs.started ih.1, ?_⟩
    rw [hputs.tokens, ScopeStack.replay_append, ih.2, hputs.feed ih.1]
    rfl

/-- Each token of a state that was not yet there in an earlier one was put out on the way. -/
theorem Reaches.exists_moment (h : Reaches s t) (hlow : s.tokens.length ≤ i)
    (hhigh : i < t.tokens.length) :
    ∃ a d b, Reaches s a ∧ Puts a d b ∧ Reaches b t ∧ t.tokens[i]? = some d ∧
      a.tokens = t.tokens.take i := by
  induction h with
  | refl => exact absurd hhigh (Nat.not_lt_of_le hlow)
  | quiet _ hquiet ih =>
    rw [hquiet.same.1] at hhigh ⊢
    obtain ⟨a, d, b, ha, hputs, hb, hd, htake⟩ := ih hhigh
    exact ⟨a, d, b, ha, hputs, hb.quiet hquiet, hd, htake⟩
  | @puts t u e hreach hlast ih =>
    rw [hlast.tokens] at hhigh ⊢
    rcases Nat.lt_or_ge i t.tokens.length with hlt | hge
    · obtain ⟨a, d, b, ha, hputs, hb, hd, htake⟩ := ih hlt
      refine ⟨a, d, b, ha, hputs, hb.puts hlast, ?_, ?_⟩
      · rw [List.getElem?_append_left hlt, hd]
      · rw [htake, List.take_append_of_le_length (Nat.le_of_lt hlt)]
    · rw [List.length_append, List.length_singleton] at hhigh
      obtain rfl : i = t.tokens.length := Nat.le_antisymm (Nat.le_of_lt_succ hhigh) hge
      refine ⟨t, e, u, hreach, hlast, .refl u, ?_, ?_⟩
      · rw [List.getElem?_append_right (Nat.le_refl _), Nat.sub_self]
        rfl
      · rw [List.take_left]

/-! ## A step, operation by operation -/

theorem Reaches.advance (h : Reaches s t) (n : Nat) : Reaches s (t.advance n) := h.quiet (.advance t n)

theorem Reaches.enter (h : Reaches s t) (mode : Mode) : Reaches s (t.enter mode) :=
  h.quiet (.enter t mode)

theorem Reaches.collect (h : Reaches s t) (c : Char) : Reaches s (t.collect c) :=
  h.quiet (.collect t c)

theorem Reaches.emit (h : Reaches s t) (hd : d.isScopeEnd = false) : Reaches s (t.emit d) :=
  h.puts (.inner t hd)

theorem Reaches.emitPending (h : Reaches s t) {k : Kind} {v : Subkind}
    (hd : Token.isScopeEnd ⟨t.pending, k, v⟩ = false) : Reaches s (t.emitPending k v) :=
  (h.quiet (.dropPending t)).emit hd

theorem Reaches.flush (h : Reaches s t) : Reaches s t.flush := by
  unfold State.flush
  split
  · exact h
  · exact h.emitPending rfl

theorem Reaches.flushStray (h : Reaches s t) (c : Char) : Reaches s (t.flushStray c) := by
  unfold State.flushStray
  split
  · exact h
  · exact (h.quiet (.stray t c)).emitPending rfl

theorem Reaches.openScope (h : Reaches s t) (value : String) {k : Kind} (hk : k.isScope = true) :
    Reaches s (t.openScope value k) :=
  h.puts (.opening t value hk)

theorem Reaches.closeScope (h : Reaches s t) (c : Char) : Reaches s (t.closeScope c) :=
  h.puts (.closing t c)

theorem reaches_codeStep (s : State) (c : Char) (rest : List Char) : Reaches s (s.codeStep c rest) := by
  have hflush : Reaches s s.flush := (Reaches.refl s).flush
  have hcollect : Reaches s ((s.collect c).advance 1) := ((Reaches.refl s).collect c).advance 1
  have hstray : Reaches s (s.flushStray c) := (Reaches.refl s).flushStray c
  unfold State.codeStep
  split
  · exact hcollect
  · split
    case h_1 => exact (hstray.enter _).advance 1
    case h_2 => exact (hstray.enter _).advance 1
    case h_3 => exact (((Reaches.refl s).enter _).collect _).advance 1
    case h_4 => exact ((hstray.enter _).collect _).advance 1
    case h_5 => exact ((hstray.openScope _ rfl).openScope _ rfl).advance 1
    case h_6 => exact (((hflush.closeScope _).emit rfl).openScope _ rfl).advance 1
    case h_7 => exact ((hflush.closeScope _).closeScope _).advance 1
    case h_8 => exact (hflush.emit rfl).advance _
    case h_9 => exact (hflush.emit rfl).advance 1
    case h_10 =>
      refine Reaches.advance ?_ 1
      split
      · exact (Reaches.refl s).openScope _ rfl
      · exact ((Reaches.refl s).quiet (.dropPending s)).openScope _ rfl
    case h_11 =>
      refine (hflush.emit ?_).advance 1
      rcases commaToken_cases s.scopes with h | h <;> rw [h] <;> rfl
    case h_12 => exact (hflush.closeScope _).advance 1
    case h_13 =>
      split
      · exact (hflush.emit rfl).advance 2
      · split
        · exact (hflush.emit rfl).advance 1
        · exact hcollect

theorem reaches_quotedStep (s : State) {quote c : Char} {closed : State → State}
    (hclosed : ∀ t, Reaches s t → Reaches s (closed t)) :
    Reaches s (s.quotedStep quote c closed) := by
  unfold State.quotedStep
  split
  · split
    · exact ((Reaches.refl s).collect c).advance 2
    · exact (hclosed _ ((Reaches.refl s).enter .code)).advance 1
  · exact ((Reaches.refl s).collect c).advance 1

/-- A step is a sequence of operations. -/
theorem reaches_step (s : State) : Reaches s s.step := by
  unfold State.step
  split
  · exact .refl s
  · rename_i c rest hrest
    split
    · exact reaches_codeStep s c rest
    · exact reaches_quotedStep s fun t h => h.emitPending rfl
    · exact reaches_quotedStep s fun t h => h
    · unfold State.bracketStep
      split
      · exact (((Reaches.refl s).enter _).collect c).advance 1
      · exact ((Reaches.refl s).collect c).advance 1
    · have hmore : Reaches s ((s.collect c).advance 1) := ((Reaches.refl s).collect c).advance 1
      unfold State.errorStep
      dsimp only
      split
      · exact (hmore.enter _).emitPending rfl
      · exact hmore

/-! ## The moment of a token -/

/-- The state after the next step, or after the pending text is put out where no text is left. -/
def State.next (s : State) : State := if s.rest = [] then s.flush else s.step

theorem reaches_next (s : State) : Reaches s s.next := by
  unfold State.next
  split
  · exact (Reaches.refl s).flush
  · exact reaches_step s

/-- The scan of a formula puts out its `i`-th raw token: between two states of the scan, one operation
after the other leads to a state with the tokens before it, and on from the state with it. -/
structure Moment (formula : String) (i : Nat) (a : State) (d : Token) (b : State) : Prop where
  puts : Puts a d b
  place : a.tokens = (scan formula).tokens.take i ∧ (scan formula).tokens[i]? = some d
  during : ∃ s ∈ (State.start formula).heads ++ [(State.start formula).run],
    Reaches s a ∧ Reaches b s.next

/-- Each raw token is put out in one of the steps from the heads, or after the last of them. -/
theorem State.exists_next (hlow : s.tokens.length ≤ i) (hhigh : i < s.finish.tokens.length) :
    ∃ t ∈ s.heads ++ [s.run], t.tokens.length ≤ i ∧ i < t.next.tokens.length ∧
      t.next.tokens <+: s.finish.tokens := by
  induction s using State.run.induct with
  | case1 s hs =>
    have hnext : s.next = s.finish := by rw [State.next, if_pos hs, State.finish, State.run_of_nil hs]
    rw [State.heads_of_nil hs, State.run_of_nil hs]
    exact ⟨s, List.mem_cons_self, hlow, by rwa [hnext], hnext ▸ List.prefix_rfl⟩
  | case2 s hs ih =>
    have hnext : s.next = s.step := if_neg hs
    have hfinish : s.step.finish = s.finish := by rw [State.finish, State.run_step, State.finish]
    rw [hfinish, State.run_step] at ih
    rw [State.heads_of_ne_nil hs]
    rcases Nat.lt_or_ge i s.step.tokens.length with hlt | hge
    · exact ⟨s, List.mem_cons_self, hlow, by rwa [hnext],
        hnext ▸ hfinish ▸ s.step.tokens_prefix_finish⟩
    · obtain ⟨t, ht, hrest⟩ := ih hge hhigh
      exact ⟨t, List.mem_cons_of_mem s ht, hrest⟩

theorem shown_of_mem {formula : String}
    (hs : s ∈ (State.start formula).heads ++ [(State.start formula).run]) : Shown s := by
  have hstart : (State.start formula).Walks := show Walk [] {} from .nil
  have hwalks : s.Walks := by
    rcases List.mem_append.1 hs with hs | hs
    · exact State.forall_heads (fun _ _ h => State.walks_step h) hstart s hs
    · rw [List.mem_singleton.1 hs]
      exact State.run_induction (fun _ _ h => State.walks_step h) hstart
  exact ⟨hwalks.started, hwalks.replay_eq⟩

/-- There is a moment for each raw token, and the token stands as deep as scopes are open then. -/
theorem exists_moment {formula : String} (hi : i < (scan formula).tokens.length) :
    ∃ a d b, Moment formula i a d b ∧ b.scopes = a.scopes.feed d ∧
      indentAt (scan formula).tokens i = (if d.isStop then b else a).scopes.depth := by
  obtain ⟨s, hs, hlow, hhigh, hstart⟩ :=
    State.exists_next (s := State.start formula) (Nat.zero_le i) hi
  obtain ⟨a, d, b, ha, hputs, hb, hd, htake⟩ := (reaches_next s).exists_moment hlow hhigh
  obtain ⟨after, hafter⟩ := hstart
  have hafter : s.next.tokens ++ after = (scan formula).tokens := hafter
  have hshown : Shown a := ha.shown (shown_of_mem hs)
  have hplace : a.tokens = (scan formula).tokens.take i := by
    rw [htake, ← hafter, List.take_append_of_le_length (Nat.le_of_lt hhigh)]
  have htoken : (scan formula).tokens[i]? = some d := by
    rw [← hafter, List.getElem?_append_left hhigh, hd]
  have hopen : openAt (scan formula).tokens i = a.scopes := by
    rw [← hshown.2, hplace]
    rfl
  have hfeed : b.scopes = a.scopes.feed d := hputs.feed hshown.1
  refine ⟨a, d, b, ⟨hputs, ⟨hplace, htoken⟩, s, hs, ha, hb⟩, hfeed, ?_⟩
  cases hstop : d.isStop with
  | true => rw [indentAt_of_isStop htoken hstop, openAt_succ htoken, hopen, ← hfeed, if_pos rfl]
  | false => rw [indentAt_of_not_isStop htoken hstop, hopen, if_neg Bool.false_ne_true]

end Scan

/-! ## The final tokens -/

namespace Stream

/-- Each final token is the outcome of a raw one, and those before it are the outcomes of those before. -/
theorem Outcomes.exists_source {os : List (Option Token)} {u : Token} (hos : Outcomes ts os)
    (hu : (os.filterMap id)[j]? = some u) :
    ∃ i t, ts[i]? = some t ∧ os[i]? = some (some u) ∧ Keeps t u ∧
      Outcomes (ts.take i) (os.take i) ∧ (os.take i).filterMap id = (os.filterMap id).take j := by
  induction hos generalizing j with
  | nil => cases hu
  | @cons t o ts os ho hos ih =>
    obtain ⟨follows, meets, hout⟩ := ho
    -- one raw token further, and one final token further if the first raw token is kept
    have hcons : ∀ j', (os.filterMap id)[j']? = some u → o.toList.length + j' = j →
        ∃ i t', (t :: ts)[i]? = some t' ∧ (o :: os)[i]? = some (some u) ∧ Keeps t' u ∧
          Outcomes ((t :: ts).take i) ((o :: os).take i) ∧
          ((o :: os).take i).filterMap id = ((o :: os).filterMap id).take j := by
      rintro j' hu' rfl
      obtain ⟨i, t', ht', ho', hkeeps, hbefore, htake⟩ := ih hu'
      refine ⟨i + 1, t', ht', ho', hkeeps, .cons ⟨follows, meets, hout⟩ hbefore, ?_⟩
      rw [List.take_succ_cons, filterMap_id_cons, filterMap_id_cons, htake,
        List.take_length_add_append]
    cases o with
    | none => exact hcons j hu (Nat.zero_add j)
    | some v =>
      cases j with
      | zero =>
        obtain rfl : v = u := Option.some.inj hu
        exact ⟨0, t, rfl, rfl, outcome_keeps hout, .nil, rfl⟩
      | succ j => exact hcons j hu (Nat.add_comm 1 j)

/-- A final token stands as deep as the raw token that it is the outcome of. -/
theorem Outcomes.exists_indentAt {os : List (Option Token)} {u : Token} (hos : Outcomes ts os)
    (hu : (os.filterMap id)[j]? = some u) :
    ∃ i t, ts[i]? = some t ∧ os[i]? = some (some u) ∧ Keeps t u ∧
      ((os.take i).filterMap id).length = j ∧ indentAt (os.filterMap id) j = indentAt ts i := by
  obtain ⟨i, t, ht, ho, hkeeps, hbefore, htake⟩ := hos.exists_source hu
  -- the passes change the names of the open scopes, so the stacks agree in their kinds only
  have hkinds : (openAt (os.filterMap id) j).kinds = (openAt ts i).kinds := by
    rw [openAt, openAt, ← htake]
    exact hbefore.kinds_replay rfl
  refine ⟨i, t, ht, ho, hkeeps, ?_, ?_⟩
  · rw [htake, List.length_take]
    exact Nat.min_eq_left (Nat.le_of_lt (List.getElem?_eq_some_iff.1 hu).1)
  · cases hstop : u.isStop with
    | true =>
      rw [indentAt_of_isStop hu hstop, indentAt_of_isStop ht (hkeeps.isStop.symm.trans hstop),
        openAt_succ hu, openAt_succ ht]
      exact ScopeStack.depth_of_kinds (hkeeps.kinds_feed hkinds)
    | false =>
      rw [indentAt_of_not_isStop hu hstop, indentAt_of_not_isStop ht (hkeeps.isStop.symm.trans hstop)]
      exact ScopeStack.depth_of_kinds hkinds

end Stream

/-- The outline of the final tokens of a formula has one line for each of them, with a tab for each scope
that the scanner has open when it puts the token out: before it opens the scope of a start, and after it
closed that of a stop, if there was one. So the two ends of a scope stand equally deep, and all between
them stands deeper. -/
theorem outline_parse (p : ScanPreferences) (formula : String) :
    let r := parse p formula
    r.outline = String.join (r.tokens.mapIdx fun j t =>
      String.ofList (List.replicate (indentAt r.tokens j) '\t') ++ t.display ++ "\n") ∧
    (∀ j t, r.tokens[j]? = some t → ∃ i a d b, Moment formula i a d b ∧
      (TokenList.ofList r.raw).outcomes[i]? = some (some t) ∧
      (TokenList.ofList r.raw).finalIndex i = j ∧
      indentAt r.tokens j = (if t.isStop then b else a).scopes.depth ∧
      (t.isStart = true → b.scopes = a.scopes.push d) ∧
      (t.isStop = true → b.scopes = a.scopes.pop ∧
        (a.scopes.isEmpty = true → indentAt r.tokens j = 0))) ∧
    (∀ i j, Matches r.tokens i j → indentAt r.tokens i = indentAt r.tokens j ∧
      ∀ k, i < k → k < j → indentAt r.tokens i < indentAt r.tokens k) := by
  intro r
  refine ⟨outline_eq_join fun t ht => (parse_vocabulary p formula t ht).1, fun j t ht => ?_,
    fun _ _ h => h.indentAt⟩
  have hos := outcomes_raw p formula
  have htokens := tokens_eq_outcomes p formula
  have hfinal := (TokenList.ofList (parse p formula).raw).finalIndex_eq
  generalize (TokenList.ofList (parse p formula).raw).outcomes = os at hos htokens hfinal ⊢
  rw [show r.tokens = os.filterMap id from htokens] at ht ⊢
  obtain ⟨i, d, hd, ho, hkeeps, hplace, hdepth⟩ := hos.exists_indentAt ht
  have hi : i < (scan formula).tokens.length := (List.getElem?_eq_some_iff.1 hd).1
  obtain ⟨a, d', b, hmoment, hb, hopen⟩ := exists_moment hi
  obtain rfl : d' = d := Option.some.inj (hmoment.place.2.symm.trans hd)
  have hindent : indentAt (os.filterMap id) j = (if t.isStop then b else a).scopes.depth := by
    rw [hkeeps.isStop]
    exact hdepth.trans hopen
  refine ⟨i, a, d', b, hmoment, ho, (hfinal i).trans hplace, hindent, fun hstart => ?_,
    fun hstop => ⟨?_, fun hempty => ?_⟩⟩
  · rw [hb, ScopeStack.feed_of_isStart (hkeeps.isStart.symm.trans hstart)]
  · rw [hb, ScopeStack.feed_of_isStop (hkeeps.isStop.symm.trans hstop)]
  · rw [hindent, if_pos hstop, hb, ScopeStack.feed_of_isStop (hkeeps.isStop.symm.trans hstop),
      ScopeStack.depth_pop, (a.scopes.isEmpty_iff_depth).1 hempty]

end SheetFormula
