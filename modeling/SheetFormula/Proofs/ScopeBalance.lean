import SheetFormula.Proofs.ScopeDiscipline

/-!
# Balanced scopes

The structure check counts the openings and the closings of a stream and looks at no kind. What it
finds is stated here on the stack of open scopes: `openAt` is the stack before a token, a stream is
`Grounded` if each stop closes some scope, and a start `Matches` the stop that closes its scope. Main
statements:

* `exists_matches`, `Matches.unique`: if no scope of a disciplined stream is left open, each start
  matches exactly one stop, and the two are of one kind;
* `checkScopes_append`: up to the first stop that closes nothing, the two counters of the check differ
  by the depth of the stack;
* `checkScopes_of_grounded`, `checkScopes_of_stop`: what the check of the scopes answers;
* `findUnknown?_eq_none_iff`, `findUnknown?_append`: what the search for unknown tokens answers.
-/

namespace SheetFormula

variable {σ τ : ScopeStack} {ts us : List Token} {t u : Token} {i j k : Nat}

namespace ScopeStack

theorem isEmpty_iff_depth (s : ScopeStack) : s.isEmpty = true ↔ s.depth = 0 := by
  rw [isEmpty, depth, List.isEmpty_iff, List.length_eq_zero_iff]

theorem isEmpty_eq_false_iff_depth (s : ScopeStack) : s.isEmpty = false ↔ 0 < s.depth := by
  rw [← Bool.not_eq_true, isEmpty_iff_depth, Nat.pos_iff_ne_zero]

end ScopeStack

/-! ## Matching ends of a scope -/

/-- The scopes that are open before the `k`-th of some tokens. -/
def openAt (ts : List Token) (k : Nat) : ScopeStack := ({} : ScopeStack).replay (ts.take k)

/-- The `j`-th of some tokens closes the scope that the `i`-th of them opens: it is a later stop of the
same kind, the scope is open between them, and the depth after it is that before the start. -/
structure Matches (ts : List Token) (i j : Nat) : Prop where
  later : i < j
  ends : ∃ t u, ts[i]? = some t ∧ ts[j]? = some u ∧ t.isStart = true ∧ u.isStop = true ∧
    u.kind = t.kind
  inside : ∀ k, i < k → k ≤ j → (openAt ts i).depth < (openAt ts k).depth
  outside : (openAt ts (j + 1)).depth = (openAt ts i).depth

theorem openAt_succ (h : ts[k]? = some t) : openAt ts (k + 1) = (openAt ts k).feed t := by
  rw [openAt, List.take_add_one, h, ScopeStack.replay_append]
  rfl

theorem openAt_of_length_le (h : ts.length ≤ k) : openAt ts k = ({} : ScopeStack).replay ts := by
  rw [openAt, List.take_of_length_le h]

theorem openAt_succ_of_isStart (h : ts[k]? = some t) (ht : t.isStart = true) :
    openAt ts (k + 1) = (openAt ts k).push t := by
  rw [openAt_succ h, ScopeStack.feed_of_isStart ht]

/-- A step that does not go below a scope keeps it at the bottom of the stack. -/
theorem suffix_openAt_succ {base : List Token} (h : base <:+ (openAt ts k).scopes)
    (hdepth : base.length ≤ (openAt ts (k + 1)).depth) : base <:+ (openAt ts (k + 1)).scopes := by
  cases ht : ts[k]? with
  | none =>
    have hk : ts.length ≤ k := List.getElem?_eq_none_iff.1 ht
    rwa [openAt_of_length_le (Nat.le_succ_of_le hk), ← openAt_of_length_le hk]
  | some t =>
    rw [openAt_succ ht] at hdepth ⊢
    by_cases hstart : t.isStart = true
    · rw [ScopeStack.feed_of_isStart hstart]
      exact h.trans (List.suffix_cons t _)
    · rw [Bool.not_eq_true] at hstart
      by_cases hstop : t.isStop = true
      · rw [ScopeStack.feed_of_isStop hstop] at hdepth ⊢
        revert h hdepth
        rcases openAt ts k with ⟨_ | ⟨top, below⟩⟩
        · exact fun h _ => h
        · intro h hdepth
          refine (List.suffix_cons_iff.1 h).resolve_left fun heq => ?_
          rw [heq, List.length_cons] at hdepth
          exact absurd hdepth (Nat.not_succ_le_self _)
      · rw [Bool.not_eq_true] at hstop
        rwa [ScopeStack.feed_of_inner hstart hstop]

/-- Where the depth stays above that of a start, its scope is on the stack. -/
theorem suffix_openAt (hik : i ≤ k)
    (hinside : ∀ m, i ≤ m → m ≤ k → (openAt ts i).depth ≤ (openAt ts m).depth) :
    (openAt ts i).scopes <:+ (openAt ts k).scopes := by
  induction hik with
  | refl => exact List.suffix_rfl
  | step hik ih =>
    have hk := ih fun m him hmk => hinside m him (Nat.le_succ_of_le hmk)
    exact suffix_openAt_succ hk (hinside _ (Nat.le_succ_of_le hik) (Nat.le_refl _))

/-- If the depth is above that of a start and no scope is left open in the end, then the depth falls
back to that of the start, for the first time after some token. -/
theorem exists_return (hempty : (({} : ScopeStack).replay ts).isEmpty = true) {n : Nat}
    (hn : k + n = ts.length) (hik : i < k)
    (hinside : ∀ m, i < m → m ≤ k → (openAt ts i).depth < (openAt ts m).depth) :
    ∃ j, i < j ∧ (openAt ts (j + 1)).depth ≤ (openAt ts i).depth ∧
      ∀ m, i < m → m ≤ j → (openAt ts i).depth < (openAt ts m).depth := by
  induction n generalizing k with
  | zero =>
    have hk := hinside k hik (Nat.le_refl k)
    rw [openAt_of_length_le (k := k) (by omega), (ScopeStack.isEmpty_iff_depth _).1 hempty] at hk
    exact absurd hk (Nat.not_lt_zero _)
  | succ n ih =>
    rcases Nat.lt_or_ge (openAt ts i).depth (openAt ts (k + 1)).depth with hlt | hge
    · refine ih (by omega) (Nat.lt_succ_of_lt hik) fun m him hmk => ?_
      rcases Nat.lt_or_eq_of_le hmk with hmk | rfl
      · exact hinside m him (Nat.le_of_lt_succ hmk)
      · exact hlt
    · exact ⟨k, hik, hge, hinside⟩

/-- A token after which the depth falls back is a stop, from one above. -/
theorem isStop_of_return (hbelow : (openAt ts (j + 1)).depth ≤ (openAt ts i).depth)
    (habove : (openAt ts i).depth < (openAt ts j).depth) :
    ∃ u, ts[j]? = some u ∧ u.isStop = true ∧ (openAt ts j).depth = (openAt ts i).depth + 1 := by
  cases hu : ts[j]? with
  | none =>
    have hlen : ts.length ≤ j := List.getElem?_eq_none_iff.1 hu
    rw [openAt_of_length_le (Nat.le_succ_of_le hlen), ← openAt_of_length_le hlen] at hbelow
    exact absurd hbelow (Nat.not_le_of_lt habove)
  | some u =>
    rw [openAt_succ hu] at hbelow
    by_cases hstart : u.isStart = true
    · rw [ScopeStack.feed_of_isStart hstart, ScopeStack.depth_push] at hbelow
      omega
    · rw [Bool.not_eq_true] at hstart
      by_cases hstop : u.isStop = true
      · rw [ScopeStack.feed_of_isStop hstop, ScopeStack.depth_pop] at hbelow
        exact ⟨u, rfl, hstop, by omega⟩
      · rw [Bool.not_eq_true] at hstop
        rw [ScopeStack.feed_of_inner hstart hstop] at hbelow
        omega

/-- If no scope is left open in the end, then every start has a matching stop. -/
theorem exists_matches (hd : Disciplined {} none ts)
    (hempty : (({} : ScopeStack).replay ts).isEmpty = true) (hi : ts[i]? = some t)
    (ht : t.isStart = true) : ∃ j, Matches ts i j := by
  have hlt : i < ts.length := (List.getElem?_eq_some_iff.1 hi).1
  have hfirst : openAt ts (i + 1) = (openAt ts i).push t := openAt_succ_of_isStart hi ht
  have hdepth : (openAt ts (i + 1)).depth = (openAt ts i).depth + 1 := by
    rw [hfirst, ScopeStack.depth_push]
  obtain ⟨j, hij, hbelow, hinside⟩ : ∃ j, i < j ∧ (openAt ts (j + 1)).depth ≤ (openAt ts i).depth ∧
      ∀ m, i < m → m ≤ j → (openAt ts i).depth < (openAt ts m).depth := by
    refine exists_return hempty (Nat.add_sub_cancel' hlt) (Nat.lt_succ_self i) fun m him hmi => ?_
    rw [Nat.le_antisymm hmi him, hdepth]
    exact Nat.lt_succ_self _
  obtain ⟨u, hu, hstop, hback⟩ := isStop_of_return hbelow (hinside j hij (Nat.le_refl j))
  -- The stack between the two ends keeps the start at its bottom, so the stop meets it there.
  have hsuffix : (openAt ts (i + 1)).scopes <:+ (openAt ts j).scopes :=
    suffix_openAt hij fun m him hmj => hdepth ▸ hinside m him hmj
  have hscopes : (openAt ts j).scopes = t :: (openAt ts i).scopes := by
    rw [← hsuffix.eq_of_length (hdepth.trans hback.symm), hfirst]
    rfl
  have hkind : u.kind = t.kind := by
    have hsplit : ts.take j ++ u :: ts.drop (j + 1) = ts := by
      obtain ⟨hlen, hget⟩ := List.getElem?_eq_some_iff.1 hu
      rw [← hget, List.getElem_cons_drop, List.take_append_drop]
    have hplaced : Placed (openAt ts j) _ _ u := (hsplit.symm ▸ hd).placed
    rw [hplaced.stop hstop, ScopeStack.topKind?, ScopeStack.top?, hscopes]
    rfl
  refine ⟨j, hij, ⟨t, u, hi, hu, ht, hstop, hkind⟩, hinside, ?_⟩
  rw [openAt_succ hu, ScopeStack.feed_of_isStop hstop, ScopeStack.depth_pop, hback,
    Nat.add_sub_cancel]

/-- A start matches no two stops. -/
theorem Matches.unique (h : Matches ts i j) (h' : Matches ts i k) : j = k := by
  rcases Nat.lt_trichotomy j k with hlt | heq | hlt
  · exact absurd h.outside (Nat.ne_of_gt (h'.inside (j + 1) (Nat.lt_succ_of_lt h.later) hlt))
  · exact heq
  · exact absurd h'.outside (Nat.ne_of_gt (h.inside (k + 1) (Nat.lt_succ_of_lt h'.later) hlt))

/-! ## The check of the scopes -/

/-- Each stop among some tokens closes a scope, the first of them where some scopes are open. -/
def Grounded (σ : ScopeStack) : List Token → Prop
  | [] => True
  | t :: ts => (t.isStop = true → σ.isEmpty = false) ∧ Grounded (σ.feed t) ts

theorem Grounded.append (h : Grounded σ ts) (h' : Grounded (σ.replay ts) us) :
    Grounded σ (ts ++ us) := by
  induction ts generalizing σ with
  | nil => exact h'
  | cons t ts ih => exact ⟨h.1, ih h.2 h'⟩

/-- Where each stop closes a scope, the starts are as many as the stops and the open scopes. -/
theorem Grounded.countP (h : Grounded σ ts) :
    ts.countP Token.isStart + σ.depth = ts.countP Token.isStop + (σ.replay ts).depth := by
  induction ts generalizing σ with
  | nil => rfl
  | cons t ts ih =>
    have hts := ih h.2
    rw [List.countP_cons, List.countP_cons, ScopeStack.replay_cons]
    obtain ⟨hstart, hstop⟩ | ⟨hstart, hstop⟩ | ⟨hstart, hstop⟩ := ScopeStack.role_cases t
    · rw [ScopeStack.feed_of_isStart hstart, ScopeStack.depth_push] at hts
      rw [ScopeStack.feed_of_isStart hstart, hstart, hstop, if_pos rfl, if_neg (by decide)]
      omega
    · have hopen : 0 < σ.depth := (σ.isEmpty_eq_false_iff_depth).1 (h.1 hstop)
      rw [ScopeStack.feed_of_isStop hstop, ScopeStack.depth_pop] at hts
      rw [ScopeStack.feed_of_isStop hstop, hstart, hstop, if_pos rfl, if_neg (by decide)]
      omega
    · rw [ScopeStack.feed_of_inner hstart hstop] at hts
      rw [ScopeStack.feed_of_inner hstart hstop, hstart, hstop, if_neg (by decide)]
      omega

theorem Grounded.of_append (h : Grounded σ (ts ++ us)) : Grounded σ ts := by
  induction ts generalizing σ with
  | nil => trivial
  | cons t ts ih => exact ⟨h.1, ih h.2⟩

/-- Where no stop closes nothing, the two counters count the starts and the stops. -/
theorem checkScopes_append_counts {opened closed : Nat} (h : Grounded σ ts)
    (hcount : opened = closed + σ.depth) (us : List Token) :
    checkScopes i opened closed (ts ++ us) =
      checkScopes (i + ts.length) (opened + ts.countP Token.isStart) (closed + ts.countP Token.isStop)
        us := by
  induction ts generalizing σ i opened closed with
  | nil => rfl
  | cons t ts ih =>
    have hplace : i + (t :: ts).length = i + 1 + ts.length := by
      rw [List.length_cons, Nat.add_assoc, Nat.add_comm 1]
    rw [List.cons_append, checkScopes, hplace]
    obtain ⟨hstart, hstop⟩ | ⟨hstart, hstop⟩ | ⟨hstart, hstop⟩ := ScopeStack.role_cases t
    · have hdepth : opened + 1 = closed + (σ.feed t).depth := by
        rw [ScopeStack.feed_of_isStart hstart, ScopeStack.depth_push]
        omega
      rw [if_pos hstart, ih h.2 hdepth, List.countP_cons_of_pos hstart,
        List.countP_cons_of_neg (by simp [hstop]), Nat.add_assoc opened, Nat.add_comm 1]
    · have hopen : 0 < σ.depth := (σ.isEmpty_eq_false_iff_depth).1 (h.1 hstop)
      have hdepth : opened = closed + 1 + (σ.feed t).depth := by
        rw [ScopeStack.feed_of_isStop hstop, ScopeStack.depth_pop]
        omega
      rw [if_neg (by simp [hstart]), if_pos hstop, if_neg (by omega), ih h.2 hdepth,
        List.countP_cons_of_neg (by simp [hstart]), List.countP_cons_of_pos hstop,
        Nat.add_assoc closed, Nat.add_comm 1]
    · have hdepth : opened = closed + (σ.feed t).depth := by
        rw [ScopeStack.feed_of_inner hstart hstop, hcount]
      rw [if_neg (by simp [hstart]), if_neg (by simp [hstop]), ih h.2 hdepth,
        List.countP_cons_of_neg (by simp [hstart]), List.countP_cons_of_neg (by simp [hstop])]

/-- Where no stop closes nothing, the two counters differ by the number of open scopes. -/
theorem checkScopes_append {opened closed : Nat} (h : Grounded σ ts)
    (hcount : opened = closed + σ.depth) (us : List Token) :
    ∃ opened' closed', opened' = closed' + (σ.replay ts).depth ∧
      checkScopes i opened closed (ts ++ us) = checkScopes (i + ts.length) opened' closed' us := by
  have hbalance := h.countP
  exact ⟨_, _, by omega, checkScopes_append_counts h hcount us⟩

/-- The check of a whole stream comes to the part after some grounded one. -/
theorem checkScopes_append_of_grounded (h : Grounded {} ts) (us : List Token) :
    ∃ opened closed, opened = closed + (({} : ScopeStack).replay ts).depth ∧
      checkScopes 0 0 0 (ts ++ us) = checkScopes ts.length opened closed us := by
  rw [← Nat.zero_add ts.length]
  exact checkScopes_append h rfl us

/-- Where each stop closes a scope, the check tells whether some scope is left open. -/
theorem checkScopes_of_grounded (h : Grounded {} ts) :
    ((({} : ScopeStack).replay ts).isEmpty = true → checkScopes 0 0 0 ts = .ok ()) ∧
    ((({} : ScopeStack).replay ts).isEmpty = false →
      ∃ opened closed, checkScopes 0 0 0 ts = .error (.unbalancedScope opened closed) ∧
        closed < opened ∧ opened - closed = (({} : ScopeStack).replay ts).depth) := by
  obtain ⟨opened, closed, hcount, hcheck⟩ := checkScopes_append_of_grounded h []
  rw [List.append_nil] at hcheck
  rw [hcheck, checkScopes, ScopeStack.isEmpty_iff_depth, ScopeStack.isEmpty_eq_false_iff_depth]
  refine ⟨fun hempty => if_pos (by omega), fun hopen => ⟨opened, closed, if_neg ?_, ?_, ?_⟩⟩ <;> omega

/-- The first stop that closes nothing is where the check stops. -/
theorem checkScopes_of_stop (h : Grounded {} ts) (hempty : (({} : ScopeStack).replay ts).isEmpty = true)
    (ht : t.isStop = true) (us : List Token) :
    checkScopes 0 0 0 (ts ++ t :: us) = .error (.unexpectedStop ts.length) := by
  obtain ⟨opened, closed, hcount, hcheck⟩ := checkScopes_append_of_grounded h (t :: us)
  rw [(ScopeStack.isEmpty_iff_depth _).1 hempty] at hcount
  have hstart := ScopeStack.isStart_of_isStop ht
  rw [hcheck, checkScopes, hstart, if_neg (by decide), if_pos ht, if_pos (show closed = opened from hcount.symm)]

/-! ## The search for unknown tokens -/

theorem findUnknown?_eq_none_iff : findUnknown? i ts = none ↔ ∀ t ∈ ts, t.kind ≠ .unknown := by
  induction ts generalizing i with
  | nil => simp [findUnknown?]
  | cons t ts ih =>
    rw [findUnknown?, List.forall_mem_cons]
    split
    · rename_i hk
      simp [hk]
    · rename_i hk
      rw [ih]
      simp [hk]

theorem findUnknown?_append (h : ∀ u ∈ ts, u.kind ≠ .unknown) (ht : t.kind = .unknown)
    (us : List Token) :
    findUnknown? i (ts ++ t :: us) = some (.unknownToken t.value (i + ts.length)) := by
  induction ts generalizing i with
  | nil => rw [List.nil_append, findUnknown?, if_pos ht, List.length_nil, Nat.add_zero]
  | cons u ts ih =>
    rw [List.cons_append, findUnknown?, if_neg (h u List.mem_cons_self),
      ih fun v hv => h v (List.mem_cons_of_mem u hv), List.length_cons, Nat.add_assoc,
      Nat.add_comm 1]

end SheetFormula
