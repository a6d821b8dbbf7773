import SheetFormula.Proofs.Faults

/-!
# Delimiters and structural completeness

The structure check counts scopes and knows nothing of the delimiters that open and close them. What a
complete formula says of its delimiters outside the literals is that they are counted off: each closing
one finds enough scopes open, whatever opened them, and none is left in the end (`CountedOff`). That they
are nested by their kinds (`Nested`) is more, and follows where all of them are of one kind. Main
statements:

* `CountedOff.of_nested`, `CountedOff.nested`: nested delimiters are counted off, and those of one kind
  that are counted off are nested;
* `Act.depth`, `depth_heads`: the open scopes of a scan are the count of its delimiters;
* `complete_iff_countedOff`: when a formula is structurally complete.
-/

namespace SheetFormula

open Scan

/-! ## Nested delimiters -/

/-- The opening delimiters that are left after one more delimiter, the innermost first, if it closes one
of its kind. -/
def nest? (stack : List Char) (c : Char) : Option (List Char) :=
  match c, stack with
  | '(', _ => some ('(' :: stack)
  | '\x7b', _ => some ('\x7b' :: stack)
  | ')', '(' :: rest => some rest
  | '\x7d', '\x7b' :: rest => some rest
  | ';', '\x7b' :: _ => some stack
  | _, _ => none

/-- Each closing delimiter closes the innermost opening one, which is of its kind, each semicolon stands
in braces, and nothing is left open. -/
def Nested (cs : List Char) : Prop := cs.foldlM nest? [] = some []

/-- How many scopes a delimiter opens. -/
def openings (c : Char) : Nat :=
  match c with
  | '(' => 1
  | ';' => 1
  | '\x7b' => 2
  | _ => 0

/-- How many scopes are open after one more delimiter, if it finds as many as it closes. -/
def depth? (depth : Nat) (c : Char) : Option Nat :=
  if depth < closings c then none else some (depth - closings c + openings c)

/-- Each closing delimiter finds as many open scopes as it closes, and nothing is left open. -/
def CountedOff (cs : List Char) : Prop := cs.foldlM depth? 0 = some 0

instance (cs : List Char) : Decidable (Nested cs) := inferInstanceAs (Decidable (_ = _))

instance (cs : List Char) : Decidable (CountedOff cs) := inferInstanceAs (Decidable (_ = _))

/-- How many scopes some opening delimiters open. -/
def weight : List Char → Nat
  | [] => 0
  | c :: stack => openings c + weight stack

theorem depth?_of_le {n m : Nat} {c : Char} (hle : closings c ≤ n)
    (hm : m + closings c = n + openings c) : depth? n c = some m := by
  rw [depth?, if_neg (Nat.not_lt.2 hle)]
  congr 1
  omega

/-- A delimiter that closes one of its kind finds the scopes that it closes. -/
theorem depth?_of_nest? {stack stack' : List Char} {c : Char} (h : nest? stack c = some stack') :
    depth? (weight stack) c = some (weight stack') := by
  unfold nest? at h
  split at h <;> cases h
  case h_1 =>
    rw [weight]
    exact depth?_of_le (Nat.zero_le _) (Nat.add_comm (openings '(') (weight stack))
  case h_2 =>
    rw [weight]
    exact depth?_of_le (Nat.zero_le _) (Nat.add_comm (openings '\x7b') (weight stack))
  case h_3 =>
    rw [weight]
    exact depth?_of_le (Nat.le_add_right 1 _) (Nat.add_comm _ _)
  case h_4 =>
    rw [weight]
    exact depth?_of_le (Nat.le_add_right 2 _) (Nat.add_comm _ _)
  case h_5 =>
    rw [weight]
    exact depth?_of_le (Nat.le_trans (by decide) (Nat.le_add_right 2 _)) rfl

theorem foldlM_depth?_of_nest? {stack stack' cs : List Char} (h : cs.foldlM nest? stack = some stack') :
    cs.foldlM depth? (weight stack) = some (weight stack') := by
  induction cs generalizing stack with
  | nil =>
    cases h
    rfl
  | cons c cs ih =>
    rw [List.foldlM_cons] at h
    obtain ⟨next, hnext, h⟩ := Option.bind_eq_some_iff.1 h
    rw [List.foldlM_cons, depth?_of_nest? hnext]
    exact ih h

/-- Nested delimiters are counted off. -/
theorem CountedOff.of_nested {cs : List Char} (h : Nested cs) : CountedOff cs :=
  foldlM_depth?_of_nest? h

/-- The delimiters of one kind, by the opening one. -/
def family : Char → List Char
  | '(' => ['(', ')']
  | '\x7b' => ['\x7b', ';', '\x7d']
  | _ => []

theorem weight_replicate_succ (n : Nat) (c : Char) :
    weight (List.replicate (n + 1) c) = openings c + weight (List.replicate n c) := by
  rw [List.replicate_succ, weight]

theorem closings_le_of_depth? {n m : Nat} {c : Char} (h : depth? n c = some m) :
    closings c ≤ n ∧ m + closings c = n + openings c := by
  rw [depth?] at h
  split at h
  · cases h
  · cases h
    omega

/-- Where all delimiters are of one kind, one that finds the scopes that it closes closes one of its
kind. -/
theorem nest?_of_depth? {o c : Char} (hc : c ∈ family o) {n m : Nat}
    (h : depth? (weight (List.replicate n o)) c = some m) :
    ∃ k, weight (List.replicate k o) = m ∧
      nest? (List.replicate n o) c = some (List.replicate k o) := by
  obtain ⟨hle, hm⟩ := closings_le_of_depth? h
  have hnone : ∀ {o}, 0 < closings c → ¬closings c ≤ weight (List.replicate 0 o) :=
    fun hpos => Nat.not_le_of_lt hpos
  unfold family at hc
  split at hc
  · rcases List.mem_pair.1 hc with rfl | rfl
    · refine ⟨n + 1, ?_, rfl⟩
      rw [weight_replicate_succ, Nat.add_comm]
      exact hm.symm
    · cases n with
      | zero => exact absurd hle (hnone (by decide))
      | succ k =>
        rw [weight_replicate_succ, Nat.add_comm (openings '(')] at hm
        exact ⟨k, (Nat.add_right_cancel (show m + 1 = _ + 1 from hm)).symm, rfl⟩
  · simp only [List.mem_cons, List.not_mem_nil, or_false] at hc
    rcases hc with rfl | rfl | rfl
    · refine ⟨n + 1, ?_, rfl⟩
      rw [weight_replicate_succ, Nat.add_comm]
      exact hm.symm
    · cases n with
      | zero => exact absurd hle (hnone (by decide))
      | succ k => exact ⟨k + 1, (Nat.add_right_cancel hm).symm, rfl⟩
    · cases n with
      | zero => exact absurd hle (hnone (by decide))
      | succ k =>
        rw [weight_replicate_succ, Nat.add_comm (openings '\x7b')] at hm
        exact ⟨k, (Nat.add_right_cancel (show m + 2 = _ + 2 from hm)).symm, rfl⟩
  · cases hc

theorem foldlM_nest?_of_depth? {o : Char} {cs : List Char} (hcs : ∀ c ∈ cs, c ∈ family o) {n m : Nat}
    (h : cs.foldlM depth? (weight (List.replicate n o)) = some m) :
    ∃ k, weight (List.replicate k o) = m ∧
      cs.foldlM nest? (List.replicate n o) = some (List.replicate k o) := by
  induction cs generalizing n with
  | nil => exact ⟨n, Option.some.inj h, rfl⟩
  | cons c cs ih =>
    rw [List.forall_mem_cons] at hcs
    rw [List.foldlM_cons] at h
    obtain ⟨next, hnext, h⟩ := Option.bind_eq_some_iff.1 h
    obtain ⟨j, rfl, hnest⟩ := nest?_of_depth? hcs.1 hnext
    rw [List.foldlM_cons, hnest]
    exact ih hcs.2 h

/-- Delimiters of one kind that are counted off are nested. -/
theorem CountedOff.nested {o : Char} {cs : List Char} (h : CountedOff cs) (ho : 0 < openings o)
    (hcs : ∀ c ∈ cs, c ∈ family o) : Nested cs := by
  obtain ⟨k, hk, hnest⟩ := foldlM_nest?_of_depth? (n := 0) hcs h
  cases k with
  | zero => exact hnest
  | succ k =>
    rw [weight_replicate_succ] at hk
    omega

example : CountedOff ['(', '(', '\x7d'] ∧ ¬Nested ['(', '(', '\x7d'] := by decide

/-! ## The delimiters of a scan -/

namespace Scan

variable {s : State} {new : List Entry} {τ : ScopeStack} {c : Char}

/-- The delimiter of scopes that is met at a head, if there is one. -/
def State.marks (s : State) : List Char := s.met?.toList.filter (· ∈ scopeMarks)

theorem marks_of_mem (hmet : s.met? = some c) (hc : c ∈ scopeMarks) : s.marks = [c] := by
  simp [State.marks, hmet, hc]

theorem marks_of_not_mem (hmet : ∀ c ∈ s.met?, c ∉ scopeMarks) : s.marks = [] := by
  cases hc : s.met? with
  | none => rw [State.marks, hc]; rfl
  | some c => simp [State.marks, hc, hmet c hc]

theorem missing_of_not_mem (hmet : ∀ c ∈ s.met?, c ∉ scopeMarks) : s.missing = 0 := by
  cases hc : s.met? with
  | none => rw [State.missing, hc]; exact Nat.zero_sub _
  | some c => rw [State.missing, hc, Option.elim_some, closings_of_not_mem (hmet c hc), Nat.zero_sub]

/-- At a delimiter the number of open scopes goes as it is counted. -/
theorem foldlM_marks (hmet : s.met? = some c) (hc : c ∈ scopeMarks)
    (hdepth : closings c ≤ s.scopes.depth → τ.depth + closings c = s.scopes.depth + openings c) :
    s.marks.foldlM depth? s.scopes.depth = if s.missing = 0 then some τ.depth else none := by
  have hmissing : s.missing = closings c - s.scopes.depth := by
    rw [State.missing, hmet, Option.elim_some]
  rw [marks_of_mem hmet hc, List.foldlM_cons, hmissing]
  by_cases hle : closings c ≤ s.scopes.depth
  · rw [depth?_of_le hle (hdepth hle), if_pos (Nat.sub_eq_zero_of_le hle)]
    rfl
  · rw [depth?, if_pos (Nat.lt_of_not_le hle), if_neg (by omega)]
    rfl

/-- The open scopes after an act are the count of the delimiter at its head. -/
theorem Act.depth (h : Act s new τ) :
    s.marks.foldlM depth? s.scopes.depth = if s.missing = 0 then some τ.depth else none := by
  cases h with
  | inner hmet _ =>
    rw [marks_of_not_mem fun c hc => (hmet c hc).2, missing_of_not_mem fun c hc => (hmet c hc).2]
    rfl
  | stray hmet _ hscope =>
    have hnot : ∀ d ∈ s.met?, d ∉ scopeMarks := by
      intro d hd
      rw [hmet, Option.mem_some_iff] at hd
      exact hd ▸ hscope
    rw [marks_of_not_mem hnot, missing_of_not_mem hnot]
    rfl
  | array hmet => exact foldlM_marks hmet (by decide) fun _ => rfl
  | row hmet =>
    refine foldlM_marks hmet (by decide) fun hle => ?_
    rw [ScopeStack.depth_push, ScopeStack.depth_pop]
    exact congrArg (· + 1) (Nat.sub_add_cancel hle)
  | endArray hmet =>
    refine foldlM_marks hmet (by decide) fun hle => ?_
    rw [ScopeStack.depth_pop, ScopeStack.depth_pop, Nat.sub_sub]
    exact Nat.sub_add_cancel hle
  | group hmet => exact foldlM_marks hmet (by decide) fun _ => rfl
  | endGroup hmet =>
    refine foldlM_marks hmet (by decide) fun hle => ?_
    rw [ScopeStack.depth_pop]
    exact Nat.sub_add_cancel hle

/-- The open scopes after a run are the count of the delimiters at its heads. -/
theorem depth_heads (s : State) :
    (s.heads.flatMap State.marks).foldlM depth? s.scopes.depth =
      if ∀ t ∈ s.heads, t.missing = 0 then some s.run.scopes.depth else none := by
  induction s using State.run.induct with
  | case1 s hs =>
    rw [State.heads_of_nil hs, State.run_of_nil hs, if_pos (List.forall_mem_nil _)]
    rfl
  | case2 s hs ih =>
    rw [State.heads_of_ne_nil hs, State.run_of_ne_nil hs, List.flatMap_cons, List.foldlM_append,
      (State.stepped hs).act.depth]
    simp only [List.forall_mem_cons]
    by_cases hmissing : s.missing = 0
    · simp only [hmissing, if_true, true_and]
      exact ih
    · simp only [hmissing, if_false, false_and]
      rfl

end Scan

/-- The delimiters of scopes that a formula has outside its literals, in order. -/
def delimiters (formula : String) : List Char := (State.start formula).heads.flatMap State.marks

theorem scopes_finish (s : State) : s.finish.scopes = s.run.scopes := s.run.scopes_flush

/-- The delimiters of a formula are counted off exactly if no scope is missing at a head and none is left
open. -/
theorem countedOff_delimiters (formula : String) :
    CountedOff (delimiters formula) ↔
      (∀ t ∈ (State.start formula).heads, t.missing = 0) ∧
        (State.start formula).finish.scopes.isEmpty = true := by
  have hdepth : (delimiters formula).foldlM depth? 0 =
      if ∀ t ∈ (State.start formula).heads, t.missing = 0 then
        some (State.start formula).run.scopes.depth else none :=
    depth_heads (State.start formula)
  rw [CountedOff, hdepth, ScopeStack.isEmpty_iff_depth, scopes_finish]
  split
  · rename_i h
    rw [Option.some_inj, and_iff_right h]
  · rename_i h
    exact iff_of_false nofun fun h' => h h'.1

theorem underflows_eq_zero_iff (p : ScanPreferences) (formula : String) :
    (parse p formula).metrics.underflows = 0 ↔ ∀ t ∈ (State.start formula).heads, t.missing = 0 := by
  rw [underflows_parse, countP_isUnopened_trace, List.length_eq_zero_iff, List.flatMap_eq_nil_iff]
  simp only [List.replicate_eq_nil_iff]

theorem unknownTokens_eq_zero_iff (p : ScanPreferences) (formula : String) :
    (parse p formula).metrics.unknownTokens = 0 ↔
      ∀ t ∈ (State.start formula).heads, t.stranded = false := by
  have hraw : (parse p formula).raw.filter (·.kind = .unknown) = unknowns (scan formula).tokens := rfl
  rw [unknownTokens_parse, List.countP_eq_length_filter, hraw, unknowns_tokens, List.length_map,
    List.length_eq_zero_iff, List.filter_eq_nil_iff]
  simp only [Bool.not_eq_true]

theorem inError_eq_false_iff (p : ScanPreferences) (formula : String) :
    (parse p formula).inError = false ↔ (State.start formula).finish.mode ≠ .error := by
  show ((State.start formula).finish.mode == .error) = false ↔ _
  rw [beq_eq_false_iff_ne]

theorem mem_scopeMarks_of_mem_delimiters {formula : String} {c : Char} (hc : c ∈ delimiters formula) :
    c ∈ scopeMarks := by
  obtain ⟨t, -, ht⟩ := List.mem_flatMap.1 hc
  simpa using (List.mem_filter.1 ht).2

/-- The delimiters of a formula are parentheses only, or braces and semicolons only. -/
def OneFamily (cs : List Char) : Prop :=
  (∀ c ∈ cs, c = '(' ∨ c = ')') ∨ ∀ c ∈ cs, c ≠ '(' ∧ c ≠ ')'

/-- Delimiters of a formula that are counted off are nested if they are of one family. -/
theorem nested_delimiters {formula : String} (h : CountedOff (delimiters formula))
    (hfamily : OneFamily (delimiters formula)) : Nested (delimiters formula) := by
  rcases hfamily with hround | hcurly
  · exact h.nested (o := '(') (by decide) fun c hc => List.mem_pair.2 (hround c hc)
  · refine h.nested (o := '\x7b') (by decide) fun c hc => ?_
    have hmark := mem_scopeMarks_of_mem_delimiters hc
    simp only [scopeMarks, List.mem_cons, List.not_mem_nil, or_false] at hmark
    rcases hmark with rfl | rfl | rfl | rfl | rfl
    · exact absurd rfl (hcurly _ hc).1
    · exact absurd rfl (hcurly _ hc).2
    · exact List.mem_cons_self
    · exact List.mem_cons_of_mem _ (List.mem_cons_of_mem _ List.mem_cons_self)
    · exact List.mem_cons_of_mem _ List.mem_cons_self

/-- A formula is structurally complete exactly if it does not end inside an error literal, no text is
stranded before a delimiter, and its delimiters are counted off. Those of a complete formula are nested if
they are of one family, and nested delimiters are always counted off. -/
theorem complete_iff_countedOff (p : ScanPreferences) (formula : String) :
    ((parse p formula).check = .ok () ↔
      (State.start formula).finish.mode ≠ .error ∧
        (∀ s ∈ (State.start formula).heads, s.stranded = false) ∧
        CountedOff (delimiters formula)) ∧
    ((parse p formula).check = .ok () → OneFamily (delimiters formula) →
      Nested (delimiters formula)) ∧
    (Nested (delimiters formula) → CountedOff (delimiters formula)) := by
  have hcriterion : (parse p formula).check = .ok () ↔
      (State.start formula).finish.mode ≠ .error ∧
        (∀ s ∈ (State.start formula).heads, s.stranded = false) ∧ CountedOff (delimiters formula) := by
    rw [countedOff_delimiters, ← inError_eq_false_iff p, ← unknownTokens_eq_zero_iff p,
      ← underflows_eq_zero_iff p]
    exact ⟨recorded_of_check_eq_ok p,
      fun ⟨herror, hunknown, hunder, hempty⟩ => check_eq_ok p herror hunknown hunder hempty⟩
  exact ⟨hcriterion, fun hok => nested_delimiters (hcriterion.1 hok).2.2, CountedOff.of_nested⟩

/-- A text literal that is left open and a brace that closes parentheses both pass the structure check. -/
theorem complete_yet_malformed :
    ((parse {} "=\"abc").check = .ok () ∧ (State.start "=\"abc").finish.mode = .text) ∧
      (parse {} "=((1\x7d").check = .ok () ∧ ¬Nested (delimiters "=((1\x7d") := by
  have htext : (parse {} "=\"abc").check = .ok () :=
    check_eq_ok {} (by decide +kernel) (by decide +kernel) (by decide +kernel) (by decide +kernel)
  have hbrace : (parse {} "=((1\x7d").check = .ok () :=
    check_eq_ok {} (by decide +kernel) (by decide +kernel) (by decide +kernel) (by decide +kernel)
  exact ⟨⟨htext, by decide +kernel⟩, hbrace, by decide +kernel⟩

end SheetFormula
