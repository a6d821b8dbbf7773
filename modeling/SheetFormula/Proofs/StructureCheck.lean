import SheetFormula.Proofs.ErrorScan
import SheetFormula.Proofs.ScopeBalance

/-!
# The structure check and the scanner

The structure check sees the final tokens only, and the scanner records its recoveries while it works
on the raw ones. They agree for every formula. Main statements:

* `unknownTokens_ofTrace`, `underflows_ofTrace`: what the two recovery metrics count in a trace;
* `Walk.first_unopened`, `Walk.grounded`: a stop that the scanner puts out on an empty stack is the
  first stop of the raw tokens that closes nothing;
* `scan_inError`: a formula that ends inside an error literal ends with a token of its text;
* `Outcomes.grounded`, `Outcomes.forall_known`: the passes keep what the check looks at;
* `parse_check`: the verdict of the check, and the position of the fault, from what was recorded.
-/

namespace SheetFormula

open Scan

/-! ## What the recovery metrics count -/

/-- A delimiter was about to close a scope, and none was open. -/
def Scan.Entry.isUnopened : Entry → Bool
  | .unopened _ _ => true
  | _ => false

namespace Metrics

variable {p : ScanPreferences}

theorem unknownTokens_record (m : Metrics) (e : Entry) :
    (record p m e).unknownTokens =
      m.unknownTokens + (tokensOf [e]).countP (·.kind = .unknown) := by
  cases e with
  | token _ t => by_cases ht : t.kind = .unknown <;> simp [record, recordToken, ht]
  | opened _ _ t =>
    rw [record]
    split <;> by_cases ht : t.kind = .unknown <;> simp [recordToken, ht]
  | closed t => by_cases ht : t.kind = .unknown <;> simp [record, recordToken, ht]
  | unopened _ _ => rfl
  | stray _ _ _ => rfl

theorem underflows_record (m : Metrics) (e : Entry) :
    (record p m e).underflows = m.underflows + [e].countP Entry.isUnopened := by
  cases e with
  | opened _ _ t =>
    rw [record]
    split <;> rfl
  | _ => rfl

/-- A metric that each entry adds to is a sum over the entries. -/
theorem ofTrace_eq_of_record {f : Metrics → Nat} {g : List Entry → Nat} (hzero : f {} = 0)
    (hg : ∀ es es', g (es ++ es') = g es + g es') (hrecord : ∀ m e, f (record p m e) = f m + g [e])
    (es : List Entry) : f (ofTrace p es) = g es := by
  have hnil : g [] = 0 := by
    have h := hg [] []
    rw [List.append_nil] at h
    omega
  have hfold : ∀ m : Metrics, f (es.foldl (record p) m) = f m + g es := by
    induction es with
    | nil =>
      intro m
      rw [List.foldl_nil, hnil, Nat.add_zero]
    | cons e es ih =>
      intro m
      rw [List.foldl_cons, ih, hrecord, Nat.add_assoc, ← hg, List.singleton_append]
  rw [ofTrace, hfold, hzero, Nat.zero_add]

/-- The metric of unknown tokens counts the unknown tokens of the trace. -/
theorem unknownTokens_ofTrace (p : ScanPreferences) (es : List Entry) :
    (ofTrace p es).unknownTokens = (tokensOf es).countP (·.kind = .unknown) := by
  have hadd : ∀ es es' : List Entry, (tokensOf (es ++ es')).countP (·.kind = .unknown) =
      (tokensOf es).countP (·.kind = .unknown) + (tokensOf es').countP (·.kind = .unknown) := by
    intro es es'
    rw [tokensOf_append, List.countP_append]
  exact ofTrace_eq_of_record (f := unknownTokens)
    (g := fun es => (tokensOf es).countP (·.kind = .unknown)) rfl hadd unknownTokens_record es

/-- The metric of underflows counts the delimiters that had no scope to close. -/
theorem underflows_ofTrace (p : ScanPreferences) (es : List Entry) :
    (ofTrace p es).underflows = es.countP Entry.isUnopened :=
  ofTrace_eq_of_record (f := underflows) (g := List.countP Entry.isUnopened) rfl
    (fun _ _ => List.countP_append) underflows_record es

end Metrics

namespace Scan

/-! ## The first stop on an empty stack -/

variable {es new : List Entry} {σ τ : ScopeStack}

/-- A move closes a scope where none is open with its first entry, or never. -/
theorem Move.unopened (h : Move σ new τ) :
    (∀ e ∈ new, e.isUnopened = false) ∨ σ.isEmpty = true ∧ ∃ offset delimiter after,
      new = .unopened offset delimiter :: .closed σ.closing :: after := by
  cases h with
  | token _ _ => exact .inl (by simp [Entry.isUnopened])
  | comma _ => exact .inl (by simp [Entry.isUnopened])
  | stray _ _ _ => exact .inl (by simp [Entry.isUnopened])
  | opened _ _ _ => exact .inl (by simp [Entry.isUnopened])
  | closed offset delimiter =>
    cases hσ : σ.isEmpty with
    | true => exact .inr ⟨rfl, offset, delimiter, [], by rw [closingEntries, if_pos hσ]⟩
    | false => exact .inl (by simp [closingEntries, hσ, Entry.isUnopened])
  | row offset delimiter =>
    cases hσ : σ.isEmpty with
    | true => exact .inr ⟨rfl, offset, delimiter, _, by rw [closingEntries, if_pos hσ]; rfl⟩
    | false => exact .inl (by simp [closingEntries, hσ, Entry.isUnopened])

/-- The first time that a walk closes a scope where none is open. -/
theorem Walk.first_unopened (h : Walk es σ) :
    (∀ e ∈ es, e.isUnopened = false) ∨ ∃ before ρ offset delimiter after,
      Walk before ρ ∧ ρ.isEmpty = true ∧ (∀ e ∈ before, e.isUnopened = false) ∧
        es = before ++ .unopened offset delimiter :: .closed ρ.closing :: after := by
  induction h with
  | nil => exact .inl fun _ he => nomatch he
  | @snoc es new σ τ hwalk hmove ih =>
    rcases ih with hnone | ⟨before, ρ, offset, delimiter, after, hbefore, hempty, hfirst, rfl⟩
    · rcases hmove.unopened with hnew | ⟨hempty, offset, delimiter, after, rfl⟩
      · exact .inl fun e he => (List.mem_append.1 he).elim (hnone e) (hnew e)
      · exact .inr ⟨es, σ, offset, delimiter, after, hwalk, hempty, hnone, rfl⟩
    · refine .inr ⟨before, ρ, offset, delimiter, after ++ new, hbefore, hempty, hfirst, ?_⟩
      rw [List.append_assoc, List.cons_append, List.cons_append]

theorem grounded_of_inner {t : Token} (h : t.isStop = false) : Grounded σ [t] :=
  ⟨fun hstop => Bool.noConfusion (h.symm.trans hstop), trivial⟩

theorem Move.grounded (h : Move σ new τ) (hnew : ∀ e ∈ new, e.isUnopened = false) :
    Grounded σ (tokensOf new) := by
  have hclosing : ∀ {offset delimiter},
      (∀ e ∈ closingEntries σ offset delimiter, e.isUnopened = false) → σ.isEmpty = false := by
    intro offset delimiter h
    cases hσ : σ.isEmpty with
    | false => rfl
    | true =>
      rw [closingEntries, if_pos hσ] at h
      exact nomatch h _ List.mem_cons_self
  cases h with
  | token _ hsimple =>
    have hend := isScopeEnd_of_isSimple hsimple
    rw [Token.isScopeEnd, Bool.or_eq_false_iff] at hend
    exact grounded_of_inner hend.2
  | comma _ => rcases commaToken_cases σ with h | h <;> exact grounded_of_inner (by rw [h]; rfl)
  | stray _ _ _ => trivial
  | opened _ _ _ => exact grounded_of_inner (by simp [Token.isStop])
  | closed _ _ =>
    rw [tokensOf_closingEntries]
    exact ⟨fun _ => hclosing hnew, trivial⟩
  | row _ _ =>
    rw [tokensOf_append, tokensOf_closingEntries]
    refine ⟨fun _ => hclosing fun e he => hnew e (List.mem_append_left _ he), ?_⟩
    exact (grounded_of_inner rfl).append (grounded_of_inner rfl)

/-- A walk that never closes a scope where none is open puts out grounded tokens. -/
theorem Walk.grounded (h : Walk es σ) (hes : ∀ e ∈ es, e.isUnopened = false) :
    Grounded {} (tokensOf es) := by
  induction h with
  | nil => trivial
  | snoc hwalk hmove ih =>
    rw [List.forall_mem_append] at hes
    rw [tokensOf_append]
    refine (ih hes.1).append ?_
    rw [hwalk.replay_eq]
    exact hmove.grounded hes.2

/-! ## The end inside an error literal -/

/-- A formula that ends inside an error literal has the text of the literal as its last token. -/
theorem scan_inError {formula : String} (h : (scan formula).inError = true) :
    ∃ ts value, (scan formula).tokens = ts ++ [⟨value, .operand, .plain⟩] := by
  obtain ⟨s, -, hmet, -, hrun⟩ := State.run_of_error (mode_of_inError h)
  have htokens : (scan formula).tokens = (State.start formula).run.flush.tokens := rfl
  rw [htokens, hrun, State.tokens_flush_reading hmet]
  exact ⟨_, _, rfl⟩

end Scan

/-! ## What the passes keep for the check -/

namespace ScopeStack

theorem depth_of_kinds {s r : ScopeStack} (h : s.kinds = r.kinds) : s.depth = r.depth := by
  rw [depth_eq_length_kinds, h, ← depth_eq_length_kinds]

theorem closing_of_isEmpty {s : ScopeStack} (h : s.isEmpty = true) :
    s.closing = ⟨"", .function, .stop⟩ := by
  rw [isEmpty, List.isEmpty_iff] at h
  rw [closing, topKind?, top?, h]
  rfl

theorem isEmpty_of_kinds {s r : ScopeStack} (h : s.kinds = r.kinds) : s.isEmpty = r.isEmpty := by
  rw [Bool.eq_iff_iff, isEmpty_iff_depth, isEmpty_iff_depth, depth_of_kinds h]

end ScopeStack

namespace Stream

variable {σ : ScopeStack} {t : Token} {ts us : List Token} {os : List (Option Token)}

theorem Outcomes.grounded (hos : Outcomes ts os) (h : Grounded σ ts) {τ : ScopeStack}
    (hkinds : τ.kinds = σ.kinds) : Grounded τ (os.filterMap id) := by
  induction hos generalizing σ τ with
  | nil => trivial
  | @cons t o ts os ho hos ih =>
    obtain ⟨follows, meets, ho⟩ := ho
    rw [filterMap_id_cons]
    cases o with
    | none => exact ih h.2 (by rw [feed_of_outcome_eq_none ho, hkinds])
    | some u =>
      have hk : Keeps t u := outcome_keeps ho
      refine ⟨fun hstop => ?_, ih h.2 (hk.kinds_feed hkinds)⟩
      rw [ScopeStack.isEmpty_of_kinds hkinds]
      exact h.1 (hk.isStop.symm.trans hstop)

/-- The passes neither drop nor make unknown tokens. -/
theorem Outcomes.forall_known (hos : Outcomes ts os) :
    (∀ u ∈ os.filterMap id, u.kind ≠ .unknown) ↔ ∀ t ∈ ts, t.kind ≠ .unknown := by
  induction hos with
  | nil => exact Iff.rfl
  | @cons t o ts os ho hos ih =>
    obtain ⟨follows, meets, ho⟩ := ho
    rw [filterMap_id_cons, List.forall_mem_cons, ← ih]
    cases o with
    | none =>
      have ht : t.kind ≠ .unknown := by
        intro ht
        rw [outcome, ht] at ho
        cases ho
      exact ⟨fun h => ⟨ht, h⟩, fun h => h.2⟩
    | some u =>
      have hk : Keeps t u := outcome_keeps ho
      have hkind : u.kind = .unknown ↔ t.kind = .unknown :=
        ⟨fun hu => hk.unknown (.inr hu) ▸ hu, fun ht => (hk.unknown (.inl ht)).symm ▸ ht⟩
      rw [Option.toList_some, List.singleton_append, List.forall_mem_cons, Ne, hkind]

/-- The outcomes of some tokens, before and from one of them. -/
theorem Outcomes.split (hos : Outcomes (ts ++ t :: us) os) :
    ∃ o, os.filterMap id = (os.take ts.length).filterMap id ++
        (o.toList ++ (os.drop (ts.length + 1)).filterMap id) ∧
      Outcomes ts (os.take ts.length) ∧ Outcomes us (os.drop (ts.length + 1)) ∧
      ∃ follows meets, outcome follows meets t = o := by
  induction ts generalizing os with
  | nil =>
    cases hos with
    | @cons _ o _ os ho hos => exact ⟨o, filterMap_id_cons o os, .nil, hos, ho⟩
  | cons s ts ih =>
    cases hos with
    | @cons _ o _ os ho hos =>
      obtain ⟨o', hsplit, hbefore, hafter, ho'⟩ := ih hos
      refine ⟨o', ?_, .cons ho hbefore, hafter, ho'⟩
      rw [List.length_cons, List.take_succ_cons, filterMap_id_cons, filterMap_id_cons, hsplit,
        List.append_assoc]
      rfl

end Stream

/-- How many final tokens the passes make of the first `n` items after the cursor, which is the place
of the next one among the final tokens. -/
def TokenList.finalIndex (l : TokenList) (n : Nat) : Nat :=
  (l.outcomes.take n).countP Option.isSome

theorem TokenList.finalIndex_eq (l : TokenList) (n : Nat) :
    l.finalIndex n = ((l.outcomes.take n).filterMap id).length := by
  rw [finalIndex, List.length_filterMap_eq_countP]
  rfl

/-! ## The verdict -/

section Verdict

variable (p : ScanPreferences) {formula : String}

theorem outcomes_raw (formula : String) :
    Stream.Outcomes (parse p formula).raw (TokenList.ofList (parse p formula).raw).outcomes := by
  rw [TokenList.outcomes_eq_outcomesFrom]
  exact Stream.outcomes_outcomesFrom _ _ _

theorem tokens_eq_outcomes (formula : String) :
    (parse p formula).tokens =
      (TokenList.ofList (parse p formula).raw).outcomes.filterMap id := by
  rw [TokenList.outcomes_eq_outcomesFrom]
  exact tokens_parse p formula

theorem unknownTokens_parse (formula : String) :
    (parse p formula).metrics.unknownTokens =
      (parse p formula).raw.countP (·.kind = .unknown) :=
  Metrics.unknownTokens_ofTrace p (scan formula).trace

theorem underflows_parse (formula : String) :
    (parse p formula).metrics.underflows = (scan formula).trace.countP Entry.isUnopened :=
  Metrics.underflows_ofTrace p (scan formula).trace

/-- The passes keep an operand that is the last raw token, and tell what it denotes. -/
theorem getLast?_tokens_of_raw {ts : List Token} {value : String}
    (hraw : (parse p formula).raw = ts ++ [⟨value, .operand, .plain⟩]) :
    (parse p formula).tokens.getLast? = some ⟨value, .operand, Stream.operandSubkind value⟩ := by
  have hos := outcomes_raw p formula
  have htokens := tokens_eq_outcomes p formula
  generalize (TokenList.ofList (parse p formula).raw).outcomes = os at hos htokens
  rw [hraw] at hos
  obtain ⟨o, hsplit, -, hafter, follows, meets, ho⟩ := hos.split
  generalize os.drop (ts.length + 1) = rest at hsplit hafter
  cases hafter
  rw [htokens, hsplit, ← ho]
  exact List.getLast?_concat

/-- A formula that ends inside an error literal is reported with the value of its last token. -/
theorem check_of_inError (h : (parse p formula).inError = true) :
    ∃ t, (parse p formula).tokens.getLast? = some t ∧
      (parse p formula).check = .error (.unterminatedError t.value) := by
  obtain ⟨ts, value, hraw⟩ : ∃ ts value,
      (parse p formula).raw = ts ++ [⟨value, .operand, .plain⟩] := scan_inError h
  have hlast := getLast?_tokens_of_raw p hraw
  refine ⟨_, hlast, ?_⟩
  rw [Parsed.check, checkStructure, if_pos h, hlast]
  rfl

theorem forall_known_parse (formula : String) :
    (∀ t ∈ (parse p formula).tokens, t.kind ≠ .unknown) ↔
      (parse p formula).metrics.unknownTokens = 0 := by
  rw [tokens_eq_outcomes, (outcomes_raw p formula).forall_known, unknownTokens_parse,
    List.countP_eq_zero]
  simp

/-- The first unknown token is reported, with its place. -/
theorem check_of_unknown (h : (parse p formula).inError = false)
    (hunknown : 0 < (parse p formula).metrics.unknownTokens) :
    ∃ before t after, (parse p formula).tokens = before ++ t :: after ∧ t.kind = .unknown ∧
      (∀ u ∈ before, u.kind ≠ .unknown) ∧
      (parse p formula).check = .error (.unknownToken t.value before.length) := by
  obtain ⟨t, ht⟩ : ∃ t, (parse p formula).tokens.find? (·.kind = .unknown) = some t := by
    cases hfind : (parse p formula).tokens.find? (·.kind = .unknown) with
    | some t => exact ⟨t, rfl⟩
    | none =>
      have hknown := (forall_known_parse p formula).1 (by simpa using List.find?_eq_none.1 hfind)
      exact absurd hknown (Nat.ne_of_gt hunknown)
  obtain ⟨hkind, before, after, hsplit, hbefore⟩ := List.find?_eq_some_iff_append.1 ht
  have hkind : t.kind = .unknown := by simpa using hkind
  have hbefore : ∀ u ∈ before, u.kind ≠ .unknown := by simpa using hbefore
  refine ⟨before, t, after, hsplit, hkind, hbefore, ?_⟩
  rw [Parsed.check, checkStructure, h, if_neg (by decide), hsplit,
    findUnknown?_append hbefore hkind, Nat.zero_add]

/-- Otherwise only the scopes are left to check. -/
theorem check_of_known (h : (parse p formula).inError = false)
    (hunknown : (parse p formula).metrics.unknownTokens = 0) :
    (parse p formula).check = checkScopes 0 0 0 (parse p formula).tokens := by
  have hnone : findUnknown? 0 (parse p formula).tokens = none :=
    findUnknown?_eq_none_iff.2 ((forall_known_parse p formula).2 hunknown)
  rw [Parsed.check, checkStructure, h, if_neg (by decide), hnone]

/-- A replay of the final tokens leaves the scopes open that the scanner holds open at the end. -/
theorem kinds_replay_parse (formula : String) :
    (({} : ScopeStack).replay (parse p formula).tokens).kinds =
      (State.start formula).finish.scopes.kinds := by
  rw [tokens_eq_outcomes, (outcomes_raw p formula).kinds_replay rfl]
  exact congrArg ScopeStack.kinds (walk_scan formula).replay_eq

theorem grounded_parse (hunder : (parse p formula).metrics.underflows = 0) :
    Grounded {} (parse p formula).tokens := by
  rw [underflows_parse, List.countP_eq_zero] at hunder
  have hraw : Grounded {} (parse p formula).raw :=
    (walk_scan formula).grounded (by simpa using hunder)
  rw [tokens_eq_outcomes]
  exact (outcomes_raw p formula).grounded hraw rfl

/-- If nothing was recorded and no scope is left open, then nothing is reported. -/
theorem check_eq_ok (h : (parse p formula).inError = false)
    (hunknown : (parse p formula).metrics.unknownTokens = 0)
    (hunder : (parse p formula).metrics.underflows = 0)
    (hempty : (State.start formula).finish.scopes.isEmpty = true) :
    (parse p formula).check = .ok () := by
  rw [check_of_known p h hunknown]
  refine (checkScopes_of_grounded (grounded_parse p hunder)).1 ?_
  rw [ScopeStack.isEmpty_of_kinds (kinds_replay_parse p formula), hempty]

/-- If only scopes are left open, then their number is reported as that of the missing stops. -/
theorem check_of_open (h : (parse p formula).inError = false)
    (hunknown : (parse p formula).metrics.unknownTokens = 0)
    (hunder : (parse p formula).metrics.underflows = 0)
    (hopen : (State.start formula).finish.scopes.isEmpty = false) :
    ∃ opened closed, (parse p formula).check = .error (.unbalancedScope opened closed) ∧
      closed < opened ∧ opened - closed = (State.start formula).finish.scopes.depth := by
  have hkinds := kinds_replay_parse p formula
  rw [check_of_known p h hunknown, ← ScopeStack.depth_of_kinds hkinds]
  refine (checkScopes_of_grounded (grounded_parse p hunder)).2 ?_
  rw [ScopeStack.isEmpty_of_kinds hkinds, hopen]

/-- The first stop that the scanner put out on an empty stack is reported with its place among the final
tokens, where it stands unchanged. -/
theorem check_of_underflow (h : (parse p formula).inError = false)
    (hunknown : (parse p formula).metrics.unknownTokens = 0)
    (hunder : 0 < (parse p formula).metrics.underflows) :
    ∃ before offset delimiter stop after,
      (scan formula).trace = before ++ .unopened offset delimiter :: .closed stop :: after ∧
      (∀ e ∈ before, e.isUnopened = false) ∧
      let place := (TokenList.ofList (parse p formula).raw).finalIndex (tokensOf before).length
      (parse p formula).tokens[place]? = some stop ∧
        (parse p formula).check = .error (.unexpectedStop place) := by
  obtain hnone | ⟨before, ρ, offset, delimiter, after, hbefore, hempty, hfirst, htrace⟩ :=
    (walk_scan formula).first_unopened
  · rw [underflows_parse, List.countP_pos_iff] at hunder
    obtain ⟨e, he, hunopened⟩ := hunder
    exact Bool.noConfusion ((hnone e he).symm.trans hunopened)
  refine ⟨before, offset, delimiter, ρ.closing, after, htrace, hfirst, ?_⟩
  intro place
  have hraw : (parse p formula).raw = tokensOf before ++ ρ.closing :: tokensOf after := by
    show tokensOf (scan formula).trace = _
    rw [htrace, tokensOf_append, tokensOf_unopened, tokensOf_closed]
  have hplace : place = _ := TokenList.finalIndex_eq _ _
  have hos := outcomes_raw p formula
  have htokens := tokens_eq_outcomes p formula
  generalize (TokenList.ofList (parse p formula).raw).outcomes = os at hos htokens hplace
  rw [hraw] at hos
  obtain ⟨o, hsplit, hos, -, follows, meets, ho⟩ := hos.split
  have hclosing : ρ.closing = ⟨"", .function, .stop⟩ := ScopeStack.closing_of_isEmpty hempty
  have hkept : o = some ρ.closing := by
    rw [← ho, hclosing]
    rfl
  have hgrounded := hos.grounded (hbefore.grounded hfirst) rfl
  have hclosed := hos.kinds_replay (σ := {}) rfl
  rw [hbefore.replay_eq] at hclosed
  rw [check_of_known p h hunknown, htokens, hsplit, hkept, hplace]
  refine ⟨?_, checkScopes_of_stop hgrounded ?_ (by rw [hclosing]; rfl) _⟩
  · rw [List.getElem?_append_right (Nat.le_refl _), Nat.sub_self]
    rfl
  · rw [ScopeStack.isEmpty_of_kinds hclosed, hempty]

/-- If nothing is reported, then nothing was recorded and no scope is left open. -/
theorem recorded_of_check_eq_ok (hok : (parse p formula).check = .ok ()) :
    (parse p formula).inError = false ∧ (parse p formula).metrics.unknownTokens = 0 ∧
      (parse p formula).metrics.underflows = 0 ∧
      (State.start formula).finish.scopes.isEmpty = true := by
  have hnot : ∀ e, (parse p formula).check ≠ .error e := fun e he => nomatch hok.symm.trans he
  have herror : (parse p formula).inError = false := by
    cases h : (parse p formula).inError with
    | false => rfl
    | true =>
      obtain ⟨t, -, hcheck⟩ := check_of_inError p h
      exact absurd hcheck (hnot _)
  have hunknown : (parse p formula).metrics.unknownTokens = 0 := by
    refine (Nat.eq_zero_or_pos _).resolve_right fun h => ?_
    obtain ⟨_, _, _, -, -, -, hcheck⟩ := check_of_unknown p herror h
    exact hnot _ hcheck
  have hunder : (parse p formula).metrics.underflows = 0 := by
    refine (Nat.eq_zero_or_pos _).resolve_right fun h => ?_
    obtain ⟨_, _, _, _, _, -, -, -, hcheck⟩ := check_of_underflow p herror hunknown h
    exact hnot _ hcheck
  have hempty : (State.start formula).finish.scopes.isEmpty = true := by
    cases h : (State.start formula).finish.scopes.isEmpty with
    | true => rfl
    | false =>
      obtain ⟨_, _, hcheck, -⟩ := check_of_open p herror hunknown hunder h
      exact absurd hcheck (hnot _)
  exact ⟨herror, hunknown, hunder, hempty⟩

/-- A formula passes the check exactly if the scanner recorded no fault and leaves no scope open, and
then each start of its final stream matches exactly one stop. Otherwise the fault is, in this order, an
unterminated error literal, the first unknown token, the first stop that the scanner put out on an empty
stack, or the number of scopes that the scanner leaves open. -/
theorem parse_check (formula : String) :
    let r := parse p formula
    let left := (State.start formula).finish.scopes
    (r.check = .ok () ↔ r.inError = false ∧ r.metrics.unknownTokens = 0 ∧
        r.metrics.underflows = 0 ∧ left.isEmpty = true) ∧
    (r.check = .ok () → ∀ i t, r.tokens[i]? = some t → t.isStart = true →
        ∃ j, Matches r.tokens i j ∧ ∀ k, Matches r.tokens i k → k = j) ∧
    (r.inError = true →
      ∃ t, r.tokens.getLast? = some t ∧ r.check = .error (.unterminatedError t.value)) ∧
    (r.inError = false → 0 < r.metrics.unknownTokens →
      ∃ before t after, r.tokens = before ++ t :: after ∧ t.kind = .unknown ∧
        (∀ u ∈ before, u.kind ≠ .unknown) ∧
        r.check = .error (.unknownToken t.value before.length)) ∧
    (r.inError = false → r.metrics.unknownTokens = 0 → 0 < r.metrics.underflows →
      ∃ before offset delimiter stop after,
        (scan formula).trace = before ++ .unopened offset delimiter :: .closed stop :: after ∧
        (∀ e ∈ before, e.isUnopened = false) ∧
        let place := (TokenList.ofList r.raw).finalIndex (tokensOf before).length
        r.tokens[place]? = some stop ∧ r.check = .error (.unexpectedStop place)) ∧
    (r.inError = false → r.metrics.unknownTokens = 0 → r.metrics.underflows = 0 →
      left.isEmpty = false →
      ∃ opened closed, r.check = .error (.unbalancedScope opened closed) ∧ closed < opened ∧
        opened - closed = left.depth) := by
  intro r left
  refine ⟨⟨recorded_of_check_eq_ok p,
      fun ⟨h, hunknown, hunder, hempty⟩ => check_eq_ok p h hunknown hunder hempty⟩,
    fun hok i t hi ht => ?_, check_of_inError p, check_of_unknown p, check_of_underflow p,
    check_of_open p⟩
  have hempty : (({} : ScopeStack).replay r.tokens).isEmpty = true := by
    rw [ScopeStack.isEmpty_of_kinds (kinds_replay_parse p formula)]
    exact (recorded_of_check_eq_ok p hok).2.2.2
  obtain ⟨j, hj⟩ := exists_matches (disciplined_parse p formula) hempty hi ht
  exact ⟨j, hj, fun k hk => hk.unique hj⟩

end Verdict

end SheetFormula
