import Mathlib.Data.List.Induction
import SheetFormula.Proofs.Histogram
import SheetFormula.Proofs.StructureCheck
import SheetFormula.Proofs.Vocabulary

/-!
# The metrics as a ledger of the tokens

What the metrics of a formula say can be read off its two token streams, raw and final, without the
trace of the scan and without the passes: how many tokens there are, what became of the spaces and of
the plus signs, and what a replay of the raw tokens meets (`Ledger`). Main statements:

* `Walk.unmatchedStops`, `Walk.deepest`: a scan records each stop that a replay of its tokens finds
  nothing open for, and the depths that the replay reaches;
* `tallies_ofTrace`: the counts by kind and by operator are histograms of the tokens of a trace;
* `accounts_outcome`: what the passes make of a raw token accounts for it;
* `parse_ledger`: so the metrics of every formula are a ledger of its raw and its final tokens.
-/

namespace SheetFormula

open Scan

/-! ## What a replay meets -/

namespace ScopeStack

/-- How many stops meet an empty stack when some tokens are replayed. -/
def unmatchedStops (s : ScopeStack) : List Token → Nat
  | [] => 0
  | t :: ts => (if t.isStop && s.isEmpty then 1 else 0) + (s.feed t).unmatchedStops ts

/-- The most scopes that are open at once when some tokens are replayed. -/
def deepest (s : ScopeStack) : List Token → Nat
  | [] => s.depth
  | t :: ts => max s.depth ((s.feed t).deepest ts)

variable (s : ScopeStack) (ts us : List Token)

theorem unmatchedStops_append :
    s.unmatchedStops (ts ++ us) = s.unmatchedStops ts + (s.replay ts).unmatchedStops us := by
  induction ts generalizing s with
  | nil => exact (Nat.zero_add _).symm
  | cons t ts ih =>
    rw [List.cons_append, unmatchedStops, unmatchedStops, ih, replay_cons, Nat.add_assoc]

theorem depth_le_deepest : s.depth ≤ s.deepest ts := by
  cases ts with
  | nil => exact Nat.le_refl _
  | cons t ts => exact Nat.le_max_left _ _

theorem deepest_append :
    s.deepest (ts ++ us) = max (s.deepest ts) ((s.replay ts).deepest us) := by
  induction ts generalizing s with
  | nil => exact (Nat.max_eq_right (s.depth_le_deepest us)).symm
  | cons t ts ih => rw [List.cons_append, deepest, deepest, ih, replay_cons, Nat.max_assoc]

theorem depth_replay_le_deepest : (s.replay ts).depth ≤ s.deepest ts := by
  induction ts generalizing s with
  | nil => exact Nat.le_refl _
  | cons t ts ih => exact Nat.le_trans (ih (s.feed t)) (Nat.le_max_right _ _)

/-- A token that closes no scope meets nothing when it is replayed. -/
theorem unmatchedStops_singleton_of_inner {t : Token} (h : t.isStop = false) :
    s.unmatchedStops [t] = 0 := by
  simp [unmatchedStops, h]

theorem deepest_singleton (t : Token) : s.deepest [t] = max s.depth (s.feed t).depth := rfl

end ScopeStack

/-! ## What the trace records of a replay -/

namespace Scan

/-- The depth that an entry records. -/
def Entry.depth : Entry → Nat
  | .opened _ depth _ => depth
  | _ => 0

/-- The greatest depth that a trace records. -/
def maxDepth (es : List Entry) : Nat := (es.map Entry.depth).foldr max 0

variable {es new : List Entry} {σ τ : ScopeStack}

theorem maxDepth_append (es es' : List Entry) :
    maxDepth (es ++ es') = max (maxDepth es) (maxDepth es') := by
  induction es with
  | nil => exact (Nat.zero_max _).symm
  | cons e es ih =>
    rw [maxDepth, List.cons_append, List.map_cons, List.foldr_cons, ← maxDepth, ih,
      ← Nat.max_assoc]
    rfl

theorem unmatchedStops_closing (hσ : Started σ) (offset : Nat) (delimiter : Char) :
    σ.unmatchedStops [σ.closing] = (closingEntries σ offset delimiter).countP Entry.isUnopened := by
  rw [ScopeStack.unmatchedStops, hσ.isStop_closing, Bool.true_and, closingEntries]
  split <;> rfl

theorem isStop_commaToken (σ : ScopeStack) : (commaToken σ).isStop = false := by
  rcases commaToken_cases σ with h | h <;> rw [h] <;> rfl

/-- A move records each of its stops that a replay finds nothing open for. -/
theorem Move.unmatchedStops (h : Move σ new τ) (hσ : Started σ) :
    σ.unmatchedStops (tokensOf new) = new.countP Entry.isUnopened := by
  cases h with
  | token _ hsimple =>
    have hend := isScopeEnd_of_isSimple hsimple
    rw [Token.isScopeEnd, Bool.or_eq_false_iff] at hend
    exact σ.unmatchedStops_singleton_of_inner hend.2
  | comma _ => exact σ.unmatchedStops_singleton_of_inner (isStop_commaToken σ)
  | stray _ _ _ => rfl
  | opened _ _ _ => exact σ.unmatchedStops_singleton_of_inner (by simp [Token.isStop])
  | closed offset delimiter =>
    rw [tokensOf_closingEntries]
    exact unmatchedStops_closing hσ offset delimiter
  | row offset delimiter =>
    rw [tokensOf_append, tokensOf_closingEntries, ScopeStack.unmatchedStops_append,
      List.countP_append, unmatchedStops_closing hσ offset delimiter]
    rfl

/-- A walk records each stop that a replay of its tokens finds nothing open for. -/
theorem Walk.unmatchedStops (h : Walk es σ) :
    ({} : ScopeStack).unmatchedStops (tokensOf es) = es.countP Entry.isUnopened := by
  induction h with
  | nil => rfl
  | snoc hwalk hmove ih =>
    rw [tokensOf_append, ScopeStack.unmatchedStops_append, ih, hwalk.replay_eq,
      hmove.unmatchedStops hwalk.started, List.countP_append]

theorem maxDepth_closingEntries (σ : ScopeStack) (offset : Nat) (delimiter : Char) :
    maxDepth (closingEntries σ offset delimiter) = 0 := by
  unfold closingEntries
  split <;> rfl

/-- A move records the depths that a replay of its tokens reaches, beyond the one where it begins. -/
theorem Move.deepest (h : Move σ new τ) (hσ : Started σ) :
    σ.deepest (tokensOf new) = max σ.depth (maxDepth new) := by
  cases h with
  | token _ hsimple =>
    rw [tokensOf_token, tokensOf_nil, ScopeStack.deepest_singleton, feed_of_isSimple hsimple, Nat.max_self]
    exact (Nat.max_zero _).symm
  | comma _ =>
    rw [tokensOf_token, tokensOf_nil, ScopeStack.deepest_singleton, feed_commaToken, Nat.max_self]
    exact (Nat.max_zero _).symm
  | stray _ _ _ => exact (Nat.max_zero _).symm
  | opened _ value hk =>
    rw [tokensOf_opened, tokensOf_nil, ScopeStack.deepest_singleton,
      ScopeStack.feed_of_isStart (isStart_of_isScope hk value)]
    rfl
  | closed offset delimiter =>
    rw [tokensOf_closingEntries, ScopeStack.deepest_singleton, ScopeStack.feed_of_isStop hσ.isStop_closing,
      ScopeStack.depth_pop, maxDepth_closingEntries]
    omega
  | row offset delimiter =>
    rw [tokensOf_append, tokensOf_closingEntries, ScopeStack.deepest_append, maxDepth_append,
      maxDepth_closingEntries, ScopeStack.deepest_singleton, ScopeStack.replay_cons, ScopeStack.replay_nil,
      ScopeStack.feed_of_isStop hσ.isStop_closing]
    -- one row is closed before the next is opened: the depth goes down by one, if it can, and up by one
    show max (max σ.depth σ.pop.depth) (max σ.pop.depth (max σ.pop.depth (σ.pop.depth + 1))) =
      max σ.depth (max 0 (max 0 (max (σ.pop.depth + 1) 0)))
    rw [ScopeStack.depth_pop]
    omega

/-- A walk records the depths that a replay of its tokens reaches. -/
theorem Walk.deepest (h : Walk es σ) : ({} : ScopeStack).deepest (tokensOf es) = maxDepth es := by
  induction h with
  | nil => rfl
  | @snoc es new σ τ hwalk hmove ih =>
    have hle : σ.depth ≤ maxDepth es := by
      rw [← ih, ← hwalk.replay_eq]
      exact ScopeStack.depth_replay_le_deepest _ _
    rw [tokensOf_append, ScopeStack.deepest_append, ih, hwalk.replay_eq,
      hmove.deepest hwalk.started, maxDepth_append, ← Nat.max_assoc, Nat.max_eq_left hle]

end Scan

/-! ## What the metrics say of the trace -/

/-- The names that are counted by kind, if that is asked for. -/
def ScanPreferences.countedKinds (p : ScanPreferences) (ts : List Token) : List String :=
  if p.detailedMetrics then ts.map (·.kind.name) else []

/-- The operators whose uses are counted, if that is asked for. -/
def ScanPreferences.countedOperators (p : ScanPreferences) (ts : List Token) : List String :=
  if p.detailedMetrics && p.operatorUsage then (ts.filter (·.kind.isOperator)).map Token.value
  else []

namespace Metrics

variable {p : ScanPreferences} {m : Metrics}

/-- What every entry keeps of a trace and its metrics holds of all traces. -/
theorem ofTrace_induction {P : List Entry → Metrics → Prop} (hnil : P [] {})
    (hrecord : ∀ es m e, P es m → P (es ++ [e]) (record p m e)) (es : List Entry) :
    P es (ofTrace p es) := by
  induction es using List.reverseRecOn with
  | nil => exact hnil
  | append_singleton es e ih =>
    rw [ofTrace, List.foldl_append]
    exact hrecord es _ e ih

/-- What the metrics say of the tokens that were counted. -/
structure Tallies (p : ScanPreferences) (ts : List Token) (m : Metrics) : Prop where
  rawTokens : m.rawTokens = ts.length
  kindCounts : m.kindCounts.Counts (p.countedKinds ts)
  operatorUsage : m.operatorUsage.Counts (p.countedOperators ts)
  /-- The metrics of the passes wait for the passes. -/
  passes : m.whitespaceDropped = 0 ∧ m.intersectionsCreated = 0 ∧ m.noopsRemoved = 0

theorem Tallies.recordToken {ts : List Token} (h : Tallies p ts m) (t : Token) :
    Tallies p (ts ++ [t]) (m.recordToken p t) where
  rawTokens := by
    rw [Metrics.recordToken, h.rawTokens, List.length_append, List.length_singleton]
  kindCounts := by
    have hkinds := h.kindCounts
    unfold ScanPreferences.countedKinds at hkinds ⊢
    cases hd : p.detailedMetrics with
    | true =>
      rw [hd] at hkinds
      simpa [Metrics.recordToken, hd] using hkinds.increment t.kind.name
    | false =>
      rw [hd] at hkinds
      simpa [Metrics.recordToken, hd] using hkinds
  operatorUsage := by
    have hoperators := h.operatorUsage
    unfold ScanPreferences.countedOperators at hoperators ⊢
    cases hd : p.detailedMetrics && p.operatorUsage with
    | true =>
      rw [hd] at hoperators
      cases ht : t.kind.isOperator with
      | true => simpa [Metrics.recordToken, hd, ht] using hoperators.increment t.value
      | false => simpa [Metrics.recordToken, hd, ht] using hoperators
    | false =>
      rw [hd] at hoperators
      simpa [Metrics.recordToken, hd] using hoperators
  passes := h.passes

theorem Tallies.record {es : List Entry} (h : Tallies p (tokensOf es) m) (e : Entry) :
    Tallies p (tokensOf (es ++ [e])) (record p m e) := by
  rw [tokensOf_append]
  cases e with
  | token _ t => exact h.recordToken t
  | opened _ _ t =>
    have ht := h.recordToken t
    rw [Metrics.record]
    split
    · exact ⟨ht.rawTokens, ht.kindCounts, ht.operatorUsage, ht.passes⟩
    · exact ht
  | closed t => exact h.recordToken t
  | unopened _ _ =>
    rw [tokensOf_unopened, tokensOf_nil, List.append_nil]
    exact ⟨h.rawTokens, h.kindCounts, h.operatorUsage, h.passes⟩
  | stray _ _ _ =>
    rw [tokensOf_stray, tokensOf_nil, List.append_nil]
    exact h

/-- The metrics of a trace say of its tokens what they have to. -/
theorem tallies_ofTrace (p : ScanPreferences) (es : List Entry) :
    Tallies p (tokensOf es) (ofTrace p es) := by
  refine ofTrace_induction (P := fun es m => Tallies p (tokensOf es) m) ?_ (fun _ _ e h => h.record e)
    es
  have hkinds : p.countedKinds [] = [] := by simp [ScanPreferences.countedKinds]
  have hoperators : p.countedOperators [] = [] := by simp [ScanPreferences.countedOperators]
  exact ⟨rfl, hkinds ▸ SortedMap.counts_empty, hoperators ▸ SortedMap.counts_empty, rfl, rfl, rfl⟩

theorem maxScopeDepth_record (m : Metrics) (e : Entry) :
    (record p m e).maxScopeDepth =
      if p.detailedMetrics then max m.maxScopeDepth e.depth else m.maxScopeDepth := by
  cases e with
  | opened _ depth t =>
    rw [Metrics.record]
    split <;> rfl
  | _ => simp [Metrics.record, Metrics.recordToken, Entry.depth]

/-- The greatest depth of a trace, if it is asked for. -/
theorem maxScopeDepth_ofTrace (p : ScanPreferences) (es : List Entry) :
    (ofTrace p es).maxScopeDepth = if p.detailedMetrics then maxDepth es else 0 := by
  refine ofTrace_induction
    (P := fun es m => m.maxScopeDepth = if p.detailedMetrics then maxDepth es else 0)
    (by simp [maxDepth]) (fun es m e h => ?_) es
  have hlast : maxDepth [e] = e.depth := Nat.max_zero _
  rw [maxScopeDepth_record, h, maxDepth_append, hlast]
  split <;> rfl

end Metrics

/-! ## What becomes of the tokens -/

/-- The token is the operator made of spaces between two operands. -/
def Token.isIntersection (t : Token) : Bool := t.kind == .infixOp && t.subkind == .intersection

/-- A sum of counts, one element at a time. -/
theorem countP_eq_add_of_forall {α : Type} {p q r : α → Bool} {l : List α}
    (h : ∀ a ∈ l, (p a).toNat = (q a).toNat + (r a).toNat) :
    l.countP p = l.countP q + l.countP r := by
  induction l with
  | nil => rfl
  | cons a l ih =>
    have ha := h a List.mem_cons_self
    have hl := ih fun b hb => h b (List.mem_cons_of_mem _ hb)
    rw [List.countP_cons, List.countP_cons, List.countP_cons, hl]
    cases hp : p a <;> cases hq : q a <;> cases hr : r a <;> simp [hp, hq, hr] at ha ⊢ <;> omega

namespace Stream

variable {ts : List Token} {os : List (Option Token)}

/-- What is made of a token accounts for it: spaces are dropped or made into an intersection, a plus
sign is kept or dropped, and an unknown token is kept. -/
structure Accounts (t : Token) (made : Option Token) : Prop where
  intersection : made.any Token.isIntersection = (decide (t.kind = .whitespace) && made.isSome)
  plus : (t.isInfix "+").toNat =
    (made.any (·.isInfix "+")).toNat + (decide (t.kind ≠ .whitespace) && made.isNone).toNat
  unknown : made.any (·.kind = .unknown) = decide (t.kind = .unknown)

theorem accounts_outcome {t : Token} (ht : Scan.Vocabulary t) (follows meets : Bool) :
    Accounts t (outcome follows meets t) := by
  cases ht with
  | operator h =>
    simp only [List.mem_cons, List.not_mem_nil, or_false] at h
    cases follows <;> rcases h with rfl | rfl | rfl | rfl | rfl | rfl | rfl | rfl | rfl <;>
      exact ⟨rfl, rfl, rfl⟩
  | comparison h =>
    simp only [List.mem_cons, List.not_mem_nil, or_false] at h
    rcases h with rfl | rfl | rfl <;> exact ⟨rfl, rfl, rfl⟩
  | @stop kind h =>
    cases kind with
    | function => exact ⟨rfl, rfl, rfl⟩
    | subexpression => exact ⟨rfl, rfl, rfl⟩
    | _ => cases h
  | spaces => cases meets <;> exact ⟨rfl, rfl, rfl⟩
  | _ => exact ⟨rfl, rfl, rfl⟩

/-- The outcomes of tokens of the raw vocabulary account for them. -/
theorem Outcomes.accounts (hos : Outcomes ts os) (h : ∀ t ∈ ts, Scan.Vocabulary t) :
    ∀ fate ∈ ts.zip os, Accounts fate.1 fate.2 := by
  induction hos with
  | nil => exact fun _ hfate => nomatch hfate
  | @cons t o ts os ho _ ih =>
    obtain ⟨follows, meets, rfl⟩ := ho
    rw [List.forall_mem_cons] at h
    rw [List.zip_cons_cons, List.forall_mem_cons]
    exact ⟨accounts_outcome h.1 follows meets, ih h.2⟩

/-- A count of the tokens before the passes. -/
theorem Outcomes.countP_fst (hos : Outcomes ts os) (p : Token → Bool) :
    ts.countP p = (ts.zip os).countP fun fate => p fate.1 := by
  induction hos with
  | nil => rfl
  | cons _ _ ih => rw [List.zip_cons_cons, List.countP_cons, List.countP_cons, ih]

/-- A count of the tokens after the passes. -/
theorem Outcomes.countP_snd (hos : Outcomes ts os) (p : Token → Bool) :
    (os.filterMap id).countP p = (ts.zip os).countP fun fate => fate.2.any p := by
  induction hos with
  | nil => rfl
  | @cons t o ts os _ _ ih =>
    rw [filterMap_id_cons, List.countP_append, List.zip_cons_cons, List.countP_cons, ih, Nat.add_comm]
    cases o <;> simp [List.countP_cons]

end Stream

/-! ## The ledger -/

/-- What the metrics of a formula say of its raw and its final tokens. -/
structure Ledger (p : ScanPreferences) (raw final : List Token) (m : Metrics) : Prop where
  rawTokens : m.rawTokens = raw.length
  finalTokens : m.finalTokens = final.length
  /-- Each raw token is kept, or dropped as spaces or as a unary plus. -/
  balance : m.rawTokens = m.finalTokens + m.whitespaceDropped + m.noopsRemoved
  /-- Each run of spaces is dropped or becomes an intersection. -/
  spaces : m.whitespaceDropped + m.intersectionsCreated = raw.countP (·.kind = .whitespace)
  intersections : m.intersectionsCreated = final.countP Token.isIntersection
  /-- Each plus sign is kept or removed. -/
  noops : m.noopsRemoved + final.countP (·.isInfix "+") = raw.countP (·.isInfix "+")
  unknownRaw : m.unknownTokens = raw.countP (·.kind = .unknown)
  unknownFinal : m.unknownTokens = final.countP (·.kind = .unknown)
  underflows : m.underflows = ({} : ScopeStack).unmatchedStops raw
  /-- The tokens by kind and the depth of nesting, if they are asked for. -/
  detailed : p.detailedMetrics = true →
    m.kindCounts.Counts (raw.map (·.kind.name)) ∧ m.kindCounts.total = m.rawTokens ∧
      m.maxScopeDepth = ({} : ScopeStack).deepest raw
  plain : p.detailedMetrics = false → m.kindCounts = .empty ∧ m.maxScopeDepth = 0
  /-- The uses of each operator, if they are asked for. -/
  operators : p.detailedMetrics = true → p.operatorUsage = true →
    m.operatorUsage.Counts ((raw.filter (·.kind.isOperator)).map Token.value)
  noOperators : p.detailedMetrics = false ∨ p.operatorUsage = false → m.operatorUsage = .empty

section Parse

variable (p : ScanPreferences) (formula : String)

/-- Each raw token with what the passes make of it. -/
def Parsed.fates (r : Parsed) : List (Token × Option Token) :=
  r.raw.zip (TokenList.ofList r.raw).outcomes

theorem whitespaceDropped_parse :
    (parse p formula).metrics.whitespaceDropped = (parse p formula).fates.countP
      fun fate => fate.1.kind = .whitespace && fate.2.isNone := by
  show (Metrics.ofTrace p (scan formula).trace).whitespaceDropped + _ = _
  rw [(Metrics.tallies_ofTrace p _).passes.1, Nat.zero_add]
  exact TokenList.finalize_dropped _

theorem intersectionsCreated_parse :
    (parse p formula).metrics.intersectionsCreated = (parse p formula).fates.countP
      fun fate => fate.1.kind = .whitespace && fate.2.isSome := by
  show (Metrics.ofTrace p (scan formula).trace).intersectionsCreated + _ = _
  rw [(Metrics.tallies_ofTrace p _).passes.2.1, Nat.zero_add]
  exact TokenList.finalize_intersections _

theorem noopsRemoved_parse :
    (parse p formula).metrics.noopsRemoved = (parse p formula).fates.countP
      fun fate => fate.1.kind ≠ .whitespace && fate.2.isNone := by
  show (Metrics.ofTrace p (scan formula).trace).noopsRemoved + _ = _
  rw [(Metrics.tallies_ofTrace p _).passes.2.2, Nat.zero_add]
  exact TokenList.finalize_noops fun _ ht => whitespace_value_of_mem_scan ht

theorem accounts_parse : ∀ fate ∈ (parse p formula).fates, Stream.Accounts fate.1 fate.2 :=
  (outcomes_raw p formula).accounts fun _ => vocabulary_of_mem_scan

theorem countP_raw_parse (q : Token → Bool) :
    (parse p formula).raw.countP q = (parse p formula).fates.countP fun fate => q fate.1 :=
  (outcomes_raw p formula).countP_fst q

theorem countP_tokens_parse (q : Token → Bool) :
    (parse p formula).tokens.countP q = (parse p formula).fates.countP fun fate => fate.2.any q := by
  rw [tokens_eq_outcomes]
  exact (outcomes_raw p formula).countP_snd q

/-- The raw tokens are those that are kept and those that are dropped. -/
theorem length_raw_parse :
    (parse p formula).raw.length = (parse p formula).tokens.length +
      (parse p formula).metrics.whitespaceDropped + (parse p formula).metrics.noopsRemoved := by
  have hdropped : (parse p formula).fates.countP (fun fate => fate.2.isNone) =
      (parse p formula).metrics.whitespaceDropped + (parse p formula).metrics.noopsRemoved := by
    rw [whitespaceDropped_parse, noopsRemoved_parse]
    refine countP_eq_add_of_forall fun fate _ => ?_
    by_cases hk : fate.1.kind = .whitespace <;> simp [hk]
  have hraw := countP_raw_parse p formula fun _ => true
  have htokens := countP_tokens_parse p formula fun _ => true
  rw [List.countP_true] at hraw htokens
  rw [hraw, htokens, Nat.add_assoc, ← hdropped]
  refine countP_eq_add_of_forall fun fate _ => ?_
  cases fate.2 <;> rfl

/-- The spaces are those that are dropped and those that become intersections. -/
theorem countP_whitespace_parse :
    (parse p formula).metrics.whitespaceDropped + (parse p formula).metrics.intersectionsCreated =
      (parse p formula).raw.countP (·.kind = .whitespace) := by
  rw [whitespaceDropped_parse, intersectionsCreated_parse, countP_raw_parse]
  refine (countP_eq_add_of_forall fun fate _ => ?_).symm
  cases fate.2 <;> simp

theorem countP_intersection_parse :
    (parse p formula).metrics.intersectionsCreated =
      (parse p formula).tokens.countP Token.isIntersection := by
  rw [intersectionsCreated_parse, countP_tokens_parse]
  refine List.countP_congr fun fate hfate => ?_
  rw [(accounts_parse p formula fate hfate).intersection]

/-- The plus signs are those that are kept and those that are removed. -/
theorem countP_plus_parse :
    (parse p formula).metrics.noopsRemoved + (parse p formula).tokens.countP (·.isInfix "+") =
      (parse p formula).raw.countP (·.isInfix "+") := by
  rw [noopsRemoved_parse, countP_tokens_parse, countP_raw_parse, Nat.add_comm]
  exact (countP_eq_add_of_forall fun fate hfate => (accounts_parse p formula fate hfate).plus).symm

theorem countP_unknown_parse :
    (parse p formula).metrics.unknownTokens =
      (parse p formula).tokens.countP (·.kind = .unknown) := by
  rw [unknownTokens_parse, countP_tokens_parse, countP_raw_parse]
  refine List.countP_congr fun fate hfate => ?_
  rw [(accounts_parse p formula fate hfate).unknown]

theorem tallies_parse : Metrics.Tallies p (parse p formula).raw
    (Metrics.ofTrace p (scan formula).trace) :=
  Metrics.tallies_ofTrace p _

/-- The metrics of every formula are a ledger of its raw and its final tokens. -/
theorem parse_ledger :
    Ledger p (parse p formula).raw (parse p formula).tokens (parse p formula).metrics where
  rawTokens := (tallies_parse p formula).rawTokens
  finalTokens := rfl
  balance := (tallies_parse p formula).rawTokens.trans (length_raw_parse p formula)
  spaces := countP_whitespace_parse p formula
  intersections := countP_intersection_parse p formula
  noops := countP_plus_parse p formula
  unknownRaw := unknownTokens_parse p formula
  unknownFinal := countP_unknown_parse p formula
  underflows := (underflows_parse p formula).trans (walk_scan formula).unmatchedStops.symm
  detailed hd := by
    have hkinds := (tallies_parse p formula).kindCounts
    rw [ScanPreferences.countedKinds, if_pos hd] at hkinds
    have hdepth := Metrics.maxScopeDepth_ofTrace p (scan formula).trace
    rw [if_pos hd, ← (walk_scan formula).deepest] at hdepth
    refine ⟨hkinds, ?_, hdepth⟩
    exact (hkinds.total.trans (List.length_map _)).trans (tallies_parse p formula).rawTokens.symm
  plain hd := by
    have hkinds := (tallies_parse p formula).kindCounts
    rw [ScanPreferences.countedKinds, hd] at hkinds
    have hdepth := Metrics.maxScopeDepth_ofTrace p (scan formula).trace
    rw [hd] at hdepth
    exact ⟨hkinds.eq_empty, hdepth⟩
  operators hd ho := by
    have hoperators := (tallies_parse p formula).operatorUsage
    rw [ScanPreferences.countedOperators, hd, ho] at hoperators
    exact hoperators
  noOperators h := by
    have hoperators := (tallies_parse p formula).operatorUsage
    have hand : (p.detailedMetrics && p.operatorUsage) = false := Bool.and_eq_false_iff.2 h
    rw [ScanPreferences.countedOperators, hand] at hoperators
    exact hoperators.eq_empty

end Parse

end SheetFormula
