import SheetFormula.Proofs.ScopeReplay

/-!
# Scope discipline

In the final stream of every formula, well-formed or not, a closing token is of the kind of the scope
that it closes, a comma is a union only where no function call is the innermost scope, and an argument
separator stands in a function call or between two rows of an array (`Placed`). Main statements:

* `Move.disciplined`, `Walk.disciplined`: the raw tokens of a scan keep the discipline;
* `Outcomes.disciplined`: the passes keep it;
* `parse_scope_discipline`: so the final stream keeps it, and its scope ends are those of the raw one.

`Disciplined` is the discipline as a recursion over the tokens, which carries the open scopes and the
token before; `Disciplined.placed` gives back what it says of a token in the midst of others.
-/

namespace SheetFormula

open Scan

/-- A token may stand where these scopes are open, between these neighbours. -/
structure Placed (scopes : ScopeStack) (before after : Option Token) (t : Token) : Prop where
  /-- A stop is of the kind of the innermost scope, and closes a function call if none is open. -/
  stop : t.isStop = true → t.kind = scopes.topKind?.getD .function
  /-- The innermost scope of a union is a parenthesis, or there is none. -/
  union : t.kind = .infixOp → t.subkind = .union →
    scopes.topKind? = some .subexpression ∨ scopes.topKind? = none
  /-- The innermost scope of an argument separator is a function call, or it separates two rows. -/
  argument : t.kind = .argument →
    scopes.topKind? = some .function ∨ before.any Token.isStop = true ∧ after = some rowToken

/-- Each of some tokens may stand where it does, the first of them where some scopes are open and after
the token `before`. -/
def Disciplined (scopes : ScopeStack) (before : Option Token) : List Token → Prop
  | [] => True
  | t :: ts => Placed scopes before ts.head? t ∧ Disciplined (scopes.feed t) (some t) ts

variable {σ : ScopeStack} {before after : Option Token} {t : Token} {ts us : List Token}

/-- What may stand at the end of a stream may stand before anything. -/
theorem Placed.of_none (h : Placed σ before none t) (after : Option Token) :
    Placed σ before after t where
  stop := h.stop
  union := h.union
  argument hk := (h.argument hk).imp_right fun h => nomatch h.2

/-- Only stops and separators have to be placed. -/
theorem placed_of_free (hstop : t.isStop = false) (hunion : t.kind = .infixOp → t.subkind ≠ .union)
    (hargument : t.kind ≠ .argument) : Placed σ before after t where
  stop h := absurd h (by simp [hstop])
  union h h' := absurd h' (hunion h)
  argument h := absurd h hargument

theorem placed_of_isSimple (h : isSimple t = true) : Placed σ before after t := by
  have hend := isScopeEnd_of_isSimple h
  simp only [Token.isScopeEnd, Bool.or_eq_false_iff] at hend
  obtain ⟨value, kind, subkind⟩ := t
  refine placed_of_free hend.2 (fun hk hu => ?_) fun hk => ?_
  · cases hk
    cases hu
    simp [isSimple] at h
  · cases hk
    simp [isSimple] at h

theorem placed_of_isStart (h : t.isStart = true) : Placed σ before after t := by
  simp only [Token.isStart, Bool.and_eq_true, beq_iff_eq] at h
  refine placed_of_free (by simp [Token.isStop, h.2]) (fun _ => by simp [h.2]) fun hk => ?_
  simp [Kind.isScope, hk] at h

theorem placed_closing (h : σ.closing.isStop = true) : Placed σ before after σ.closing where
  stop _ := rfl
  union _ h' := by simp [ScopeStack.closing] at h'
  argument hk := by simp [Token.isStop, Kind.isScope, hk] at h

theorem getLast?_cons_or (t : Token) (ts : List Token) (before : Option Token) :
    (t :: ts).getLast?.or before = ts.getLast?.or (some t) := by
  rw [List.getLast?_cons]
  cases ts.getLast? <;> rfl

theorem Disciplined.append (h : Disciplined σ before ts)
    (h' : Disciplined (σ.replay ts) (ts.getLast?.or before) us) : Disciplined σ before (ts ++ us) := by
  induction ts generalizing σ before with
  | nil => simpa using h'
  | cons t ts ih =>
    refine ⟨?_, ih h.2 (getLast?_cons_or t ts before ▸ h')⟩
    cases ts with
    | nil => exact h.1.of_none _
    | cons u ts => exact h.1

/-- What a discipline says of one token in the midst of others. -/
theorem Disciplined.placed (h : Disciplined σ before (ts ++ t :: us)) :
    Placed (σ.replay ts) (ts.getLast?.or before) us.head? t := by
  induction ts generalizing σ before with
  | nil => exact h.1
  | cons u ts ih =>
    rw [getLast?_cons_or]
    exact ih h.2

/-! ## The raw tokens -/

namespace Scan

/-- The innermost scope is a function call or a parenthesis. -/
theorem Started.topKind?_cases (h : Started σ) :
    σ.topKind? = some .function ∨ σ.topKind? = some .subexpression ∨ σ.topKind? = none := by
  obtain ⟨scopes⟩ := σ
  cases scopes with
  | nil => exact .inr (.inr rfl)
  | cons t ts =>
    have ht : t.isStart = true := h t List.mem_cons_self
    obtain ⟨value, kind, subkind⟩ := t
    cases kind <;> simp_all [Token.isStart, Kind.isScope, ScopeStack.topKind?, ScopeStack.top?]

/-- A comma is an argument separator in a function call and a union anywhere else. -/
theorem Started.placed_commaToken (h : Started σ) : Placed σ before after (commaToken σ) := by
  unfold commaToken
  split
  · rename_i hf
    exact ⟨by simp [Token.isStop, Kind.isScope], by simp, fun _ => .inl hf⟩
  · rename_i hf
    exact ⟨by simp [Token.isStop, Kind.isScope], fun _ _ => h.topKind?_cases.resolve_left hf, by simp⟩

/-- A move puts each of its tokens where it may stand. -/
theorem Move.disciplined {new : List Entry} {τ : ScopeStack} (h : Move σ new τ) (hσ : Started σ) :
    Disciplined σ before (tokensOf new) := by
  cases h with
  | token _ hsimple => exact ⟨placed_of_isSimple hsimple, trivial⟩
  | comma _ => exact ⟨hσ.placed_commaToken, trivial⟩
  | stray _ _ _ => trivial
  | opened _ value hk => exact ⟨placed_of_isStart (isStart_of_isScope hk value), trivial⟩
  | closed _ _ =>
    rw [tokensOf_closingEntries]
    exact ⟨placed_closing hσ.isStop_closing, trivial⟩
  | row _ _ =>
    have hstop := hσ.isStop_closing
    have hargument : ∀ ρ : ScopeStack,
        Placed ρ (some σ.closing) (some rowToken) argumentToken := fun ρ =>
      ⟨by simp [argumentToken, Token.isStop, Kind.isScope], by simp [argumentToken],
        fun _ => .inr ⟨hstop, rfl⟩⟩
    simp only [tokensOf_append, tokensOf_closingEntries, tokensOf_token, tokensOf_opened, tokensOf_nil]
    exact ⟨placed_closing hstop, hargument _, placed_of_isStart rfl, trivial⟩

/-- The raw tokens of a scan keep the discipline. -/
theorem Walk.disciplined {es : List Entry} (h : Walk es σ) : Disciplined {} none (tokensOf es) := by
  induction h with
  | nil => trivial
  | snoc hwalk hmove ih =>
    rw [tokensOf_append]
    refine ih.append ?_
    rw [hwalk.replay_eq]
    exact hmove.disciplined hwalk.started

end Scan

/-! ## The final tokens -/

namespace Stream

theorem Outcomes.head?_of_row {os : List (Option Token)} (h : Outcomes ts os)
    (hrow : ts.head? = some rowToken) : (os.filterMap id).head? = some rowToken := by
  cases h with
  | nil => cases hrow
  | cons ho _ =>
    cases hrow
    obtain ⟨follows, meets, rfl⟩ := ho
    have hkept : outcome follows meets rowToken = some rowToken := by
      simp only [outcome, rowToken]
      decide
    rw [filterMap_id_cons, hkept]
    rfl

/-- A token that may stand among the original items may stand among their outcomes. -/
theorem Keeps.placed {u : Token} (hk : Keeps t u) (h : Placed σ before after t) {τ : ScopeStack}
    {before' after' : Option Token} (hkinds : τ.kinds = σ.kinds)
    (hbefore : before.any Token.isStop = true → before'.any Token.isStop = true)
    (hafter : after = some rowToken → after' = some rowToken) : Placed τ before' after' u := by
  have htop : τ.topKind? = σ.topKind? := by
    rw [ScopeStack.topKind?_eq_head?, ScopeStack.topKind?_eq_head?, hkinds]
  refine ⟨fun hu => ?_, fun hu hu' => ?_, fun hu => ?_⟩
  · have ht : t.isStop = true := hk.isStop.symm.trans hu
    have hscope : t.kind.isScope = true := by
      simp only [Token.isStop, Bool.and_eq_true] at ht
      exact ht.1
    rw [hk.kind hscope, htop]
    exact h.stop ht
  · rw [htop]
    have hut : u = t := hk.union hu hu'
    rw [hut] at hu hu'
    exact h.union hu hu'
  · rw [htop]
    have hut : u = t := hk.argument hu
    rw [hut] at hu
    exact (h.argument hu).imp_right fun hrow => ⟨hbefore hrow.1, hafter hrow.2⟩

/-- The passes keep the discipline. -/
theorem Outcomes.disciplined {os : List (Option Token)} (hos : Outcomes ts os)
    (h : Disciplined σ before ts) {τ : ScopeStack} {before' : Option Token}
    (hkinds : τ.kinds = σ.kinds)
    (hbefore : before.any Token.isStop = true → before'.any Token.isStop = true) :
    Disciplined τ before' (os.filterMap id) := by
  induction hos generalizing σ τ before before' with
  | nil => trivial
  | @cons t o ts os ho hos ih =>
    obtain ⟨follows, meets, ho⟩ := ho
    rw [filterMap_id_cons]
    cases o with
    | none =>
      have hend := isScopeEnd_of_outcome_eq_none ho
      simp only [Token.isScopeEnd, Bool.or_eq_false_iff] at hend
      refine ih h.2 ?_ fun hstop => ?_
      · rw [feed_of_outcome_eq_none ho, hkinds]
      · simp [hend.2] at hstop
    | some u =>
      have hk : Keeps t u := outcome_keeps ho
      refine ⟨hk.placed h.1 hkinds hbefore hos.head?_of_row, ih h.2 (hk.kinds_feed hkinds) ?_⟩
      intro hstop
      simpa [hk.isStop] using hstop

end Stream

/-- The final stream of a formula keeps the discipline. -/
theorem disciplined_parse (p : ScanPreferences) (formula : String) :
    Disciplined {} none (parse p formula).tokens := by
  have hraw : Disciplined {} none (scan formula).tokens := (walk_scan formula).disciplined
  rw [tokens_parse]
  exact (Stream.outcomes_outcomesFrom false none _).disciplined hraw rfl id

/-- In the final stream of a formula every stop closes a scope of its kind, or a function call if none
is open, every union stands in a parenthesis or in no scope, and every argument separator stands in a
function call or between two rows; and its scope ends are those of the raw stream. -/
theorem parse_scope_discipline (p : ScanPreferences) (formula : String) :
    (∀ before t after, (parse p formula).tokens = before ++ t :: after →
      Placed (({} : ScopeStack).replay before) before.getLast? after.head? t) ∧
    Stream.scopeEnds (parse p formula).tokens = Stream.scopeEnds (parse p formula).raw := by
  refine ⟨fun before t after hsplit => ?_, ?_⟩
  · have hfinal := disciplined_parse p formula
    rw [hsplit] at hfinal
    simpa using hfinal.placed
  · rw [tokens_parse]
    exact (Stream.outcomes_outcomesFrom false none _).scopeEnds_eq

end SheetFormula
