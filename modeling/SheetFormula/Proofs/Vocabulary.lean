import SheetFormula.Proofs.ScopeReplay

/-!
# The vocabulary of token streams

Which tokens a stream can hold, whatever the formula: the kinds and subkinds that go together, and the
values that go with them. The raw stream has a vocabulary of its own, in which operators and operands
still wait to be classified. Main statements:

* `speaks_step`: a step of the scan puts out tokens of the raw vocabulary only;
* `vocabulary_of_mem_scan`: so does a whole scan;
* `vocabulary_outcome`: the passes make tokens of the final vocabulary out of those;
* `parse_vocabulary`: so the final stream of every formula is in the final vocabulary.
-/

namespace SheetFormula

namespace Scan

/-- The tokens that a scan can put out. -/
inductive Vocabulary : Token → Prop
  | operand {value : String} (h : value ≠ "") : Vocabulary ⟨value, .operand, .plain⟩
  | text (value : String) : Vocabulary ⟨value, .operand, .text⟩
  | error {value : String} (h : value ∈ errorLiterals) : Vocabulary ⟨value, .operand, .error⟩
  | unknown {value : String} (h : value ≠ "") : Vocabulary ⟨value, .unknown, .plain⟩
  | call (name : String) : Vocabulary ⟨name, .function, .start⟩
  | group : Vocabulary ⟨"", .subexpression, .start⟩
  | stop {kind : Kind} (h : kind.isScope = true) : Vocabulary ⟨"", kind, .stop⟩
  | argument : Vocabulary ⟨",", .argument, .plain⟩
  | union : Vocabulary ⟨",", .infixOp, .union⟩
  | operator {value : String} (h : value ∈ ["+", "-", "*", "/", "^", "&", "=", "<", ">"]) :
    Vocabulary ⟨value, .infixOp, .plain⟩
  | comparison {value : String} (h : value ∈ ["<=", ">=", "<>"]) :
    Vocabulary ⟨value, .infixOp, .logical⟩
  | percent : Vocabulary ⟨"%", .postfixOp, .plain⟩
  | spaces : Vocabulary ⟨"", .whitespace, .plain⟩

theorem vocabulary_commaToken (σ : ScopeStack) : Vocabulary (commaToken σ) := by
  rcases commaToken_cases σ with h | h <;> rw [h]
  · exact .argument
  · exact .union

theorem vocabulary_infixChar {c : Char} (h : isInfixChar c = true) :
    Vocabulary ⟨String.singleton c, .infixOp, .plain⟩ := by
  refine .operator ?_
  simp only [isInfixChar, Bool.or_eq_true, beq_iff_eq] at h
  rcases h with (((((((rfl | rfl) | rfl) | rfl) | rfl) | rfl) | rfl) | rfl) | rfl <;> decide

theorem vocabulary_comparison {c : Char} {rest : List Char} (h : isComparisonPair c rest = true) :
    Vocabulary ⟨String.ofList (c :: rest.take 1), .infixOp, .logical⟩ := by
  refine .comparison ?_
  unfold isComparisonPair at h
  split at h
  · simp only [Bool.or_eq_true, beq_iff_eq] at h
    rcases h with rfl | rfl <;> simp
  · rw [beq_iff_eq] at h
    subst h
    simp
  · cases h

/-- The token that closes a scope that was opened. -/
theorem Started.vocabulary_closing {σ : ScopeStack} (h : Started σ) : Vocabulary σ.closing := by
  have hstop := h.isStop_closing
  simp only [Token.isStop, Bool.and_eq_true] at hstop
  exact .stop hstop.1

namespace State

/-! ## What the operations put out -/

theorem tokens_note (s : State) (e : Entry) : (s.note e).tokens = s.tokens ++ e.token?.toList := by
  rw [tokens, trace_note, Array.toList_push, tokensOf_append, tokens]
  cases e <;> rfl

@[simp] theorem tokens_start (formula : String) : (start formula).tokens = [] := rfl
@[simp] theorem tokens_advance (s : State) (n : Nat) : (s.advance n).tokens = s.tokens := rfl
@[simp] theorem tokens_enter (s : State) (m : Mode) : (s.enter m).tokens = s.tokens := rfl
@[simp] theorem tokens_collect (s : State) (c : Char) : (s.collect c).tokens = s.tokens := rfl
@[simp] theorem tokens_dropPending (s : State) : s.dropPending.tokens = s.tokens := rfl

@[simp] theorem tokens_emit (s : State) (t : Token) : (s.emit t).tokens = s.tokens ++ [t] :=
  s.tokens_note (.token s.offset t)

@[simp] theorem tokens_emitPending (s : State) (k : Kind) (u : Subkind) :
    (s.emitPending k u).tokens = s.tokens ++ [⟨s.pending, k, u⟩] :=
  s.dropPending.tokens_emit ⟨s.pending, k, u⟩

@[simp] theorem tokens_openScope (s : State) (value : String) (k : Kind) :
    (s.openScope value k).tokens = s.tokens ++ [⟨value, k, .start⟩] :=
  tokens_note { s with scopes := s.scopes.push ⟨value, k, .start⟩ } (.opened _ _ _)

@[simp] theorem tokens_openPending (s : State) :
    s.openPending.tokens = s.tokens ++ [⟨s.pending, .function, .start⟩] :=
  s.dropPending.tokens_openScope s.pending .function

@[simp] theorem tokens_closeScope (s : State) (c : Char) :
    (s.closeScope c).tokens = s.tokens ++ [s.scopes.closing] := by
  rw [tokens, trace_closeScope, tokensOf_append, tokensOf_closingEntries, tokens]

/-! ## The vocabulary of a scan -/

variable {s : State}

/-- The tokens that were put out are in the vocabulary, and the open scopes were opened. -/
def Speaks (s : State) : Prop := Started s.scopes ∧ ∀ t ∈ s.tokens, Vocabulary t

/-- One more token. -/
theorem Speaks.add (h : s.Speaks) {t : Token} (ht : Vocabulary t) :
    ∀ u ∈ s.tokens ++ [t], Vocabulary u := by
  rw [List.forall_mem_append, List.forall_mem_singleton]
  exact ⟨h.2, ht⟩

theorem Speaks.emit (h : s.Speaks) {t : Token} (ht : Vocabulary t) : (s.emit t).Speaks := by
  refine ⟨h.1, ?_⟩
  rw [tokens_emit]
  exact h.add ht

theorem Speaks.emitPending (h : s.Speaks) {k : Kind} {u : Subkind}
    (ht : Vocabulary ⟨s.pending, k, u⟩) : (s.emitPending k u).Speaks :=
  Speaks.emit (s := s.dropPending) h ht

theorem Speaks.flush (h : s.Speaks) : s.flush.Speaks := by
  unfold State.flush
  split
  · exact h
  · exact h.emitPending (.operand ‹_›)

theorem Speaks.flushStray (h : s.Speaks) (c : Char) : (s.flushStray c).Speaks := by
  unfold State.flushStray
  split
  · exact h
  · refine Speaks.emitPending (s := s.note _) ⟨h.1, ?_⟩ (.unknown ‹_›)
    rw [tokens_note]
    simpa [Entry.token?] using h.2

theorem Speaks.openScope (h : s.Speaks) {value : String} {k : Kind} (hk : k.isScope = true)
    (ht : Vocabulary ⟨value, k, .start⟩) : (s.openScope value k).Speaks := by
  refine ⟨h.1.push (isStart_of_isScope hk value), ?_⟩
  rw [tokens_openScope]
  exact h.add ht

theorem Speaks.openPending (h : s.Speaks) : s.openPending.Speaks :=
  Speaks.openScope (s := s.dropPending) h rfl (.call s.pending)

theorem Speaks.closeScope (h : s.Speaks) (c : Char) : (s.closeScope c).Speaks := by
  rw [Speaks, scopes_closeScope, tokens_closeScope]
  exact ⟨h.1.pop, h.add h.1.vocabulary_closing⟩

theorem speaks_quotedStep (h : s.Speaks) {quote c : Char} {closed : State → State}
    (hclosed : ∀ s : State, s.Speaks → (closed s).Speaks) :
    (s.quotedStep quote c closed).Speaks := by
  unfold quotedStep
  split
  · split
    · exact h
    · exact hclosed _ h
  · exact h

theorem speaks_bracketStep (h : s.Speaks) (c : Char) : (s.bracketStep c).Speaks := by
  unfold bracketStep
  split <;> exact h

theorem speaks_errorStep (h : s.Speaks) (c : Char) : (s.errorStep c).Speaks := by
  unfold errorStep
  dsimp only
  split
  · exact Speaks.emitPending (s := ((s.collect c).advance 1).enter .code) h (.error ‹_›)
  · exact h

theorem speaks_codeStep (h : s.Speaks) (c : Char) (rest : List Char) :
    (s.codeStep c rest).Speaks := by
  unfold codeStep
  split
  · exact h
  · split
    case h_1 => exact h.flushStray _
    case h_2 => exact h.flushStray _
    case h_3 => exact h
    case h_4 => exact h.flushStray _
    case h_5 => exact ((h.flushStray _).openScope rfl (.call arrayName)).openScope rfl (.call rowName)
    case h_6 => exact ((h.flush.closeScope _).emit .argument).openScope rfl (.call rowName)
    case h_7 => exact (h.flush.closeScope _).closeScope _
    case h_8 => exact h.flush.emit .spaces
    case h_9 => exact h.flush.emit .percent
    case h_10 =>
      split
      · exact h.openScope rfl .group
      · exact h.openPending
    case h_11 => exact h.flush.emit (vocabulary_commaToken s.scopes)
    case h_12 => exact h.flush.closeScope _
    case h_13 =>
      split
      · exact h.flush.emit (vocabulary_comparison ‹_›)
      · split
        · exact h.flush.emit (vocabulary_infixChar ‹_›)
        · exact h

/-- A step puts out tokens of the vocabulary only. -/
theorem speaks_step (h : s.Speaks) : s.step.Speaks := by
  unfold step
  split
  · exact h
  · split
    · exact speaks_codeStep h _ _
    · exact speaks_quotedStep h fun s hs => hs.emitPending (.text s.pending)
    · exact speaks_quotedStep h fun _ hs => hs
    · exact speaks_bracketStep h _
    · exact speaks_errorStep h _

theorem speaks_start (formula : String) : (start formula).Speaks := by
  have hscopes : (start formula).scopes.scopes = [] := rfl
  rw [Speaks, Started, hscopes, tokens_start]
  exact ⟨List.forall_mem_nil _, List.forall_mem_nil _⟩

end State

/-- The raw tokens of a formula are in the vocabulary. -/
theorem vocabulary_of_mem_scan {formula : String} {t : Token} (ht : t ∈ (scan formula).tokens) :
    Vocabulary t := by
  have hrun : (State.start formula).run.Speaks :=
    State.run_induction (fun _ _ h => State.speaks_step h) (State.speaks_start formula)
  have hfinish : (State.start formula).finish.Speaks := hrun.flush
  exact hfinish.2 t ht

end Scan

namespace Stream

/-! ## The final vocabulary -/

/-- The tokens of final streams. -/
inductive Vocabulary : Token → Prop
  | text (value : String) : Vocabulary ⟨value, .operand, .text⟩
  | error {value : String} (h : value ∈ Scan.errorLiterals) : Vocabulary ⟨value, .operand, .error⟩
  | number {value : String} (h : value ≠ "") : Vocabulary ⟨value, .operand, .number⟩
  | range {value : String} (h : value ≠ "") : Vocabulary ⟨value, .operand, .range⟩
  | logical {value : String} (h : value = "TRUE" ∨ value = "FALSE") :
    Vocabulary ⟨value, .operand, .logical⟩
  | unknown {value : String} (h : value ≠ "") : Vocabulary ⟨value, .unknown, .plain⟩
  | call (name : String) : Vocabulary ⟨name, .function, .start⟩
  | endCall : Vocabulary ⟨"", .function, .stop⟩
  | group : Vocabulary ⟨"", .subexpression, .start⟩
  | endGroup : Vocabulary ⟨"", .subexpression, .stop⟩
  | argument : Vocabulary ⟨",", .argument, .plain⟩
  | minus : Vocabulary ⟨"-", .prefixOp, .plain⟩
  | percent : Vocabulary ⟨"%", .postfixOp, .plain⟩
  | math {value : String} (h : value ∈ ["+", "-", "*", "/", "^"]) : Vocabulary ⟨value, .infixOp, .math⟩
  | comparison {value : String} (h : value ∈ ["=", "<", ">", "<=", ">=", "<>"]) :
    Vocabulary ⟨value, .infixOp, .logical⟩
  | concatenation : Vocabulary ⟨"&", .infixOp, .concatenation⟩
  | intersection : Vocabulary ⟨"", .infixOp, .intersection⟩
  | union : Vocabulary ⟨",", .infixOp, .union⟩

variable {follows meets : Bool} {t u : Token}

theorem vocabulary_operand {value : String} (h : value ≠ "") :
    Vocabulary ⟨value, .operand, operandSubkind value⟩ := by
  unfold operandSubkind
  split
  · exact .number h
  · split
    · exact .logical ‹_›
    · exact .range h

theorem vocabulary_infixOp {value : String}
    (h : value ∈ ["+", "-", "*", "/", "^", "&", "=", "<", ">"])
    (hu : outcome follows meets ⟨value, .infixOp, .plain⟩ = some u) : Vocabulary u := by
  simp only [List.mem_cons, List.not_mem_nil, or_false] at h
  -- only the two signs depend on what stands before them
  rcases h with rfl | rfl | rfl | rfl | rfl | rfl | rfl | rfl | rfl
  · cases follows <;> cases hu
    exact .math (by decide)
  · cases follows <;> cases hu
    · exact .minus
    · exact .math (by decide)
  · cases hu; exact .math (by decide)
  · cases hu; exact .math (by decide)
  · cases hu; exact .math (by decide)
  · cases hu; exact .concatenation
  · cases hu; exact .comparison (by decide)
  · cases hu; exact .comparison (by decide)
  · cases hu; exact .comparison (by decide)

/-- The passes make tokens of the final vocabulary out of raw ones. -/
theorem vocabulary_outcome (ht : Scan.Vocabulary t) (hu : outcome follows meets t = some u) :
    Vocabulary u := by
  cases ht with
  | operand h => cases hu; exact vocabulary_operand h
  | text value => cases hu; exact .text value
  | error h => cases hu; exact .error h
  | unknown h => cases hu; exact .unknown h
  | call name => cases hu; exact .call _
  | group => cases hu; exact .group
  | @stop kind h =>
    cases kind with
    | function => cases hu; exact .endCall
    | subexpression => cases hu; exact .endGroup
    | _ => cases h
  | argument => cases hu; exact .argument
  | union => cases hu; exact .union
  | operator h => exact vocabulary_infixOp h hu
  | comparison h =>
    simp only [List.mem_cons, List.not_mem_nil, or_false] at h
    rcases h with rfl | rfl | rfl <;> cases hu <;> exact .comparison (by decide)
  | percent => cases hu; exact .percent
  | spaces =>
    cases meets <;> cases hu
    exact .intersection

theorem Outcomes.vocabulary {ts : List Token} {os : List (Option Token)} (hos : Outcomes ts os)
    (h : ∀ t ∈ ts, Scan.Vocabulary t) : ∀ u ∈ os.filterMap id, Vocabulary u := by
  induction hos with
  | nil => exact fun _ hu => nomatch hu
  | @cons t o ts os ho _ ih =>
    obtain ⟨follows, meets, ho⟩ := ho
    rw [List.forall_mem_cons] at h
    rw [filterMap_id_cons, List.forall_mem_append]
    refine ⟨fun u hu => ?_, ih h.2⟩
    rw [Option.mem_toList] at hu
    exact vocabulary_outcome h.1 (ho.trans hu)

/-- No token of a final stream is a no-op or a run of spaces, and each operand and infix operator has a
subkind. -/
theorem Vocabulary.classified (h : Vocabulary t) :
    t.kind ≠ .noop ∧ t.kind ≠ .whitespace ∧
      (t.kind = .infixOp ∨ t.kind = .operand → t.subkind ≠ .plain) := by
  cases h <;> simp

end Stream

/-- Every token of the final stream of a formula, well-formed or not, is in the final vocabulary, and so
it is neither a no-op nor a run of spaces, and has a subkind if it is an operand or an infix operator. -/
theorem parse_vocabulary (p : ScanPreferences) (formula : String) :
    ∀ t ∈ (parse p formula).tokens, Stream.Vocabulary t ∧ t.kind ≠ .noop ∧ t.kind ≠ .whitespace ∧
      (t.kind = .infixOp ∨ t.kind = .operand → t.subkind ≠ .plain) := by
  intro t ht
  rw [tokens_parse] at ht
  have hraw : ∀ u ∈ (parse p formula).raw, Scan.Vocabulary u := fun _ => Scan.vocabulary_of_mem_scan
  have hword : Stream.Vocabulary t := (Stream.outcomes_outcomesFrom _ _ _).vocabulary hraw t ht
  exact ⟨hword, hword.classified⟩

theorem parse_vocabulary_minus :
    let t : Token := ⟨"-", .prefixOp, .plain⟩
    t ∈ (parse {} "=+@F(-A1% B1,#REF!\x7b").tokens ∧ Stream.Vocabulary t ∧ t.kind ≠ .noop := by
  intro t
  have ht : t ∈ (parse {} "=+@F(-A1% B1,#REF!\x7b").tokens := by decide +kernel
  obtain ⟨hword, hnoop, -⟩ := parse_vocabulary {} _ t ht
  exact ⟨ht, hword, hnoop⟩

end SheetFormula
