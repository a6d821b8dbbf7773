import SheetFormula.Scan.State
import SheetFormula.Text.Decimal

/-!
# The rules of the scanner

Each rule looks at the character under the cursor, in the kind of text that the scan is in, and moves
the cursor on. Outside the literals a character either is a delimiter or an operator, before which the
pending text is put out, or belongs to the text of an operand. Main statement:

* `length_rest_step_lt`: every step leaves less text than there was, so a scan ends.
-/

namespace SheetFormula.Scan

/-- The seven error literals. -/
def errorLiterals : List String :=
  ["#NULL!", "#DIV/0!", "#VALUE!", "#REF!", "#NAME?", "#NUM!", "#N/A"]

/-- The name under which an array literal is a function call. -/
def arrayName : String := "ARRAY"

/-- The name under which a row of an array literal is a function call. -/
def rowName : String := "ARRAYROW"

/-- A character that is an infix operator by itself. -/
def isInfixChar (c : Char) : Bool :=
  c == '+' || c == '-' || c == '*' || c == '/' || c == '^' || c == '&' || c == '=' || c == '>'
    || c == '<'

/-- The character begins one of the comparisons `>=`, `<=` and `<>`, given the text after it. -/
def isComparisonPair (c : Char) : List Char → Bool
  | '=' :: _ => c == '<' || c == '>'
  | '>' :: _ => c == '<'
  | _ => false

/-- A comma separates arguments in a function call and joins ranges anywhere else. -/
def commaToken (scopes : ScopeStack) : Token :=
  if scopes.topKind? = some .function then ⟨",", .argument, .plain⟩ else ⟨",", .infixOp, .union⟩

namespace State

variable {ρ : Type}

/-- In quoted text a doubled quote stands for one quote, and a single one ends it. -/
def quotedStep (s : State ρ) (quote c : Char) (closed : State ρ → State ρ) : State ρ :=
  if c = quote then
    if s.next? = some quote then (s.collect c).advance 2 else (closed (s.enter .code)).advance 1
  else (s.collect c).advance 1

/-- A bracket segment ends at the first closing bracket. -/
def bracketStep (s : State ρ) (c : Char) : State ρ :=
  ((if c = ']' then s.enter .code else s).collect c).advance 1

section Recording

variable [Recorder ρ]

/-- An error literal ends as soon as it is complete. -/
def errorStep (s : State ρ) (c : Char) : State ρ :=
  let s := (s.collect c).advance 1
  if s.pending ∈ errorLiterals then (s.enter .code).emitPending .operand .error else s

/-- Outside the literals the character decides, before the text `rest`. -/
def codeStep (s : State ρ) (c : Char) (rest : List Char) : State ρ :=
  if (c = '+' ∨ c = '-') ∧ Text.isExponentStem s.pending.toList = true then
    (s.collect c).advance 1
  else
    match c with
    | '"' => ((s.flushStray c).enter .text).advance 1
    | '\x27' => ((s.flushStray c).enter .path).advance 1
    | '[' => ((s.enter .bracket).collect c).advance 1
    | '#' => (((s.flushStray c).enter .error).collect c).advance 1
    | '\x7b' =>
      (((s.flushStray c).openScope arrayName .function).openScope rowName .function).advance 1
    | ';' =>
      (((s.flush.closeScope c).emit ⟨",", .argument, .plain⟩).openScope rowName .function).advance 1
    | '\x7d' => ((s.flush.closeScope c).closeScope c).advance 1
    | ' ' =>
      (s.flush.emit ⟨"", .whitespace, .plain⟩).advance (1 + (rest.takeWhile (· = ' ')).length)
    | '%' => (s.flush.emit ⟨"%", .postfixOp, .plain⟩).advance 1
    | '(' =>
      (if s.pending = "" then s.openScope "" .subexpression else s.openPending).advance 1
    | ',' => (s.flush.emit (commaToken s.scopes)).advance 1
    | ')' => (s.flush.closeScope c).advance 1
    | c =>
      if isComparisonPair c rest then
        (s.flush.emit ⟨String.ofList (c :: rest.take 1), .infixOp, .logical⟩).advance 2
      else if isInfixChar c then
        (s.flush.emit ⟨String.singleton c, .infixOp, .plain⟩).advance 1
      else (s.collect c).advance 1

/-- One step of the scan; at the end of the formula nothing happens. -/
def step (s : State ρ) : State ρ :=
  match s.rest with
  | [] => s
  | c :: rest =>
    match s.mode with
    | .code => s.codeStep c rest
    | .text => s.quotedStep '"' c fun s => s.emitPending .operand .text
    | .path => s.quotedStep '\x27' c id
    | .bracket => s.bracketStep c
    | .error => s.errorStep c

end Recording

/-! ## Progress -/

theorem length_drop_lt {cs : List Char} (h : cs ≠ []) {n : Nat} (hn : 0 < n) :
    (cs.drop n).length < cs.length := by
  have := List.length_pos_iff.2 h
  rw [List.length_drop]
  omega

theorem rest_quotedStep {s : State ρ} {quote c : Char} {closed : State ρ → State ρ}
    (hc : ∀ s, (closed s).rest = s.rest) :
    ∃ n, 0 < n ∧ (s.quotedStep quote c closed).rest = s.rest.drop n := by
  unfold quotedStep
  split
  · split
    · exact ⟨2, by decide, by simp⟩
    · exact ⟨1, by decide, by simp [hc]⟩
  · exact ⟨1, by decide, by simp⟩

theorem rest_bracketStep (s : State ρ) (c : Char) : (s.bracketStep c).rest = s.rest.drop 1 := by
  unfold bracketStep
  split <;> rfl

section Recording

variable [Recorder ρ]

theorem rest_errorStep (s : State ρ) (c : Char) : (s.errorStep c).rest = s.rest.drop 1 := by
  unfold errorStep
  dsimp only
  split <;> rfl

theorem rest_codeStep (s : State ρ) (c : Char) (rest : List Char) :
    ∃ n, 0 < n ∧ (s.codeStep c rest).rest = s.rest.drop n := by
  unfold codeStep
  split
  · exact ⟨1, by decide, rfl⟩
  · split
    case h_8 =>
      exact ⟨1 + (rest.takeWhile (· = ' ')).length, Nat.lt_add_right _ Nat.one_pos,
        by rw [rest_advance, rest_emit, rest_flush]⟩
    case h_10 =>
      refine ⟨1, by decide, ?_⟩
      rw [rest_advance]
      split <;> rfl
    case h_13 =>
      split
      · exact ⟨2, by decide, by rw [rest_advance, rest_emit, rest_flush]⟩
      · refine ⟨1, by decide, ?_⟩
        split
        · rw [rest_advance, rest_emit, rest_flush]
        · rfl
    all_goals exact ⟨1, by decide, by simp⟩

/-- Every step on a character drops some of the text that is left. -/
theorem rest_step {s : State ρ} (h : s.rest ≠ []) : ∃ n, 0 < n ∧ s.step.rest = s.rest.drop n := by
  unfold step
  split
  · contradiction
  · split
    · exact rest_codeStep s _ _
    · exact rest_quotedStep fun _ => rfl
    · exact rest_quotedStep fun _ => rfl
    · exact ⟨1, by decide, rest_bracketStep s _⟩
    · exact ⟨1, by decide, rest_errorStep s _⟩

theorem length_rest_step_lt {s : State ρ} (h : s.rest ≠ []) : s.step.rest.length < s.rest.length := by
  obtain ⟨n, hn, hr⟩ := rest_step h
  rw [hr]
  exact length_drop_lt h hn

end Recording

end State

end SheetFormula.Scan
