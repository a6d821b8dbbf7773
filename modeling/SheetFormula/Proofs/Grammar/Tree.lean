import SheetFormula.Proofs.Grammar.Lexeme
import SheetFormula.Proofs.ScopeReplay

/-!
# Well-formed formulas

The trees of well-formed formulas, the tokens that a tree stands for, and the ways to write it down:
its lexemes in order, with any spaces between them and at least one space between two operands that
meet. Main statements:

* `Tree.tokens_words`: the tokens of a tree are those of its lexemes and meets;
* `Tree.sentence`: in the lexemes of a tree, each one stands where it may after those before it
  (`Sentence`), which is all that the proofs about the scanner and the passes use of the grammar;
* `layout_last`: a formula that is written down does not end with white space.
-/

namespace SheetFormula.Grammar

open SheetFormula.Scan

/-! ## Trees -/

/-- The sorts of trees. -/
inductive Category where
  /-- An operand that other operands can meet. -/
  | atom
  /-- Some operands that meet. -/
  | meet
  | expr
  /-- One or more expressions with commas between them. -/
  | items (s : Separator)
  /-- The arguments of a call or the elements of a row, if any. -/
  | arguments
  /-- One or more rows. -/
  | rows

/-- A well-formed formula, or a part of one. -/
inductive Tree : Category → Type where
  | literal (l : Literal) : Tree .atom
  | call (n : CallName) (arguments : Tree .arguments) : Tree .atom
  /-- An expression in parentheses, or a union. -/
  | group (members : Tree (.items .union)) : Tree .atom
  | array (body : Tree .rows) : Tree .atom
  | single (a : Tree .atom) : Tree .meet
  /-- One more operand meets those before it. -/
  | meet (left : Tree .meet) (a : Tree .atom) : Tree .meet
  | operands (m : Tree .meet) : Tree .expr
  | unary (s : Sign) (e : Tree .expr) : Tree .expr
  | percent (e : Tree .expr) : Tree .expr
  | binary (left : Tree .expr) (op : BinaryOp) (right : Tree .expr) : Tree .expr
  | item (s : Separator) (e : Tree .expr) : Tree (.items s)
  | items (s : Separator) (e : Tree .expr) (rest : Tree (.items s)) : Tree (.items s)
  | none : Tree .arguments
  | some (members : Tree (.items .argument)) : Tree .arguments
  | row (r : Tree .arguments) : Tree .rows
  | rows (r : Tree .arguments) (rest : Tree .rows) : Tree .rows

/-- The token of a meet. -/
def meetToken : Token := ⟨"", .infixOp, .intersection⟩

/-- The tokens that a tree stands for. -/
def Tree.tokens {c : Category} : Tree c → List Token
  | .literal l => [l.token]
  | .call n arguments =>
    ⟨String.ofList n.name, .function, .start⟩ :: (arguments.tokens ++ [callEnd])
  | .group members =>
    ⟨"", .subexpression, .start⟩ :: (members.tokens ++ [⟨"", .subexpression, .stop⟩])
  | .array body => arrayToken :: rowToken :: (body.tokens ++ [callEnd, callEnd])
  | .single a => a.tokens
  | .meet left a => left.tokens ++ meetToken :: a.tokens
  | .operands m => m.tokens
  | .unary .plus e => e.tokens
  | .unary .minus e => ⟨"-", .prefixOp, .plain⟩ :: e.tokens
  | .percent e => e.tokens ++ [⟨"%", .postfixOp, .plain⟩]
  | .binary left op right => left.tokens ++ op.token :: right.tokens
  | .item _ e => e.tokens
  | .items s e rest => e.tokens ++ s.token :: rest.tokens
  | .none => []
  | .some members => members.tokens
  | .row r => r.tokens
  | .rows r rest => r.tokens ++ callEnd :: argumentToken :: rowToken :: rest.tokens

/-! ## Writing a tree down -/

/-- A lexeme in its place. -/
structure Word where
  /-- The operand that begins here meets the one before it. -/
  meets : Bool
  lexeme : Lexeme

/-- The tokens of a lexeme in its place. -/
def Word.tokens (w : Word) : List Token :=
  (if w.meets then [meetToken] else []) ++ w.lexeme.tokens

/-- Some lexemes, of which the first meets what stands before them. -/
def meeting : List Word → List Word
  | [] => []
  | w :: ws => { w with meets := true } :: ws

/-- The lexemes of a tree in order. -/
def Tree.words {c : Category} : Tree c → List Word
  | .literal l => [⟨false, .literal l⟩]
  | .call n arguments => ⟨false, .call n⟩ :: (arguments.words ++ [⟨false, .endCall⟩])
  | .group members => ⟨false, .group⟩ :: (members.words ++ [⟨false, .endGroup⟩])
  | .array body => ⟨false, .array⟩ :: (body.words ++ [⟨false, .endArray⟩])
  | .single a => a.words
  | .meet left a => left.words ++ meeting a.words
  | .operands m => m.words
  | .unary s e => ⟨false, .sign s⟩ :: e.words
  | .percent e => e.words ++ [⟨false, .percent⟩]
  | .binary left op right => left.words ++ ⟨false, .binary op⟩ :: right.words
  | .item _ e => e.words
  | .items s e rest => e.words ++ ⟨false, .comma s⟩ :: rest.words
  | .none => []
  | .some members => members.words
  | .row r => r.words
  | .rows r rest => r.words ++ ⟨false, .row⟩ :: rest.words

/-- The number of spaces before a lexeme, of which `spaces` are not needed. -/
def Word.gap (w : Word) (spaces : Nat) : Nat := spaces + w.meets.toNat

/-- Where two operands meet, there is a space. -/
theorem Word.meets_of_gap_eq_zero {w : Word} {spaces : Nat} (h : w.gap spaces = 0) :
    w.meets = false := by
  cases hm : w.meets with
  | false => rfl
  | true => simp [gap, hm] at h

/-- Some lexemes as text, with spaces before each of them as `pad` says. -/
def layout (pad : Nat → Nat) : List Word → List Char
  | [] => []
  | w :: ws =>
    List.replicate (w.gap (pad 0)) ' ' ++ (w.lexeme.spelling ++ layout (fun i => pad (i + 1)) ws)

/-- A formula as text, with spaces before its lexemes as `pad` says, and some spaces at its end. -/
def formulaText (e : Tree .expr) (pad : Nat → Nat) (trailing : Nat) : String :=
  String.ofList ('=' :: (layout pad e.words ++ List.replicate trailing ' '))

/-! ## Where a lexeme may stand -/

/-- What stands before a lexeme. -/
inductive Side where
  /-- An operand is expected. -/
  | before
  /-- An operand is complete, and another can meet it. -/
  | atom
  /-- An expression is complete. -/
  | value
deriving DecidableEq

/-- What stands before the next lexeme. -/
def Lexeme.after : Lexeme → Side
  | .literal _ | .endCall | .endGroup | .endArray => .atom
  | .percent => .value
  | _ => .before

/-- The lexeme may stand after `side`. -/
def Lexeme.Stands (side : Side) (meets : Bool) : Lexeme → Prop
  | .literal _ | .call _ | .group | .array => side = if meets then .atom else .before
  | .sign _ => side = .before ∧ meets = false
  | .binary _ => side ≠ .before ∧ meets = false
  | _ => meets = false

/-- The lexeme may stand where these scopes are open. -/
def Lexeme.Nests (σ : ScopeStack) : Lexeme → Prop
  | .endCall | .row => σ.topKind? = some .function
  | .endGroup => σ.topKind? = some .subexpression
  | .endArray => σ.topKind? = some .function ∧ σ.pop.topKind? = some .function
  | .comma s => commaToken σ = s.token
  | _ => True

/-- Each of some lexemes may stand where it does, and no scope is open after the last. -/
def Sentence (side : Side) (σ : ScopeStack) : List Word → Prop
  | [] => σ.isEmpty = true
  | w :: ws =>
    w.lexeme.Stands side w.meets ∧ w.lexeme.Nests σ ∧
      Sentence w.lexeme.after (σ.replay w.lexeme.raw) ws

/-! ## The lexemes of a tree -/

/-- An atom begins with a lexeme that begins an operand. -/
theorem Tree.words_atom (a : Tree .atom) :
    ∃ l ws, a.words = ⟨false, l⟩ :: ws ∧ l.begins = true := by
  cases a with
  | literal l => exact ⟨.literal l, [], rfl, rfl⟩
  | call n arguments => exact ⟨.call n, _, rfl, rfl⟩
  | group members => exact ⟨.group, _, rfl, rfl⟩
  | array body => exact ⟨.array, _, rfl, rfl⟩

/-- The tokens of a tree are those of its lexemes and meets. -/
theorem Tree.tokens_words {c : Category} (t : Tree c) : t.words.flatMap Word.tokens = t.tokens := by
  induction t with
  | meet left a ihleft iha =>
    obtain ⟨l, ws, ha, -⟩ := a.words_atom
    have hmeets : (meeting a.words).flatMap Word.tokens = meetToken :: a.tokens := by
      rw [← iha, ha]
      rfl
    rw [words, tokens, List.flatMap_append, ihleft, hmeets]
  | unary s e ih => cases s <;> simp [words, tokens, Word.tokens, Lexeme.tokens, ih]
  | _ => simp [words, tokens, Word.tokens, Lexeme.tokens, Lexeme.raw, *]

variable {σ : ScopeStack} {ws rest : List Word}

/-- What the lexemes of a tree rely on: commas have the meaning that they have in the tree, and a row can
end. -/
def Category.Suits (σ : ScopeStack) : Category → Prop
  | .items s => commaToken σ = s.token
  | .arguments => commaToken σ = argumentToken
  | .rows => ∃ ρ : ScopeStack, σ = ρ.push rowToken
  | _ => True

/-- What may stand before the lexeme after a tree. -/
def Category.Ends (side : Side) : Category → Prop
  | .atom | .meet => side = .atom
  | .expr => side ≠ .before
  | _ => True

theorem Sentence.meeting {l : Lexeme} (hl : l.begins = true)
    (h : Sentence .before σ (⟨false, l⟩ :: ws)) : Sentence .atom σ (⟨true, l⟩ :: ws) := by
  refine ⟨?_, h.2⟩
  cases l with
  | literal _ | call _ | group | array => rfl
  | _ => cases hl

theorem Lexeme.replay_literal (l : Literal) : σ.replay (Lexeme.literal l).raw = σ := by
  cases l <;> rfl

theorem Lexeme.replay_comma (s : Separator) : σ.replay (Lexeme.comma s).raw = σ := by
  cases s <;> rfl

/-- The lexemes of a tree may stand where an operand is expected, if those after them may stand after a
tree of its sort. -/
theorem Tree.sentence {c : Category} (t : Tree c) (hσ : c.Suits σ)
    (hrest : ∀ side, c.Ends side → Sentence side σ rest) : Sentence .before σ (t.words ++ rest) := by
  induction t generalizing σ rest with
  | literal l => exact ⟨rfl, trivial, by rw [Lexeme.replay_literal]; exact hrest .atom rfl⟩
  | call n arguments ih =>
    refine ⟨rfl, trivial, ?_⟩
    rw [List.append_eq, List.append_assoc]
    exact ih rfl fun side _ => ⟨rfl, rfl, hrest .atom rfl⟩
  | group members ih =>
    refine ⟨rfl, trivial, ?_⟩
    rw [List.append_eq, List.append_assoc]
    exact ih rfl fun side _ => ⟨rfl, rfl, hrest .atom rfl⟩
  | array body ih =>
    refine ⟨rfl, trivial, ?_⟩
    rw [List.append_eq, List.append_assoc]
    exact ih ⟨_, rfl⟩ fun side _ => ⟨rfl, ⟨rfl, rfl⟩, hrest .atom rfl⟩
  | single a ih => exact ih trivial hrest
  | meet left a ihleft iha =>
    obtain ⟨l, ws, ha, hl⟩ := a.words_atom
    have hright : Sentence .before σ (a.words ++ rest) := iha trivial hrest
    rw [words, List.append_assoc]
    refine ihleft trivial fun side hside => ?_
    rw [ha] at hright ⊢
    rw [hside]
    exact hright.meeting hl
  | operands m ih => exact ih trivial fun side hside => hrest side fun h => nomatch hside.symm.trans h
  | unary s e ih => exact ⟨⟨rfl, rfl⟩, trivial, ih trivial hrest⟩
  | percent e ih =>
    rw [words, List.append_assoc]
    exact ih trivial fun side _ => ⟨rfl, trivial, hrest .value fun h => nomatch h⟩
  | binary left op right ihleft ihright =>
    rw [words, List.append_assoc]
    exact ihleft trivial fun side hside => ⟨⟨hside, rfl⟩, trivial, ihright trivial hrest⟩
  | item s e ih => exact ih trivial fun side _ => hrest side trivial
  | items s e members ihe ihmembers =>
    rw [words, List.append_assoc]
    refine ihe trivial fun side _ => ⟨rfl, hσ, ?_⟩
    rw [Lexeme.replay_comma]
    exact ihmembers hσ hrest
  | none => exact hrest .before trivial
  | some members ih => exact ih hσ hrest
  | row r ih =>
    obtain ⟨ρ, rfl⟩ := hσ
    exact ih rfl hrest
  | rows r others ihr ihothers =>
    obtain ⟨ρ, rfl⟩ := hσ
    rw [words, List.append_assoc]
    exact ihr rfl fun side _ => ⟨rfl, rfl, ihothers ⟨ρ, rfl⟩ hrest⟩

/-- The lexemes of a whole formula may stand where they do. -/
theorem Tree.sentence_expr (e : Tree .expr) : Sentence .before {} e.words := by
  rw [← List.append_nil e.words]
  exact e.sentence trivial fun _ _ => rfl

/-! ## The end of a formula -/

/-- What is written down does not end with white space. -/
theorem layout_last (pad : Nat → Nat) (ws : List Word) :
    layout pad ws = [] ∨ ∃ cs c, layout pad ws = cs ++ [c] ∧ Text.isBlank c = false := by
  induction ws generalizing pad with
  | nil => exact .inl rfl
  | cons w ws ih =>
    right
    rw [layout]
    rcases ih fun i => pad (i + 1) with hnil | ⟨cs, c, hs, hc⟩
    · obtain ⟨cs, c, hs, hc⟩ := w.lexeme.spelling_last
      refine ⟨List.replicate (w.gap (pad 0)) ' ' ++ cs, c, ?_, hc⟩
      rw [hnil, List.append_nil, hs, List.append_assoc]
    · refine ⟨List.replicate (w.gap (pad 0)) ' ' ++ (w.lexeme.spelling ++ cs), c, ?_, hc⟩
      rw [hs, List.append_assoc, List.append_assoc]

end SheetFormula.Grammar
