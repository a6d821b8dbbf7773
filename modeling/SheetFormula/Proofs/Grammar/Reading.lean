import SheetFormula.Proofs.Grammar.Passes
import SheetFormula.Proofs.Grammar.Visits

/-!
# Scanning a well-formed formula

A scan of lexemes that may stand where they do comes by each place between two of them, with the raw
tokens of those before it put out or pending (`Reads`). Main statements:

* `Reads.gap`, `Reads.lexeme`: the scan of the spaces before a lexeme, and of the lexeme;
* `reads_layout`: the scan of a whole formula puts out the raw tokens of its lexemes and leaves no scope
  open.
-/

namespace SheetFormula.Grammar

open SheetFormula.Scan

/-- The scan that ends in `stop` comes to the text `rest` between two lexemes, with these tokens put out
or pending. A sign does not belong to the pending text, and if `fresh`, nothing is pending. -/
def Reads (stop : State) (fresh : Bool) (rest : List Char) (σ : ScopeStack) (raw : List Token) : Prop :=
  ∃ pending out, Visits stop .code rest pending σ out ∧ out ++ held pending = raw ∧
    Text.isExponentStem pending = false ∧ (fresh = true → pending = [])

variable {stop : State} {fresh : Bool} {rest : List Char} {σ : ScopeStack} {raw out : List Token}

theorem Visits.reads (h : Visits stop .code rest [] σ out) (fresh : Bool) :
    Reads stop fresh rest σ out :=
  ⟨[], out, h, List.append_nil out, rfl, fun _ => rfl⟩

/-- Pending text that makes an operand. -/
theorem Visits.reads_operand {value : List Char} (h : Visits stop .code rest value σ out)
    (hne : value ≠ []) (hsteady : Text.isExponentStem value = false) :
    Reads stop false rest σ (out ++ [⟨String.ofList value, .operand, .plain⟩]) :=
  ⟨value, out, h, by rw [held, if_neg hne], hsteady, nofun⟩

/-- Spaces between two lexemes. -/
theorem Reads.gap (n : Nat) (hrest : rest.head? ≠ some ' ')
    (h : Reads stop fresh (List.replicate n ' ' ++ rest) σ raw) :
    Reads stop (fresh || n != 0) rest σ (raw ++ gapTokens n) := by
  cases n with
  | zero =>
    rw [gapTokens, if_pos rfl, List.append_nil]
    simpa using h
  | succ n =>
    obtain ⟨pending, out, h, rfl, -, -⟩ := h
    exact (h.spaces n hrest).reads _

/-! ## Lexemes -/

/-- The text after a lexeme does not go on with it: it does not complete a comparison or double a
quote. -/
structure Side.Clear (rest : List Char) (side : Side) : Prop where
  before : side = .before → rest.head? ≠ some '=' ∧ rest.head? ≠ some '>'
  atom : side = .atom → rest.head? ≠ some '"' ∧ rest.head? ≠ some '\x27'

theorem Visits.pieces {pending : List Char} (qs : List Piece)
    (h : Visits stop .code (qs.flatMap Piece.spelling ++ rest) pending σ out) :
    Visits stop .code rest (pending ++ qs.flatMap Piece.spelling) σ out := by
  induction qs generalizing pending with
  | nil => rwa [List.flatMap_nil, List.append_nil]
  | cons q qs ih =>
    rw [List.flatMap_cons, List.append_assoc] at h
    rw [List.flatMap_cons, ← List.append_assoc]
    refine ih ?_
    cases q with
    | plain c hc => exact h.plains fun d hd => List.mem_singleton.1 hd ▸ hc
    | bracket cs hcs =>
      rw [Piece.spelling, List.cons_append, List.append_assoc] at h
      exact h.bracketText hcs

theorem head?_pieces (qs : List Piece) (hrest : rest.head? ≠ some '\x27') :
    (qs.flatMap Piece.spelling ++ rest).head? ≠ some '\x27' := by
  cases qs with
  | nil => exact hrest
  | cons q qs =>
    obtain ⟨c, cs, hq, hc⟩ := q.spelling_head
    rw [List.flatMap_cons, hq, List.append_assoc, List.cons_append, List.head?_cons]
    rcases hc with hc | rfl
    · exact fun h => ne_of_isPlain hc (by decide) (Option.some.inj h)
    · decide

theorem Reads.operand (o : Operand) (hrest : rest.head? ≠ some '\x27')
    (h : Visits stop .code (o.spelling ++ rest) [] σ out) :
    Reads stop false rest σ (out ++ [⟨String.ofList o.value, .operand, .plain⟩]) := by
  have hvalue : Visits stop .code rest o.value σ out := by
    rw [Operand.spelling, List.append_assoc] at h
    rw [Operand.value]
    cases hpath : o.path with
    | none =>
      rw [hpath] at h
      exact h.pieces o.pieces
    | some cs =>
      rw [hpath, Operand.pathSpelling, List.cons_append, List.append_assoc] at h
      exact (h.quotedPath (head?_pieces o.pieces hrest)).pieces o.pieces
  exact hvalue.reads_operand o.nonempty o.steady

theorem codeStep_exponentSign {s : State} (sign : Sign)
    (hstem : Text.isExponentStem s.pending.toList = true) :
    s.codeStep sign.char rest = (s.collect sign.char).advance 1 := by
  have hsign : sign.char = '+' ∨ sign.char = '-' := by cases sign <;> decide
  unfold State.codeStep
  rw [if_pos ⟨hsign, hstem⟩]

theorem Reads.scientific (n : Scientific) (h : Visits stop .code (n.value ++ rest) [] σ out) :
    Reads stop false rest σ (out ++ [⟨String.ofList n.value, .operand, .plain⟩]) := by
  have hstem : ∀ c ∈ n.stem, isPlain c = true := n.isPlain_stem
  have hexponent : ∀ c ∈ n.exponent, isPlain c = true := fun c hc =>
    isPlain_of_isDigit ((isDigits_iff.1 n.isExponent).2 c hc)
  rw [Scientific.value, List.append_assoc, List.cons_append] at h
  have hsign : Visits stop .code (n.exponent ++ rest) (n.stem ++ [n.sign.char]) σ out := by
    refine (h.plains hstem).step fun s hs => ?_
    have hpending : Text.isExponentStem s.pending.toList = true := by
      rw [hs.pending, String.toList_ofList]
      exact n.isExponentStem_stem
    rw [hs.step_code, codeStep_exponentSign n.sign hpending]
    exact (hs.collect n.sign.char).advance 1
  have hvalue : Visits stop .code rest n.value σ out := by
    rw [Scientific.value, List.append_cons]
    exact hsign.plains hexponent
  exact hvalue.reads_operand (List.cons_ne_nil _ _) n.isExponentStem_value

theorem Reads.literal (l : Literal) (hrest : Side.Clear rest .atom)
    (h : Visits stop .code (l.spelling ++ rest) [] σ out) :
    Reads stop false rest σ (out ++ [l.raw]) := by
  cases l with
  | operand o => exact Reads.operand o (hrest.atom rfl).2 h
  | scientific n => exact Reads.scientific n h
  | text s =>
    rw [Literal.spelling, List.cons_append, List.append_assoc] at h
    have htext := h.quotedText (hrest.atom rfl).1
    rw [String.ofList_toList] at htext
    exact htext.reads false
  | error s hs => exact (Visits.errorLiteral hs h).reads false

theorem closing_of_topKind? {k : Kind} (h : σ.topKind? = some k) :
    σ.isEmpty = false ∧ σ.closing = ⟨"", k, .stop⟩ := by
  obtain ⟨scopes⟩ := σ
  cases scopes with
  | nil => cases h
  | cons t ts =>
    refine ⟨rfl, ?_⟩
    rw [ScopeStack.closing, h]
    rfl

theorem Reads.close {k : Kind} (hk : σ.topKind? = some k) (h : Reads stop fresh (')' :: rest) σ raw) :
    Reads stop false rest σ.pop (raw ++ [⟨"", k, .stop⟩]) := by
  obtain ⟨pending, out, h, rfl, -, -⟩ := h
  obtain ⟨hσ, hclosing⟩ := closing_of_topKind? hk
  have hclosed := h.close hσ
  rw [hclosing] at hclosed
  exact hclosed.reads false

theorem CallName.isPlain_spelling (n : CallName) :
    n.spelling ≠ [] ∧ ∀ c ∈ n.spelling, isPlain c = true := by
  obtain ⟨marked, name, hne, hname, -⟩ := n
  cases marked with
  | false => exact ⟨hne, hname⟩
  | true =>
    refine ⟨List.cons_ne_nil _ _, fun c hc => ?_⟩
    rcases List.mem_cons.1 hc with rfl | hc
    · decide
    · exact hname c hc

theorem Reads.binary (op : BinaryOp) (hrest : Side.Clear rest .before)
    (h : Reads stop fresh (op.spelling ++ rest) σ raw) :
    Reads stop true rest σ (raw ++ [⟨String.ofList op.spelling, .infixOp, op.rawSubkind⟩]) := by
  obtain ⟨pending, out, h, rfl, hsteady, -⟩ := h
  obtain ⟨heq, hgt⟩ := hrest.before rfl
  have hsingle : ∀ c, isComparisonPair c rest = false := by
    intro c
    unfold isComparisonPair
    split
    · exact absurd rfl heq
    · exact absurd rfl hgt
    · rfl
  cases op with
  | le | ge | ne => exact (h.pair (by decide) rfl hsteady).reads true
  | _ => exact (h.operator (by decide) (hsingle _) hsteady).reads true

theorem isComparisonPair_sign (s : Sign) : isComparisonPair s.char rest = false := by
  unfold isComparisonPair
  cases s <;> split <;> rfl

/-- A lexeme that may stand where it does is put out as its raw tokens, or is pending. -/
theorem Reads.lexeme {l : Lexeme} (hl : l.Nests σ) (hfresh : l.begins = true → fresh = true)
    (hrest : l.after.Clear rest) (h : Reads stop fresh (l.spelling ++ rest) σ raw) :
    Reads stop (l.after == .before) rest (σ.replay l.raw) (raw ++ l.raw) := by
  have ⟨pending, out, hvisit, hraw, hsteady, hpending⟩ := h
  have hopen : l.begins = true → Visits stop .code (l.spelling ++ rest) [] σ raw := by
    intro hbegins
    have hnil := hpending (hfresh hbegins)
    subst hnil
    rw [← hraw, held, if_pos rfl, List.append_nil]
    exact hvisit
  cases l with
  | literal l =>
    rw [Lexeme.replay_literal]
    exact Reads.literal l hrest (hopen rfl)
  | call n =>
    obtain ⟨hne, hplain⟩ := n.isPlain_spelling
    have hname := hopen rfl
    rw [Lexeme.spelling, List.append_assoc] at hname
    exact ((hname.plains hplain).call hne).reads true
  | group => exact (hopen rfl).group.reads true
  | array => exact (hopen rfl).array.reads true
  | endCall => exact Reads.close hl h
  | endGroup => exact Reads.close hl h
  | endArray =>
    obtain ⟨hσ, hclosing⟩ := closing_of_topKind? hl.1
    obtain ⟨hpop, hclosing'⟩ := closing_of_topKind? hl.2
    have hclosed := hvisit.closeArray hσ hpop
    rw [hclosing, hclosing', hraw] at hclosed
    exact hclosed.reads false
  | row =>
    obtain ⟨hσ, hclosing⟩ := closing_of_topKind? hl
    have hnext := hvisit.row hσ
    rw [hclosing, hraw] at hnext
    exact hnext.reads true
  | comma s =>
    have hcomma := hvisit.comma
    rw [show commaToken σ = s.token from hl, hraw] at hcomma
    rw [Lexeme.replay_comma]
    exact hcomma.reads true
  | sign s =>
    have hsign := hvisit.operator (by cases s <;> decide) (isComparisonPair_sign s) hsteady
    rw [hraw] at hsign
    exact hsign.reads true
  | binary op => exact Reads.binary op hrest h
  | percent =>
    rw [← hraw]
    exact hvisit.percent.reads false

/-! ## Whole formulas -/

variable {side : Side} {ws : List Word}

theorem Side.clear_cons {c : Char} (hbefore : side = .before → c ≠ '=' ∧ c ≠ '>')
    (hatom : side = .atom → c ≠ '"' ∧ c ≠ '\x27') : side.Clear (c :: rest) where
  before h := by simpa using hbefore h
  atom h := by simpa using hatom h

/-- A lexeme does not go on with the one before it, if no space has to stand between them. -/
theorem Lexeme.Stands.clear {l : Lexeme} (h : l.Stands side false) (rest : List Char) :
    side.Clear (l.spelling ++ rest) := by
  rcases h.cases with ⟨hbegins, rfl⟩ | ⟨hbegins, -⟩
  · obtain ⟨c, cs, hs, -, hc⟩ := Lexeme.spelling_head_of_begins hbegins
    rw [hs]
    exact Side.clear_cons (fun _ => hc) nofun
  · obtain ⟨c, cs, hs, -, hdouble, hsingle, hc⟩ := Lexeme.spelling_head_of_not_begins hbegins
    rw [hs]
    refine Side.clear_cons (fun hside => hc ?_) fun _ => ⟨hdouble, hsingle⟩
    rintro op rfl
    exact h.1 hside

theorem Lexeme.head?_spelling (l : Lexeme) (rest : List Char) :
    (l.spelling ++ rest).head? ≠ some ' ' := by
  obtain ⟨c, cs, hs, hc⟩ : ∃ c cs, l.spelling = c :: cs ∧ c ≠ ' ' := by
    cases hbegins : l.begins with
    | true =>
      obtain ⟨c, cs, hs, hc, -⟩ := Lexeme.spelling_head_of_begins hbegins
      exact ⟨c, cs, hs, hc⟩
    | false =>
      obtain ⟨c, cs, hs, hc, -⟩ := Lexeme.spelling_head_of_not_begins hbegins
      exact ⟨c, cs, hs, hc⟩
  rw [hs, List.cons_append, List.head?_cons]
  exact fun h => hc (Option.some.inj h)

/-- What follows a lexeme does not go on with it. -/
theorem Sentence.clear (h : Sentence side σ ws) (pad : Nat → Nat) : side.Clear (layout pad ws) := by
  cases ws with
  | nil => exact ⟨fun _ => ⟨nofun, nofun⟩, fun _ => ⟨nofun, nofun⟩⟩
  | cons w ws =>
    obtain ⟨hw, -, -⟩ := h
    rw [layout]
    by_cases hgap : w.gap (pad 0) = 0
    · rw [Word.meets_of_gap_eq_zero hgap] at hw
      rw [hgap, List.replicate_zero, List.nil_append]
      exact hw.clear _
    · obtain ⟨n, hn⟩ := Nat.exists_eq_succ_of_ne_zero hgap
      rw [hn, List.replicate_succ, List.cons_append]
      exact Side.clear_cons (fun _ => by decide) fun _ => by decide

/-- Where an operand begins, nothing is pending after the spaces before it. -/
theorem Lexeme.Stands.before_or_gap {w : Word} (h : w.lexeme.Stands side w.meets) (spaces : Nat)
    (hbegins : w.lexeme.begins = true) : (side == .before || w.gap spaces != 0) = true := by
  rcases h.cases with ⟨-, rfl⟩ | ⟨hnot, -⟩
  · cases hm : w.meets with
    | false => rfl
    | true => simp [Word.gap, hm]
  · exact Bool.noConfusion (hnot.symm.trans hbegins)

/-- The scan of lexemes that may stand where they do puts out their raw tokens, and leaves no scope
open. -/
theorem reads_layout (hws : Sentence side σ ws) (pad : Nat → Nat)
    (h : Reads stop (side == .before) (layout pad ws) σ raw) :
    ∃ fresh σ', σ'.isEmpty = true ∧ Reads stop fresh [] σ' (raw ++ rawTokens pad ws) := by
  induction ws generalizing side σ raw pad with
  | nil => exact ⟨_, σ, hws, by rwa [rawTokens, List.append_nil]⟩
  | cons w ws ih =>
    obtain ⟨hw, hnests, hrest⟩ := hws
    have hgap := h.gap (w.gap (pad 0)) (w.lexeme.head?_spelling _)
    rw [rawTokens, ← List.append_assoc, ← List.append_assoc]
    exact ih hrest _ (hgap.lexeme hnests (Lexeme.Stands.before_or_gap hw _) (hrest.clear _))

end SheetFormula.Grammar
