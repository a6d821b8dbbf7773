import SheetFormula.Proofs.Grammar.Exact

/-!
# Parsing what was rendered

The tokens of a well-formed formula are rendered as a well-formed formula again, one that is written
with as little as it takes: arrays as calls, no unary plus signs, no marks on the names of functions, and
no more spaces than the operands need that meet. Main statements:

* `Tree.tokens_bare`: the tree that is written so stands for the same tokens;
* `Word.chars_tokens`: each of its lexemes is written as its tokens are rendered;
* `render_tokens`: so rendering the tokens of a tree writes down its bare tree;
* `parse_render`: parsing and rendering again gives the same tokens and the same text.

Text between quotes is rendered with its quotes undone: a path without any, a text literal with one pair
around it. So what is rendered can be read again if there are no paths and no quotes in texts.
-/

namespace SheetFormula.Grammar

open SheetFormula.Scan

/-! ## Bare trees -/

/-- The sort of a tree when it is written with as little as it takes: rows are arguments of a call. -/
@[reducible] def Category.bare : Category → Category
  | .rows => .items .argument
  | c => c

/-- The name without the mark of an explicit call. -/
def CallName.bare (n : CallName) : CallName := { n with marked := false }

/-- The name of an array written as a call. -/
def arrayCall : CallName where
  marked := false
  name := arrayName.toList
  nonempty := by decide
  plain := List.all_eq_true.1 (by decide)
  unmarked := by decide

/-- The name of a row written as a call. -/
def rowCall : CallName where
  marked := false
  name := rowName.toList
  nonempty := by decide
  plain := List.all_eq_true.1 (by decide)
  unmarked := by decide

/-- The tree written with as little as it takes. -/
def Tree.bare : {c : Category} → Tree c → Tree c.bare
  | _, .literal l => .literal l
  | _, .call n arguments => .call n.bare arguments.bare
  | _, .group members => .group members.bare
  | _, .array body => .call arrayCall (.some body.bare)
  | _, .single a => .single a.bare
  | _, .meet left a => .meet left.bare a.bare
  | _, .operands m => .operands m.bare
  | _, .unary .plus e => e.bare
  | _, .unary .minus e => .unary .minus e.bare
  | _, .percent e => .percent e.bare
  | _, .binary left op right => .binary left.bare op right.bare
  | _, .item s e => .item s e.bare
  | _, .items s e rest => .items s e.bare rest.bare
  | _, .none => .none
  | _, .some members => .some members.bare
  | _, .row r => .item .argument (.operands (.single (.call rowCall r.bare)))
  | _, .rows r rest => .items .argument (.operands (.single (.call rowCall r.bare))) rest.bare

/-- The tokens of a tree, where rows are calls. -/
def Category.wrap (ts : List Token) : Category → List Token
  | .rows => rowToken :: (ts ++ [callEnd])
  | _ => ts

/-- A tree and its bare tree stand for the same tokens. -/
theorem Tree.tokens_bare {c : Category} (t : Tree c) : t.bare.tokens = c.wrap t.tokens := by
  induction t with
  | literal l => rfl
  | call n arguments ih => exact congrArg (fun ts => _ :: (ts ++ [callEnd])) ih
  | group members ih => exact congrArg (fun ts => _ :: (ts ++ [_])) ih
  | array body ih =>
    show arrayToken :: (body.bare.tokens ++ [callEnd]) =
      arrayToken :: rowToken :: (body.tokens ++ [callEnd, callEnd])
    rw [ih, Category.wrap, List.cons_append, List.append_assoc]
    rfl
  | single a ih => exact ih
  | meet left a ihleft iha =>
    show left.bare.tokens ++ meetToken :: a.bare.tokens = left.tokens ++ meetToken :: a.tokens
    rw [ihleft, iha]
    rfl
  | operands m ih => exact ih
  | unary s e ih =>
    cases s with
    | plus => exact ih
    | minus => exact congrArg (List.cons _) ih
  | percent e ih => exact congrArg (fun ts => ts ++ [_]) ih
  | binary left op right ihleft ihright =>
    show left.bare.tokens ++ op.token :: right.bare.tokens = left.tokens ++ op.token :: right.tokens
    rw [ihleft, ihright]
    rfl
  | item s e ih => exact ih
  | items s e rest ihe ihrest =>
    show e.bare.tokens ++ s.token :: rest.bare.tokens = e.tokens ++ s.token :: rest.tokens
    rw [ihe, ihrest]
    rfl
  | none => rfl
  | some members ih => exact ih
  | row r ih => exact congrArg (fun ts => rowToken :: (ts ++ [callEnd])) ih
  | rows r rest ihr ihrest =>
    show rowToken :: (r.bare.tokens ++ [callEnd]) ++ argumentToken :: rest.bare.tokens =
      rowToken :: ((r.tokens ++ callEnd :: argumentToken :: rowToken :: rest.tokens) ++ [callEnd])
    rw [ihr, ihrest]
    simp [Category.wrap]

/-! ## Lexemes as they are rendered -/

/-- The operand has no quotes that are undone: no path, and no quotes in a text. -/
def Literal.Unquoted : Literal → Prop
  | .operand o => o.path = none
  | .text s => '"' ∉ s.toList
  | _ => True

/-- The lexeme is no operand with quotes that are undone. -/
def Lexeme.Unquoted : Lexeme → Prop
  | .literal l => l.Unquoted
  | _ => True

instance (l : Literal) : Decidable l.Unquoted :=
  match l with
  | .operand o => inferInstanceAs (Decidable (o.path = none))
  | .text s => inferInstanceAs (Decidable ('"' ∉ s.toList))
  | .scientific _ | .error _ _ => .isTrue trivial

instance (l : Lexeme) : Decidable l.Unquoted :=
  match l with
  | .literal l => inferInstanceAs (Decidable l.Unquoted)
  | .call _ | .group | .array | .endCall | .endGroup | .endArray | .row | .comma _ | .sign _ |
    .binary _ | .percent => .isTrue trivial

/-- The lexeme is written as its tokens are rendered. -/
def Lexeme.Bare : Lexeme → Prop
  | .literal l => l.Unquoted
  | .call n => n.marked = false
  | .array | .endArray | .row => False
  | .sign s => s = .minus
  | _ => True

/-- The characters of some rendered tokens. -/
def chars (ts : List Token) : List Char := ts.flatMap fun t => t.spelling.toList

/-- A text without the quote is not changed by doubling. -/
theorem doubled_of_not_mem {quote : Char} {cs : List Char} (h : quote ∉ cs) :
    doubled quote cs = cs := by
  induction cs with
  | nil => rfl
  | cons c cs ih =>
    rw [List.mem_cons, not_or] at h
    rw [doubled, List.flatMap_cons, if_neg (Ne.symm h.1), ← doubled, ih h.2]
    rfl

/-- An operand is rendered as its value. -/
theorem spelling_operand (value : String) :
    Token.spelling ⟨value, .operand, Stream.operandSubkind value⟩ = value := by
  unfold Stream.operandSubkind
  split
  · rfl
  · split <;> rfl

theorem Literal.chars_token (l : Literal) (h : l.Unquoted) : chars [l.token] = l.spelling := by
  cases l with
  | operand o =>
    have hpath : o.path = none := h
    rw [chars, List.flatMap_singleton, token, spelling_operand, String.toList_ofList, spelling,
      Operand.value, Operand.spelling, hpath]
    rfl
  | scientific n => exact (List.append_nil _).trans String.toList_ofList
  | text s =>
    show ("\"" ++ s ++ "\"").toList ++ [] = '"' :: (doubled '"' s.toList ++ ['"'])
    rw [doubled_of_not_mem h, List.append_nil, String.toList_append, String.toList_append]
    rfl
  | error s hs => exact List.append_nil _

/-- A bare lexeme is written as its tokens are rendered. -/
theorem Lexeme.chars_tokens (l : Lexeme) (h : l.Bare) : chars l.tokens = l.spelling := by
  cases l with
  | literal l => exact l.chars_token h
  | call n =>
    have hmarked : n.marked = false := h
    show (String.ofList n.name ++ "(").toList ++ [] = n.spelling ++ ['(']
    rw [List.append_nil, String.toList_append, String.toList_ofList, CallName.spelling, hmarked]
    rfl
  | array | endArray | row => exact h.elim
  | comma s => cases s <;> rfl
  | sign s =>
    cases s with
    | plus => cases h
    | minus => rfl
  | binary op => cases op <;> rfl
  | _ => rfl

theorem chars_append (ts us : List Token) : chars (ts ++ us) = chars ts ++ chars us :=
  List.flatMap_append

/-- A bare lexeme in its place is written as its tokens are rendered, after no more spaces than needed. -/
theorem Word.chars_tokens (w : Word) (h : w.lexeme.Bare) :
    chars w.tokens = List.replicate (w.gap 0) ' ' ++ w.lexeme.spelling := by
  obtain ⟨meets, lexeme⟩ := w
  rw [tokens, chars_append, lexeme.chars_tokens h]
  cases meets <;> rfl

theorem chars_words (ws : List Word) (h : ∀ w ∈ ws, w.lexeme.Bare) :
    chars (ws.flatMap Word.tokens) = layout (fun _ => 0) ws := by
  induction ws with
  | nil => rfl
  | cons w ws ih =>
    rw [List.forall_mem_cons] at h
    rw [List.flatMap_cons, chars_append, w.chars_tokens h.1, ih h.2, layout, List.append_assoc]

/-! ## Bare trees as they are rendered -/

theorem forall_mem_meeting {P : Lexeme → Prop} {ws : List Word} :
    (∀ w ∈ meeting ws, P w.lexeme) ↔ ∀ w ∈ ws, P w.lexeme := by
  cases ws with
  | nil => exact Iff.rfl
  | cons w ws => rw [meeting, List.forall_mem_cons, List.forall_mem_cons]

/-- Some lexemes between two others. -/
theorem forall_mem_between {P : Word → Prop} {first last : Word} {ws : List Word} :
    (∀ w ∈ first :: (ws ++ [last]), P w) ↔ P first ∧ (∀ w ∈ ws, P w) ∧ P last := by
  rw [List.forall_mem_cons, List.forall_mem_append, List.forall_mem_singleton]

/-- Some lexemes with another after them and then more. -/
theorem forall_mem_around {P : Word → Prop} {w : Word} {ws us : List Word} :
    (∀ v ∈ ws ++ w :: us, P v) ↔ (∀ v ∈ ws, P v) ∧ P w ∧ ∀ v ∈ us, P v := by
  rw [List.forall_mem_append, List.forall_mem_cons]

/-- The lexemes of a bare tree are bare, if the operands have no quotes that are undone. -/
theorem Tree.bare_words {c : Category} (t : Tree c) (h : ∀ w ∈ t.words, w.lexeme.Unquoted) :
    ∀ w ∈ t.bare.words, w.lexeme.Bare := by
  induction t with
  | literal l => exact List.forall_mem_singleton.2 (h _ List.mem_cons_self)
  | call n arguments ih =>
    exact forall_mem_between.2 ⟨rfl, ih (forall_mem_between.1 h).2.1, trivial⟩
  | group members ih => exact forall_mem_between.2 ⟨trivial, ih (forall_mem_between.1 h).2.1, trivial⟩
  | array body ih => exact forall_mem_between.2 ⟨rfl, ih (forall_mem_between.1 h).2.1, trivial⟩
  | single a ih => exact ih h
  | meet left a ihleft iha =>
    obtain ⟨hleft, ha⟩ := List.forall_mem_append.1 h
    exact List.forall_mem_append.2 ⟨ihleft hleft, forall_mem_meeting.2 (iha (forall_mem_meeting.1 ha))⟩
  | operands m ih => exact ih h
  | unary s e ih =>
    have he := ih (List.forall_mem_cons.1 h).2
    cases s with
    | plus => exact he
    | minus => exact List.forall_mem_cons.2 ⟨rfl, he⟩
  | percent e ih =>
    exact List.forall_mem_append.2 ⟨ih (List.forall_mem_append.1 h).1, List.forall_mem_singleton.2 trivial⟩
  | binary left op right ihleft ihright =>
    obtain ⟨hleft, -, hright⟩ := forall_mem_around.1 h
    exact forall_mem_around.2 ⟨ihleft hleft, trivial, ihright hright⟩
  | item s e ih => exact ih h
  | items s e rest ihe ihrest =>
    obtain ⟨he, -, hrest⟩ := forall_mem_around.1 h
    exact forall_mem_around.2 ⟨ihe he, trivial, ihrest hrest⟩
  | none => exact fun _ hw => nomatch hw
  | some members ih => exact ih h
  | row r ih => exact forall_mem_between.2 ⟨rfl, ih h, trivial⟩
  | rows r rest ihr ihrest =>
    obtain ⟨hr, -, hrest⟩ := forall_mem_around.1 h
    exact forall_mem_around.2 ⟨forall_mem_between.2 ⟨rfl, ihr hr, trivial⟩, trivial, ihrest hrest⟩

/-- Rendering the tokens of a tree writes down its bare tree, with no more spaces than needed. -/
theorem render_tokens {e : Tree .expr} (h : ∀ w ∈ e.words, w.lexeme.Unquoted) :
    "=" ++ render e.tokens = formulaText e.bare (fun _ => 0) 0 := by
  have hbare : e.bare.tokens = e.tokens := e.tokens_bare
  have hchars : chars e.tokens = layout (fun _ => 0) e.bare.words := by
    rw [← hbare, ← e.bare.tokens_words]
    exact chars_words e.bare.words (e.bare_words h)
  rw [← String.toList_inj, String.toList_append, toList_render, ← chars, hchars,
    formulaText, String.toList_ofList, String.toList_ofList, List.replicate_zero, List.append_nil]
  rfl

/-! ## Parsing again -/

theorem tokens_formulaText (p : ScanPreferences) (e : Tree .expr) (pad : Nat → Nat) (trailing : Nat) :
    (parse p (formulaText e pad trailing)).tokens = e.tokens := by
  obtain ⟨σ, -, hend⟩ := scan_formulaText e pad trailing
  have hraw : (parse p (formulaText e pad trailing)).raw = rawTokens pad e.words := hend.tokens
  rw [tokens_parse, hraw, outcomes_rawTokens e.sentence_expr ⟨rfl, rfl⟩, e.tokens_words]

/-- What is rendered of a well-formed formula without paths and without quotes in texts, however it is
spaced, is its bare tree written down with no more spaces than needed. Parsing that again gives the same
tokens, and so rendering it again gives the same text. -/
theorem parse_render (p : ScanPreferences) (e : Tree .expr) (pad : Nat → Nat) (trailing : Nat)
    (h : ∀ w ∈ e.words, w.lexeme.Unquoted) :
    let r := parse p (formulaText e pad trailing)
    let again := parse p ("=" ++ r.render)
    "=" ++ r.render = formulaText e.bare (fun _ => 0) 0 ∧ again.tokens = r.tokens ∧
      again.render = r.render := by
  intro r again
  have hr : r.tokens = e.tokens := tokens_formulaText p e pad trailing
  have htext : "=" ++ r.render = formulaText e.bare (fun _ => 0) 0 := by
    rw [Parsed.render, hr]
    exact render_tokens h
  have hagain : again.tokens = r.tokens := by
    show (parse p ("=" ++ r.render)).tokens = r.tokens
    rw [htext, hr]
    exact (tokens_formulaText p e.bare _ _).trans e.tokens_bare
  refine ⟨htext, hagain, ?_⟩
  rw [Parsed.render, Parsed.render, hagain]

/-- An operand of one character. -/
def letter (c : Char) (h : isPlain c = true) (hc : Text.isExponentStem [c] = false) : Tree .atom :=
  .literal (.operand
    { path := none, pieces := [.plain c h], nonempty := List.cons_ne_nil _ _, steady := hc })

/-- A tree with an array, a sign that does nothing, a marked name and two operands that meet. -/
def mixedTree : Tree .expr :=
  let argument : Tree .atom → Tree (.items .argument) := fun a => .item _ (.operands (.single a))
  let number : Tree .atom := .literal (.scientific
    { lead := '1', fraction := none, sign := .plus, exponent := ['5'], isLead := by decide,
      isFraction := nofun, isExponent := by decide })
  let rows : Tree .rows :=
    .rows (.some (.items _ (.operands (.single (letter 'A' (by decide) (by decide)))) (argument number)))
      (.row (.some (argument (.literal (.text "x")))))
  let meet : Tree .meet :=
    .meet (.single (letter 'B' (by decide) (by decide))) (.literal (.error "#REF!" (by decide)))
  .unary .plus (.percent (.operands (.single (.call
    { marked := true, name := ['S', 'U', 'M'], nonempty := by decide,
      plain := List.all_eq_true.1 (by decide), unmarked := by decide }
    (.some (.items _ (.operands (.single (.array rows)))
      (.item _ (.unary .minus (.operands meet)))))))))

theorem parse_render_mixed :
    let text := "= + @SUM( \x7b A , 1E+5 ; \"x\" \x7d , - B  #REF! ) % "
    let r := parse {} text
    (∀ w ∈ mixedTree.words, w.lexeme.Unquoted) ∧ formulaText mixedTree (fun _ => 1) 1 = text ∧
      "=" ++ r.render = "=SUM(ARRAY(ARRAYROW(A,1E+5),ARRAYROW(\"x\")),-B #REF!)%" ∧
      (parse {} ("=" ++ r.render)).tokens = r.tokens := by
  intro text r
  have h : ∀ w ∈ mixedTree.words, w.lexeme.Unquoted := by decide
  have htext : formulaText mixedTree (fun _ => 1) 1 = text := by decide
  obtain ⟨hrender, htokens, -⟩ := parse_render {} mixedTree (fun _ => 1) 1 h
  rw [htext] at hrender htokens
  exact ⟨h, htext, hrender.trans (by decide), htokens⟩

end SheetFormula.Grammar
