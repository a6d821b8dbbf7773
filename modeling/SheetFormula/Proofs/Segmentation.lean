import Mathlib.Data.List.Chain
import Mathlib.Data.List.TakeWhile
import SheetFormula.Proofs.Vocabulary

/-!
# Segmentation

Where a formula has no quotes, brackets, braces, semicolons and error literals, the scanner cuts it into
tokens and nothing else: the texts of the raw tokens make up the formula again, but for the length of its
runs of spaces, and no two neighbours among them could have been one token. Main statements:

* `Cut.codeStep`: what a scan has cut off so far stays well cut in each step;
* `Segment.countP_sign`: an operand or a name holds at most one sign, that of an exponent;
* `scan_segmentation`: the raw tokens of a whole formula.
-/

namespace SheetFormula

open Scan

/-! ## Texts -/

/-- The text of a raw token in a formula, a run of spaces as one. -/
def Token.rawText (t : Token) : List Char :=
  match t.kind, t.subkind with
  | .function, .start => t.value.toList ++ ['(']
  | .subexpression, .start => ['(']
  | _, .stop => [')']
  | .whitespace, _ => [' ']
  | _, _ => t.value.toList

/-- A text with each of its runs of spaces as one space. -/
def collapseSpaces : List Char → List Char
  | [] => []
  | c :: cs => if c = ' ' ∧ cs.head? = some ' ' then collapseSpaces cs else c :: collapseSpaces cs

theorem collapseSpaces_cons_of_ne {c : Char} (h : c ≠ ' ') (cs : List Char) :
    collapseSpaces (c :: cs) = c :: collapseSpaces cs := by
  rw [collapseSpaces, if_neg fun h' => h h'.1]

/-- A run of spaces is one space. -/
theorem collapseSpaces_run (cs : List Char) :
    collapseSpaces (' ' :: cs) =
      ' ' :: collapseSpaces (cs.drop (cs.takeWhile (· = ' ')).length) := by
  induction cs with
  | nil => rfl
  | cons c cs ih =>
    by_cases hc : c = ' '
    · subst hc
      rw [collapseSpaces, if_pos ⟨rfl, rfl⟩, ih, List.takeWhile_cons_of_pos (by simp),
        List.length_cons, List.drop_succ_cons]
    · rw [collapseSpaces, if_neg (by simp [hc]), List.takeWhile_cons_of_neg (by simpa using hc),
        List.length_nil, List.drop_zero]

/-! ## Segments -/

/-- The characters that begin a literal, a bracket segment or an array, or belong to an array. -/
def interrupters : List Char := ['"', '\x27', '[', '#', '\x7b', '\x7d', ';']

/-- The characters that end an operand or a name wherever they stand. -/
def separators : List Char := [' ', '(', ')', ',', '%', '*', '/', '^', '&', '=', '<', '>']

/-- A sign of a number or between operands. -/
def isSign (c : Char) : Bool := c == '+' || c == '-'

/-- The text of an operand or of a name: it holds nothing that would end it, and a sign only as the sign
of an exponent. -/
structure Segment (cs : List Char) : Prop where
  free : ∀ c ∈ cs, c ∉ separators
  sign : ∀ stem c, stem ++ [c] <+: cs → isSign c = true → Text.isExponentStem stem = true

theorem Segment.nil : Segment [] where
  free := nofun
  sign stem c h := by simp at h

/-- A segment goes on with a character that does not end it. -/
theorem Segment.concat {cs : List Char} {c : Char} (h : Segment cs) (hc : c ∉ separators)
    (hsign : isSign c = true → Text.isExponentStem cs = true) : Segment (cs ++ [c]) where
  free := by
    rw [List.forall_mem_append, List.forall_mem_singleton]
    exact ⟨h.free, hc⟩
  sign stem d hstem hd := by
    rcases List.prefix_concat_iff.1 hstem with heq | hstem
    · obtain ⟨rfl, hcd⟩ := List.append_inj' heq rfl
      obtain rfl := List.singleton_inj.1 hcd
      exact hsign hd
    · exact h.sign stem d hstem hd

/-- The parts of a text that a sign can belong to. -/
theorem parts_of_isExponentStem {cs : List Char} (h : Text.isExponentStem cs = true) :
    ∃ d ds, Text.isDigit d = true ∧ (∀ c ∈ ds, Text.isDigit c = true) ∧
      (cs = [d, 'E'] ∨ cs = d :: '.' :: (ds ++ ['E'])) := by
  cases cs with
  | nil => cases h
  | cons d rest =>
    simp only [Text.isExponentStem, Bool.and_eq_true, decide_eq_true_eq] at h
    obtain ⟨⟨hlow, hhigh⟩, hrest⟩ := h
    have hd : Text.isDigit d = true := by
      simp only [Text.isDigit, Bool.and_eq_true, decide_eq_true_eq]
      exact ⟨Char.le_trans (by decide) hlow, hhigh⟩
    split at hrest
    · rename_i tail
      simp only [Bool.and_eq_true, beq_iff_eq] at hrest
      refine ⟨d, tail.takeWhile Text.isDigit, hd, fun c => List.mem_takeWhile_imp, .inr ?_⟩
      rw [← hrest.2, List.takeWhile_append_dropWhile]
    · exact ⟨d, [], hd, nofun, .inl (congrArg (d :: ·) (eq_of_beq hrest))⟩

/-- What a sign can belong to has no sign in it. -/
theorem isSign_of_mem_stem {cs : List Char} (h : Text.isExponentStem cs = true) {c : Char}
    (hc : c ∈ cs) : isSign c = false := by
  have hdigit : ∀ d, Text.isDigit d = true → isSign d = false := by
    intro d hd
    rw [← Bool.not_eq_true]
    intro hsign
    simp only [isSign, Bool.or_eq_true, beq_iff_eq] at hsign
    rcases hsign with rfl | rfl <;> cases hd
  obtain ⟨d, ds, hd, hds, rfl | rfl⟩ := parts_of_isExponentStem h
  · simp only [List.mem_cons, List.not_mem_nil, or_false] at hc
    rcases hc with rfl | rfl
    · exact hdigit c hd
    · rfl
  · simp only [List.mem_cons, List.mem_append, List.not_mem_nil, or_false] at hc
    rcases hc with rfl | rfl | hc | rfl
    · exact hdigit c hd
    · rfl
    · exact hdigit c (hds c hc)
    · rfl

/-- There is at most one sign in a segment. -/
theorem Segment.countP_sign {cs : List Char} (h : Segment cs) : cs.countP isSign ≤ 1 := by
  cases hfind : cs.find? isSign with
  | none =>
    rw [List.countP_eq_zero.2 (List.find?_eq_none.1 hfind)]
    exact Nat.zero_le 1
  | some c =>
    obtain ⟨hc, before, after, rfl, hbefore⟩ := List.find?_eq_some_iff_append.1 hfind
    have hafter : ∀ d ∈ after, ¬isSign d = true := by
      intro d hd hsign
      obtain ⟨middle, rest, rfl⟩ := List.append_of_mem hd
      have hprefix : (before ++ c :: middle) ++ [d] <+: before ++ c :: (middle ++ d :: rest) :=
        ⟨rest, by simp⟩
      have hnone := isSign_of_mem_stem (h.sign _ d hprefix hsign)
        (List.mem_append_right before List.mem_cons_self)
      exact Bool.noConfusion (hc.symm.trans hnone)
    rw [List.countP_append, List.countP_cons, List.countP_eq_zero.2 hafter,
      List.countP_eq_zero.2 (by simpa using hbefore), if_pos hc]

/-! ## Neighbours -/

/-- The value of the token is an operand or the name of a function. -/
def Token.isNamed (t : Token) : Bool :=
  t.kind == .operand || t.kind == .function && t.subkind == .start

/-- Two neighbours that could not have been one token, nor cut in another place. -/
structure Apart (t u : Token) : Prop where
  /-- An operand ends where something else than an operand, a name or a parenthesis begins. -/
  operand : t.kind = .operand → u.kind ≠ .operand ∧ u.isStart = false
  less : t.isInfix "<" = true → u.rawText.head? ≠ some '=' ∧ u.rawText.head? ≠ some '>'
  greater : t.isInfix ">" = true → u.rawText.head? ≠ some '='
  /-- A sign after the letter of an exponent belongs to the number. -/
  sign : t.kind = .operand → Text.isExponentStem t.value.toList = true →
    u.isInfix "+" = false ∧ u.isInfix "-" = false

/-- The token is complete before a text that is not part of it. -/
structure Complete (t : Token) (cs : List Char) : Prop where
  operand : t.kind ≠ .operand
  less : t.isInfix "<" = true → cs.head? ≠ some '=' ∧ cs.head? ≠ some '>'
  greater : t.isInfix ">" = true → cs.head? ≠ some '='

/-- A token that is complete before a text is apart from the next token that the text is cut into. -/
theorem Complete.apart {t u : Token} {cs : List Char} (h : Complete t cs)
    (hu : u.rawText.head? = cs.head?) : Apart t u where
  operand ht := absurd ht h.operand
  less ht := hu ▸ h.less ht
  greater ht := hu ▸ h.greater ht
  sign ht := absurd ht h.operand

/-- The tokens are segments or delimiters, each apart from the next. -/
structure WellCut (ts : List Token) : Prop where
  segments : ∀ t ∈ ts, t.isNamed = true → Segment t.value.toList
  apart : ts.IsChain Apart

theorem WellCut.concat {ts : List Token} {u : Token} (h : WellCut ts)
    (hlast : ∀ t ∈ ts.getLast?, Apart t u) (hu : u.isNamed = true → Segment u.value.toList) :
    WellCut (ts ++ [u]) where
  segments := by
    rw [List.forall_mem_append, List.forall_mem_singleton]
    exact ⟨h.segments, hu⟩
  apart := List.isChain_append.2 ⟨h.apart, .singleton u, fun t ht v hv => by
    cases hv
    exact hlast t ht⟩

/-! ## The scan -/

namespace Scan.State

/-- The token of the pending text, if there is any. -/
def held (s : State) : List Token :=
  if s.pending = "" then [] else [⟨s.pending, .operand, .plain⟩]

theorem tokens_flush (s : State) : s.flush.tokens = s.tokens ++ s.held := by
  unfold flush held
  split
  · rw [List.append_nil]
  · exact s.tokens_emitPending .operand .plain

end Scan.State

variable {whole rest : List Char} {s s' : State} {c : Char} {d : Token}

/-- What a scan has done of a text without interruptions: what it has passed is cut into the tokens and
the pending text, and the last token is complete. -/
structure Cut (whole : List Char) (s : State) : Prop where
  mode : s.mode = .code
  clean : ∀ c ∈ s.rest, c ∉ interrupters
  text : s.tokens.flatMap Token.rawText ++ (s.pending.toList ++ collapseSpaces s.rest) =
    collapseSpaces whole
  pending : Segment s.pending.toList
  tokens : WellCut s.tokens
  last : ∀ t ∈ s.tokens.getLast?, Complete t (s.pending.toList ++ s.rest)

theorem rawText_held (s : State) : s.held.flatMap Token.rawText = s.pending.toList := by
  unfold State.held
  split
  · rename_i hpending
    rw [hpending]
    rfl
  · exact List.append_nil _

/-- The pending text is a segment apart from the token before it. -/
theorem Cut.wellCut_held (h : Cut whole s) : WellCut (s.tokens ++ s.held) := by
  unfold State.held
  split
  · rw [List.append_nil]
    exact h.tokens
  · rename_i hpending
    have hne : s.pending.toList ≠ [] := by simpa using hpending
    refine h.tokens.concat (fun t ht => (h.last t ht).apart ?_) fun _ => h.pending
    exact (List.head?_append_of_ne_nil _ hne).symm

/-- The token is cut off the front of the text `cs`, of which `rest` is left, with this text pending. -/
structure Delimiter (pending cs rest : List Char) (d : Token) : Prop where
  text : d.rawText ++ collapseSpaces rest = collapseSpaces cs
  head : d.rawText.head? = cs.head?
  named : d.isNamed = false
  start : pending ≠ [] → d.isStart = false
  sign : Text.isExponentStem pending = true → d.isInfix "+" = false ∧ d.isInfix "-" = false
  complete : Complete d rest

/-- A delimiter of one character. -/
theorem delimiter_char {pending : List Char} (hc : c ≠ ' ') (hraw : d.rawText = [c])
    (hnamed : d.isNamed = false) (hstart : pending ≠ [] → d.isStart = false)
    (hsign : Text.isExponentStem pending = true → d.isInfix "+" = false ∧ d.isInfix "-" = false)
    (hd : Complete d rest) : Delimiter pending (c :: rest) rest d where
  text := by rw [hraw, collapseSpaces_cons_of_ne hc, List.singleton_append]
  head := by rw [hraw, List.head?_cons, List.head?_cons]
  named := hnamed
  start := hstart
  sign := hsign
  complete := hd

/-- A delimiter of one character that is no infix operator. -/
theorem delimiter_mark {pending : List Char} (hc : c ≠ ' ') (hraw : d.rawText = [c])
    (hnamed : d.isNamed = false) (hstart : pending ≠ [] → d.isStart = false)
    (hvalue : d.value ∈ ["", ",", "%"]) : Delimiter pending (c :: rest) rest d := by
  have hsymbol : ∀ value ∉ ["", ",", "%"], d.isInfix value = false := by
    intro value hnot
    rw [← Bool.not_eq_true]
    intro h
    simp only [Token.isInfix, Bool.and_eq_true, beq_iff_eq] at h
    exact hnot (h.2 ▸ hvalue)
  simp only [Token.isNamed, Bool.or_eq_false_iff, beq_eq_false_iff_ne] at hnamed
  refine delimiter_char hc hraw (by simpa [Token.isNamed] using hnamed) hstart ?_ ?_
  · exact fun _ => ⟨hsymbol "+" (by decide), hsymbol "-" (by decide)⟩
  · refine ⟨hnamed.1, fun h => ?_, fun h => ?_⟩
    · exact Bool.noConfusion (h.symm.trans (hsymbol "<" (by decide)))
    · exact Bool.noConfusion (h.symm.trans (hsymbol ">" (by decide)))

/-- The end of a scope. -/
theorem delimiter_stop {pending : List Char} {k : Kind} (hk : k.isScope = true) :
    Delimiter pending (')' :: rest) rest ⟨"", k, .stop⟩ := by
  cases k with
  | function | subexpression => exact delimiter_mark (by decide) rfl rfl (fun _ => rfl) (by decide)
  | _ => cases hk

theorem delimiter_comma {pending : List Char} (σ : ScopeStack) :
    Delimiter pending (',' :: rest) rest (commaToken σ) := by
  rcases commaToken_cases σ with h | h <;> rw [h] <;>
    exact delimiter_mark (by decide) rfl rfl (fun _ => rfl) (by decide)

/-- A run of spaces. -/
theorem delimiter_spaces {pending : List Char} :
    Delimiter pending (' ' :: rest) (rest.drop (rest.takeWhile (· = ' ')).length)
      ⟨"", .whitespace, .plain⟩ where
  text := (collapseSpaces_run rest).symm
  head := rfl
  named := rfl
  start _ := rfl
  sign _ := ⟨rfl, rfl⟩
  complete := ⟨nofun, nofun, nofun⟩

theorem comparison_cases (h : isComparisonPair c rest = true) :
    ∃ d rest', rest = d :: rest' ∧ [c, d] ∈ [['<', '='], ['>', '='], ['<', '>']] := by
  unfold isComparisonPair at h
  split at h
  · rename_i rest'
    simp only [Bool.or_eq_true, beq_iff_eq] at h
    exact ⟨'=', rest', rfl, by simpa using h⟩
  · rename_i rest'
    exact ⟨'>', rest', rfl, by simpa using h⟩
  · cases h

/-- A comparison of two characters. -/
theorem delimiter_comparison {pending : List Char} (h : isComparisonPair c rest = true) :
    Delimiter pending (c :: rest) (rest.drop 1) ⟨String.ofList (c :: rest.take 1), .infixOp, .logical⟩ := by
  obtain ⟨d, rest, rfl, hcd⟩ := comparison_cases h
  have hraw : Token.rawText ⟨String.ofList [c, d], .infixOp, .logical⟩ = [c, d] := String.toList_ofList
  have hspace : c ≠ ' ' ∧ d ≠ ' ' := by
    constructor <;> rintro rfl <;> simp at hcd
  have hsymbol : ∀ value ∈ ["+", "-", "<", ">"],
      Token.isInfix ⟨String.ofList [c, d], .infixOp, .logical⟩ value = false := by
    simp only [List.mem_cons, List.cons.injEq, and_true, List.not_mem_nil, or_false] at hcd
    rcases hcd with ⟨rfl, rfl⟩ | ⟨rfl, rfl⟩ | ⟨rfl, rfl⟩ <;> decide
  refine ⟨?_, ?_, rfl, fun _ => rfl, fun _ => ⟨hsymbol "+" (by decide), hsymbol "-" (by decide)⟩, nofun,
    fun h => ?_, fun h => ?_⟩
  · show Token.rawText ⟨String.ofList [c, d], .infixOp, .logical⟩ ++ collapseSpaces rest = _
    rw [hraw, collapseSpaces_cons_of_ne hspace.1, collapseSpaces_cons_of_ne hspace.2]
    rfl
  · show (Token.rawText ⟨String.ofList [c, d], .infixOp, .logical⟩).head? = _
    rw [hraw]
    rfl
  · exact Bool.noConfusion (h.symm.trans (hsymbol "<" (by decide)))
  · exact Bool.noConfusion (h.symm.trans (hsymbol ">" (by decide)))

theorem head?_of_not_comparison (h : isComparisonPair c rest = false) :
    (c = '<' → rest.head? ≠ some '=' ∧ rest.head? ≠ some '>') ∧
      (c = '>' → rest.head? ≠ some '=') := by
  cases rest with
  | nil => exact ⟨fun _ => ⟨nofun, nofun⟩, fun _ => nofun⟩
  | cons d rest =>
    simp only [List.head?_cons, ne_eq, Option.some.injEq]
    refine ⟨?_, ?_⟩
    · rintro rfl
      refine ⟨?_, ?_⟩ <;> rintro rfl <;> cases h
    · rintro rfl rfl
      cases h

/-- An infix operator of one character, where it is neither a sign of the pending text nor the first half
of a comparison. -/
theorem delimiter_operator {pending : List Char} (hc : isInfixChar c = true)
    (hpair : isComparisonPair c rest = false)
    (hsign : isSign c = true → Text.isExponentStem pending = false) :
    Delimiter pending (c :: rest) rest ⟨String.singleton c, .infixOp, .plain⟩ := by
  have hsymbol : ∀ {a : Char}, Token.isInfix ⟨String.singleton c, .infixOp, .plain⟩ (String.singleton a) =
      true → c = a := by
    intro a h
    simp only [Token.isInfix, Bool.and_eq_true, beq_iff_eq] at h
    simpa using congrArg String.toList h.2
  obtain ⟨hless, hgreater⟩ := head?_of_not_comparison hpair
  refine delimiter_char ?_ (String.toList_singleton ..) rfl (fun _ => rfl) (fun hstem => ?_) ?_
  · rintro rfl
    cases hc
  · have hsteady : ∀ a, isSign a = true →
        Token.isInfix ⟨String.singleton c, .infixOp, .plain⟩ (String.singleton a) = false := by
      intro a ha
      rw [← Bool.not_eq_true]
      intro h
      exact Bool.noConfusion (hstem.symm.trans (hsign (hsymbol h ▸ ha)))
    exact ⟨hsteady '+' rfl, hsteady '-' rfl⟩
  · exact ⟨nofun, fun h => hless (hsymbol h), fun h => hgreater (hsymbol h)⟩

/-- Before a delimiter the pending text is put out. -/
theorem Cut.delimit (h : Cut whole s) (hd : Delimiter s.pending.toList s.rest s'.rest d)
    (hmode : s'.mode = .code) (hrest : ∃ n, s'.rest = s.rest.drop n) (hpending : s'.pending = "")
    (htokens : s'.tokens = s.tokens ++ s.held ++ [d]) : Cut whole s' where
  mode := hmode
  clean c hc := by
    obtain ⟨n, hrest⟩ := hrest
    exact h.clean c (List.mem_of_mem_drop (hrest ▸ hc))
  text := by
    rw [← h.text, htokens, hpending, List.flatMap_append, List.flatMap_append, rawText_held,
      List.flatMap_singleton, ← hd.text]
    simp
  pending := by
    rw [hpending]
    exact .nil
  tokens := by
    rw [htokens]
    refine h.wellCut_held.concat (fun t ht => ?_) fun hnamed => ?_
    · unfold State.held at ht
      split at ht
      · rename_i hempty
        rw [List.append_nil] at ht
        refine (h.last t ht).apart ?_
        rw [hempty]
        exact hd.head
      · rename_i hne
        rw [List.getLast?_concat, Option.mem_some_iff] at ht
        subst ht
        have hkind : d.kind ≠ .operand := by
          have hnamed := hd.named
          simp only [Token.isNamed, Bool.or_eq_false_iff, beq_eq_false_iff_ne] at hnamed
          exact hnamed.1
        exact ⟨fun _ => ⟨hkind, hd.start (by simpa using hne)⟩, nofun, nofun, fun _ => hd.sign⟩
    · exact Bool.noConfusion (hd.named.symm.trans hnamed)
  last t ht := by
    rw [htokens, List.getLast?_concat, Option.mem_some_iff] at ht
    rw [hpending, ← ht]
    exact hd.complete

/-- A token is put out before the text that is left. -/
theorem Cut.emit (h : Cut whole s) {n : Nat}
    (hd : Delimiter s.pending.toList s.rest (s.rest.drop n) d) :
    Cut whole ((s.flush.emit d).advance n) := by
  have hrest : ((s.flush.emit d).advance n).rest = s.rest.drop n := by
    rw [State.rest_advance, State.rest_emit, State.rest_flush]
  refine h.delimit (hrest ▸ hd) ?_ ⟨n, hrest⟩ ?_ ?_
  · rw [State.mode_advance, State.mode_emit, State.mode_flush, h.mode]
  · rw [State.pending_advance, State.pending_emit, State.pending_flush]
  · rw [State.tokens_advance, State.tokens_emit, State.tokens_flush]

theorem Cut.closeScope (h : Cut whole s) (hσ : Started s.scopes) (hrest : s.rest = ')' :: rest) :
    Cut whole ((s.flush.closeScope ')').advance 1) := by
  have hleft : ((s.flush.closeScope ')').advance 1).rest = rest := by
    rw [State.rest_advance, State.rest_closeScope, State.rest_flush, hrest]
    rfl
  have hstop : Delimiter s.pending.toList s.rest rest s.scopes.closing := by
    rw [hrest]
    exact delimiter_stop hσ.isScope_closing
  refine h.delimit (hleft ▸ hstop) ?_ ⟨1, by rw [hleft, hrest]; rfl⟩ ?_ ?_
  · rw [State.mode_advance, State.mode_closeScope, State.mode_flush, h.mode]
  · rw [State.pending_advance, State.pending_closeScope, State.pending_flush]
  · rw [State.tokens_advance, State.tokens_closeScope, State.tokens_flush, State.scopes_flush]

/-- A parenthesis that follows no name. -/
theorem Cut.openGroup (h : Cut whole s) (hrest : s.rest = '(' :: rest) (hpending : s.pending = "") :
    Cut whole ((s.openScope "" .subexpression).advance 1) := by
  have hleft : ((s.openScope "" .subexpression).advance 1).rest = rest := by
    rw [State.rest_advance, State.rest_openScope, hrest]
    rfl
  have hgroup : Delimiter s.pending.toList s.rest rest ⟨"", .subexpression, .start⟩ := by
    rw [hrest, hpending]
    exact delimiter_mark (by decide) rfl rfl (fun h => absurd rfl h) (by decide)
  refine h.delimit (hleft ▸ hgroup) h.mode ⟨1, by rw [hleft, hrest]; rfl⟩ hpending ?_
  rw [State.tokens_advance, State.tokens_openScope, State.held, if_pos hpending, List.append_nil]

/-- A name and the parenthesis after it. -/
theorem Cut.openCall (h : Cut whole s) (hrest : s.rest = '(' :: rest) (hpending : s.pending ≠ "") :
    Cut whole (s.openPending.advance 1) where
  mode := h.mode
  clean c hc := h.clean c (List.mem_of_mem_drop hc)
  text := by
    rw [← h.text, State.tokens_advance, State.tokens_openPending, List.flatMap_append, State.rest_advance,
      State.rest_openPending, hrest, collapseSpaces_cons_of_ne (by decide)]
    simp [Token.rawText]
  pending := .nil
  tokens := by
    have hne : s.pending.toList ≠ [] := by simpa using hpending
    rw [State.tokens_advance, State.tokens_openPending]
    refine h.tokens.concat (fun t ht => (h.last t ht).apart ?_) fun _ => h.pending
    exact (List.head?_append_of_ne_nil _ hne).trans (List.head?_append_of_ne_nil _ hne).symm
  last t ht := by
    rw [State.tokens_advance, State.tokens_openPending, List.getLast?_concat, Option.mem_some_iff] at ht
    rw [← ht]
    exact ⟨nofun, nofun, nofun⟩

/-- A character goes on with the pending text. -/
theorem Cut.collect (h : Cut whole s) (hrest : s.rest = c :: rest) (hc : c ∉ separators)
    (hsign : isSign c = true → Text.isExponentStem s.pending.toList = true) :
    Cut whole ((s.collect c).advance 1) := by
  have hpending : ((s.collect c).advance 1).pending.toList = s.pending.toList ++ [c] :=
    String.toList_push ..
  have hleft : ((s.collect c).advance 1).rest = rest := congrArg (List.drop 1) hrest
  have hspace : c ≠ ' ' := fun h => hc (h ▸ List.mem_cons_self)
  refine ⟨h.mode, fun d hd => h.clean d (List.mem_of_mem_drop hd), ?_, ?_, h.tokens, fun t ht => ?_⟩
  · rw [← h.text, hpending, hleft, hrest, collapseSpaces_cons_of_ne hspace, List.append_assoc]
    rfl
  · rw [hpending]
    exact h.pending.concat hc hsign
  · have hlast := h.last t ht
    rwa [hrest, List.append_cons, ← hpending, ← hleft] at hlast

theorem isInfixChar_of_isSign (h : isSign c = true) : isInfixChar c = true := by
  simp only [isSign, Bool.or_eq_true, beq_iff_eq] at h
  rcases h with rfl | rfl <;> rfl

/-- The rules for separators. -/
theorem infix_or_of_mem_separators (h : c ∈ separators) :
    isInfixChar c = true ∨ c = ' ' ∨ c = '%' ∨ c = '(' ∨ c = ',' ∨ c = ')' := by
  simp only [separators, List.mem_cons, List.not_mem_nil, or_false] at h
  rcases h with rfl | rfl | rfl | rfl | rfl | rfl | rfl | rfl | rfl | rfl | rfl | rfl <;> decide

/-- Each step keeps what has been passed well cut. -/
theorem Cut.codeStep (h : Cut whole s) (hσ : Started s.scopes) (hrest : s.rest = c :: rest) :
    Cut whole (s.codeStep c rest) := by
  have hc : c ∉ interrupters := h.clean c (hrest ▸ List.mem_cons_self)
  unfold State.codeStep
  split
  · rename_i hsign
    refine h.collect hrest ?_ fun _ => hsign.2
    rcases hsign.1 with rfl | rfl <;> decide
  · rename_i hsign
    have hsteady : isSign c = true → Text.isExponentStem s.pending.toList = false := by
      intro hc
      rw [← Bool.not_eq_true]
      intro hstem
      refine hsign ⟨?_, hstem⟩
      simpa [isSign] using hc
    split
    case h_8 =>
      refine h.emit ?_
      rw [hrest, Nat.add_comm, List.drop_succ_cons]
      exact delimiter_spaces
    case h_9 =>
      refine h.emit ?_
      rw [hrest]
      exact delimiter_mark (by decide) rfl rfl (fun _ => rfl) (by decide)
    case h_10 =>
      split
      · exact h.openGroup hrest ‹_›
      · exact h.openCall hrest ‹_›
    case h_11 =>
      refine h.emit ?_
      rw [hrest]
      exact delimiter_comma s.scopes
    case h_12 => exact h.closeScope hσ hrest
    case h_13 =>
      split
      · refine h.emit ?_
        rw [hrest]
        exact delimiter_comparison ‹_›
      · split
        · refine h.emit ?_
          rw [hrest]
          exact delimiter_operator ‹_› (by simpa using ‹¬isComparisonPair c rest = true›) hsteady
        · rename_i hsymbol
          refine h.collect hrest (fun hsep => ?_) fun hsign => absurd (isInfixChar_of_isSign hsign) hsymbol
          have hseparator := infix_or_of_mem_separators hsep
          simp_all
    all_goals exact absurd (by decide) hc

/-- Nothing has been passed at the start. -/
theorem cut_start {formula : String} (hrest : (State.start formula).rest = whole)
    (hclean : ∀ c ∈ whole, c ∉ interrupters) : Cut whole (State.start formula) where
  mode := rfl
  clean := by rwa [hrest]
  text := by
    rw [State.tokens_start, hrest]
    rfl
  pending := .nil
  tokens := by
    rw [State.tokens_start]
    exact ⟨List.forall_mem_nil _, .nil⟩
  last := by
    rw [State.tokens_start]
    exact fun _ ht => nomatch ht

/-- A whole run keeps it so. -/
theorem Cut.run (h : Cut whole s) (hs : s.Speaks) : Cut whole s.run := by
  have hstep : ∀ s : State, s.rest ≠ [] → s.Speaks ∧ Cut whole s → s.step.Speaks ∧ Cut whole s.step := by
    intro s hne ⟨hs, h⟩
    obtain ⟨c, rest, hrest⟩ := List.exists_cons_of_ne_nil hne
    have hcode : s.step = s.codeStep c rest := by simp only [State.step, hrest, h.mode]
    refine ⟨State.speaks_step hs, ?_⟩
    rw [hcode]
    exact h.codeStep hs.1 hrest
  exact (State.run_induction hstep ⟨hs, h⟩).2

/-- In the end the pending text is put out, and the tokens are the whole text. -/
theorem Cut.finish (h : Cut whole s) (hs : s.Speaks) :
    s.finish.tokens.flatMap Token.rawText = collapseSpaces whole ∧ WellCut s.finish.tokens := by
  have hrun : Cut whole s.run := h.run hs
  rw [State.finish, State.tokens_flush]
  refine ⟨?_, hrun.wellCut_held⟩
  rw [List.flatMap_append, rawText_held, ← hrun.text, State.rest_run, collapseSpaces, List.append_nil]

/-- The formula is scanned as it is, but for its leading `=`. -/
theorem normalize_equals {cs : List Char} (h : ∀ c ∈ cs.getLast?, Text.isBlank c = false) :
    Scan.normalize ('=' :: cs) = '=' :: cs := by
  have htrim : Text.trim ('=' :: cs) = '=' :: cs := by
    rw [Text.trim, List.dropWhile_cons_of_neg (by decide)]
    rcases List.eq_nil_or_concat cs with rfl | ⟨before, c, rfl⟩
    · rfl
    · rw [List.concat_eq_append, ← List.cons_append]
      exact Text.trimRight_append_singleton (h c (by simp))
  rw [Scan.normalize, htrim]
  rfl

/-- If a formula has nothing in it that interrupts an operand, then its raw tokens spell it, but for the
length of its runs of spaces; each operand and each name is a segment with at most one sign in it; and
neighbours could neither be one token nor be cut in another place. -/
theorem scan_segmentation (s : String) (hclean : ∀ c ∈ s.toList, c ∉ interrupters)
    (hend : ∀ c ∈ s.toList.getLast?, Text.isBlank c = false) :
    let raw := (scan ("=" ++ s)).tokens
    raw.flatMap Token.rawText = collapseSpaces s.toList ∧
      (∀ t ∈ raw, t.isNamed = true → Segment t.value.toList ∧ t.value.toList.countP isSign ≤ 1) ∧
      raw.IsChain Apart := by
  have htext : Scan.normalize ("=" ++ s).toList = '=' :: s.toList := by
    rw [String.toList_append]
    exact normalize_equals hend
  have hrest : (State.start ("=" ++ s)).rest = s.toList := congrArg (List.drop 1) htext
  obtain ⟨hspelled, hcut⟩ := (cut_start hrest hclean).finish (State.speaks_start _)
  refine ⟨hspelled, fun t ht hnamed => ?_, hcut.apart⟩
  have hsegment : Segment t.value.toList := hcut.segments t ht hnamed
  exact ⟨hsegment, hsegment.countP_sign⟩

theorem scan_segmentation_mixed :
    let s := "1.5E+3  <-SUM(A1 ,(2E  +3)%)="
    (∀ c ∈ s.toList, c ∉ interrupters) ∧ (∀ c ∈ s.toList.getLast?, Text.isBlank c = false) ∧
      (scan ("=" ++ s)).tokens.flatMap Token.rawText = "1.5E+3 <-SUM(A1 ,(2E +3)%)=".toList := by
  intro s
  have hclean : ∀ c ∈ s.toList, c ∉ interrupters := by
    have hall : s.toList.all (fun c => !interrupters.contains c) = true := by decide
    simpa using hall
  have hend : ∀ c ∈ s.toList.getLast?, Text.isBlank c = false := by
    have hlast : s.toList.getLast? = some '=' := by decide
    rw [hlast]
    rintro c ⟨⟩
    decide
  refine ⟨hclean, hend, ?_⟩
  rw [(scan_segmentation s hclean hend).1]
  decide

end SheetFormula
