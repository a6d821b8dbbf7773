import SheetFormula.Proofs.Ledger
import SheetFormula.Proofs.Segmentation

/-!
# Compact formulas

A formula is compact if it has no white space, no quotes, braces and semicolons, and no marks of explicit
calls. However malformed it is, each of its characters is in the text of exactly one token: the scanner
recovers from a fault by putting out what it has as another kind of token, and the passes change kinds
and subkinds only. So the final tokens render the formula again, unless a unary plus was removed. Main
statements:

* `Spelling.codeStep`: a step outside the literals adds the characters that it passes to the tokens and
  the pending text;
* `scan_compact`: the raw tokens spell the formula;
* `Stream.spelling_outcome`: what the passes make of a token is rendered as the token was written;
* `render_parse_compact`: rendering the parsed formula gives it back.
-/

namespace SheetFormula

open Scan

/-- The characters, other than white space, that may be rendered in another way than they were written. -/
def layoutMarks : List Char := ['"', '\x27', '\x7b', '\x7d', ';', '@']

/-- A character that is neither white space nor one of these. -/
def IsCompact (c : Char) : Prop := Text.isBlank c = false ∧ c ∉ layoutMarks

instance (c : Char) : Decidable (IsCompact c) := inferInstanceAs (Decidable (_ ∧ _))

namespace Scan.State

variable {whole cs ds rest : List Char} {s t u : State} {c : Char} {d : Token}

/-! ## What the operations spell -/

/-- The text of what was put out and of what is pending. -/
def spelled (s : State) : List Char := s.tokens.flatMap Token.rawText ++ s.pending.toList

/-- The second state spells what the first one does and some characters more, without a text literal. -/
structure Adds (s : State) (cs : List Char) (t : State) : Prop where
  spelled : t.spelled = s.spelled ++ cs
  untexted : (∀ d ∈ s.tokens, d.subkind ≠ .text) → ∀ d ∈ t.tokens, d.subkind ≠ .text

theorem Adds.refl (s : State) : Adds s [] s where
  spelled := (List.append_nil _).symm
  untexted := id

theorem Adds.trans (h : Adds s cs t) (h' : Adds t ds u) : Adds s (cs ++ ds) u where
  spelled := by rw [h'.spelled, h.spelled, List.append_assoc]
  untexted hs := h'.untexted (h.untexted hs)

theorem Adds.advance (h : Adds s cs t) (n : Nat) : Adds s cs (t.advance n) := ⟨h.spelled, h.untexted⟩

theorem Adds.enter (h : Adds s cs t) (mode : Mode) : Adds s cs (t.enter mode) :=
  ⟨h.spelled, h.untexted⟩

/-- A token is put out whose text is the pending one and some characters more. -/
theorem adds_of_concat (htokens : t.tokens = s.tokens ++ [d])
    (hraw : d.rawText = s.pending.toList ++ cs) (hpending : t.pending = "")
    (hd : d.subkind ≠ .text) : Adds s cs t where
  spelled := by
    rw [State.spelled, State.spelled, htokens, hpending, List.flatMap_append, List.flatMap_singleton,
      hraw]
    simp
  untexted hs := by
    rw [htokens, List.forall_mem_append, List.forall_mem_singleton]
    exact ⟨hs, hd⟩

theorem adds_emitPending {k : Kind} {v : Subkind}
    (hraw : Token.rawText ⟨s.pending, k, v⟩ = s.pending.toList) (hv : v ≠ .text) :
    Adds s [] (s.emitPending k v) :=
  adds_of_concat (s.tokens_emitPending k v) (hraw.trans (List.append_nil _).symm) rfl hv

theorem adds_flush (s : State) : Adds s [] s.flush := by
  unfold flush
  split
  · exact .refl s
  · exact adds_emitPending rfl nofun

theorem adds_flushStray (s : State) (c : Char) : Adds s [] (s.flushStray c) := by
  unfold flushStray
  split
  · exact .refl s
  · refine adds_of_concat (d := ⟨s.pending, .unknown, .plain⟩) ?_ (List.append_nil _).symm rfl nofun
    rw [tokens_emitPending, tokens_note]
    simp [Entry.token?, note]

theorem Adds.collect (h : Adds s cs t) (c : Char) : Adds s (cs ++ [c]) (t.collect c) where
  spelled := by
    rw [State.spelled, tokens_collect, pending_collect, String.toList_push, ← List.append_assoc,
      ← List.append_assoc, ← h.spelled]
    rfl
  untexted := h.untexted

/-- A token is put out after the pending text. -/
theorem adds_flush_emit (s : State) (hd : d.subkind ≠ .text) :
    Adds s d.rawText (s.flush.emit d) := by
  refine (adds_flush s).trans (adds_of_concat (s.flush.tokens_emit d) ?_ s.pending_flush hd)
  rw [pending_flush]
  rfl

theorem rawText_closing (σ : ScopeStack) : σ.closing.rawText = [')'] := by
  rw [ScopeStack.closing]
  cases σ.topKind?.getD .function <;> rfl

/-- A scope is closed after the pending text. -/
theorem adds_flush_closeScope (s : State) (c : Char) : Adds s [')'] (s.flush.closeScope c) := by
  have hpending : (s.flush.closeScope c).pending = "" := by rw [pending_closeScope, pending_flush]
  refine (adds_flush s).trans (adds_of_concat (s.flush.tokens_closeScope c) ?_ hpending nofun)
  rw [rawText_closing, pending_flush]
  rfl

/-- A scope is opened, with the pending text as its name. -/
theorem adds_open (s : State) :
    Adds s ['('] (if s.pending = "" then s.openScope "" .subexpression else s.openPending) := by
  split
  · rename_i hpending
    refine adds_of_concat (s.tokens_openScope "" .subexpression) ?_ hpending nofun
    rw [hpending]
    rfl
  · exact adds_of_concat s.tokens_openPending rfl rfl nofun

/-! ## What a scan spells -/

/-- What a scan has done of a compact text: the tokens and the pending text spell what it has passed. -/
structure Spelling (whole : List Char) (s : State) : Prop where
  mode : s.mode ≠ .text ∧ s.mode ≠ .path
  clean : ∀ c ∈ s.rest, IsCompact c
  text : s.spelled ++ s.rest = whole
  untexted : ∀ d ∈ s.tokens, d.subkind ≠ .text

/-- The characters that are passed are added. -/
theorem Spelling.add (h : Spelling whole s) (hadds : Adds s cs t) (hrest : s.rest = cs ++ t.rest)
    (hmode : t.mode ≠ .text ∧ t.mode ≠ .path) : Spelling whole t where
  mode := hmode
  clean c hc := h.clean c (by rw [hrest]; exact List.mem_append_right cs hc)
  text := by rw [← h.text, hadds.spelled, hrest, List.append_assoc]
  untexted := hadds.untexted h.untexted

theorem Spelling.bracketStep (h : Spelling whole s) (hmode : s.mode = .bracket)
    (hrest : s.rest = c :: rest) : Spelling whole (s.bracketStep c) := by
  unfold State.bracketStep
  split
  · refine h.add ((((Adds.refl s).enter .code).collect c).advance 1) ?_ ?_
    · simp [hrest]
    · simp
  · refine h.add (((Adds.refl s).collect c).advance 1) ?_ ?_
    · simp [hrest]
    · simp [hmode]

theorem Spelling.errorStep (h : Spelling whole s) (hmode : s.mode = .error)
    (hrest : s.rest = c :: rest) : Spelling whole (s.errorStep c) := by
  have hmore : Spelling whole ((s.collect c).advance 1) := by
    refine h.add (((Adds.refl s).collect c).advance 1) ?_ ?_
    · simp [hrest]
    · simp [hmode]
  unfold State.errorStep
  dsimp only
  split
  · refine hmore.add (((Adds.refl _).enter .code).trans (adds_emitPending rfl nofun)) rfl ?_
    simp
  · exact hmore

theorem Spelling.codeStep (h : Spelling whole s) (hmode : s.mode = .code)
    (hrest : s.rest = c :: rest) : Spelling whole (s.codeStep c rest) := by
  have hc : IsCompact c := h.clean c (by rw [hrest]; exact List.mem_cons_self)
  have hcollect : Spelling whole ((s.collect c).advance 1) := by
    refine h.add (((Adds.refl s).collect c).advance 1) ?_ ?_
    · simp [hrest]
    · simp [hmode]
  have hemit : ∀ d : Token, d.subkind ≠ .text → d.rawText = [c] →
      Spelling whole ((s.flush.emit d).advance 1) := by
    intro d hd hraw
    refine h.add ((adds_flush_emit s hd).advance 1) ?_ ?_
    · simp [hrest, hraw]
    · simp [hmode]
  unfold State.codeStep
  split
  · exact hcollect
  · split
    case h_3 =>
      refine h.add ((((Adds.refl s).enter .bracket).collect '[').advance 1) ?_ ?_
      · simp [hrest]
      · simp
    case h_4 =>
      refine h.add ((((adds_flushStray s '#').enter .error).collect '#').advance 1) ?_ ?_
      · simp [hrest]
      · simp
    case h_9 => exact hemit _ (by decide) rfl
    case h_10 =>
      refine h.add ((adds_open s).advance 1) ?_ ?_
      · split <;> simp [hrest]
      · split <;> simp [hmode]
    case h_11 =>
      rcases commaToken_cases s.scopes with hcomma | hcomma <;> rw [hcomma]
      · exact hemit _ (by decide) rfl
      · exact hemit _ (by decide) rfl
    case h_12 =>
      refine h.add ((adds_flush_closeScope s ')').advance 1) ?_ ?_
      · simp [hrest]
      · simp [hmode]
    case h_13 =>
      split
      · rename_i hpair
        obtain ⟨d, rest, rfl, -⟩ := comparison_cases hpair
        refine h.add ((adds_flush_emit s (by simp)).advance 2) ?_ ?_
        · simp [hrest, Token.rawText]
        · simp [hmode]
      · split
        · exact hemit _ (by simp) (String.toList_singleton ..)
        · exact hcollect
    all_goals exact absurd hc (by decide)

/-- A step passes no character without adding it. -/
theorem Spelling.step (h : Spelling whole s) : Spelling whole s.step := by
  unfold State.step
  split
  · exact h
  · split
    · exact h.codeStep ‹_› ‹_›
    · exact absurd ‹_› h.mode.1
    · exact absurd ‹_› h.mode.2
    · exact h.bracketStep ‹_› ‹_›
    · exact h.errorStep ‹_› ‹_›

/-- In the end the tokens spell the whole text. -/
theorem Spelling.finish (h : Spelling whole s) :
    s.finish.tokens.flatMap Token.rawText = whole ∧ ∀ d ∈ s.finish.tokens, d.subkind ≠ .text := by
  have hrun : Spelling whole s.run := run_induction (fun _ _ h => h.step) h
  have hflush := adds_flush s.run
  refine ⟨?_, hflush.untexted hrun.untexted⟩
  have hspelled := hflush.spelled
  rw [List.append_nil, State.spelled, pending_flush] at hspelled
  rw [← hrun.text, s.rest_run, List.append_nil, ← hspelled]
  exact (List.append_nil _).symm

end Scan.State

/-- A raw token whose text shows all there is to it. -/
structure Token.Compact (t : Token) : Prop where
  word : Scan.Vocabulary t
  untexted : t.subkind ≠ .text
  clean : ∀ c ∈ t.rawText, IsCompact c

/-- The raw tokens of a compact formula spell it. -/
theorem Scan.scan_compact {s : String} (hs : ∀ c ∈ s.toList, IsCompact c) :
    (scan ("=" ++ s)).tokens.flatMap Token.rawText = s.toList ∧
      ∀ t ∈ (scan ("=" ++ s)).tokens, t.Compact := by
  have htext : normalize ("=" ++ s).toList = '=' :: s.toList := by
    rw [String.toList_append]
    exact normalize_equals fun c hc => (hs c (List.mem_of_mem_getLast? hc)).1
  have hrest : (State.start ("=" ++ s)).rest = s.toList := congrArg (List.drop 1) htext
  have hstart : State.Spelling s.toList (State.start ("=" ++ s)) :=
    { mode := ⟨nofun, nofun⟩
      clean := by rwa [hrest]
      text := hrest
      untexted := List.forall_mem_nil _ }
  obtain ⟨hspelled, huntexted⟩ := hstart.finish
  refine ⟨hspelled, fun t ht => ⟨vocabulary_of_mem_scan ht, huntexted t ht, fun c hc => hs c ?_⟩⟩
  rw [← hspelled]
  exact List.mem_flatMap.2 ⟨t, ht, hc⟩

/-- A token whose text shows all there is to it is no run of spaces. -/
theorem Token.Compact.kind_ne_whitespace {t : Token} (ht : t.Compact) : t.kind ≠ .whitespace := by
  obtain ⟨hword, -, hclean⟩ := ht
  intro hkind
  cases hword with
  | spaces => exact absurd (hclean ' ' List.mem_cons_self) (by decide)
  | stop h => cases hkind; cases h
  | _ => cases hkind

namespace Stream

variable {follows meets : Bool} {t u : Token}

/-- A name without the mark of an explicit call is kept. -/
theorem dropCallMark_of_not_mem {name : String} (h : '@' ∉ name.toList) : dropCallMark name = name := by
  unfold dropCallMark
  split
  · rename_i hname
    rw [hname] at h
    exact absurd List.mem_cons_self h
  · rfl

/-- What the passes make of such a token is rendered as the token was written. -/
theorem spelling_outcome (ht : t.Compact) (hu : outcome follows meets t = some u) :
    u.spelling.toList = t.rawText := by
  obtain ⟨hword, huntexted, hclean⟩ := ht
  cases hword with
  | @operand value h =>
    cases hu
    have hkind : operandSubkind value ≠ .text := operandSubkind_ne (by decide) value
    show (Token.spelling ⟨value, .operand, operandSubkind value⟩).toList = value.toList
    unfold Token.spelling
    split <;> simp_all
  | text value => exact absurd rfl huntexted
  | error h => cases hu; rfl
  | unknown h => cases hu; rfl
  | call name =>
    cases hu
    have hmark : '@' ∉ name.toList := fun h =>
      absurd (hclean '@' (List.mem_append_left _ h)) (by decide)
    show (dropCallMark name ++ "(").toList = name.toList ++ ['(']
    rw [dropCallMark_of_not_mem hmark, String.toList_append]
    rfl
  | group => cases hu; rfl
  | @stop kind h =>
    cases kind with
    | function | subexpression => cases hu; rfl
    | _ => cases h
  | argument => cases hu; rfl
  | union => cases hu; rfl
  | operator h =>
    simp only [List.mem_cons, List.not_mem_nil, or_false] at h
    -- only the two signs depend on what stands before them
    rcases h with rfl | rfl | rfl | rfl | rfl | rfl | rfl | rfl | rfl <;> cases follows <;>
      cases hu <;> rfl
  | comparison h =>
    simp only [List.mem_cons, List.not_mem_nil, or_false] at h
    rcases h with rfl | rfl | rfl <;> cases hu <;> rfl
  | percent => cases hu; rfl
  | spaces => exact absurd (hclean ' ' List.mem_cons_self) (by decide)

/-- If no token is dropped, the outcomes are rendered as the tokens were written. -/
theorem Outcomes.flatMap_spelling {ts : List Token} {os : List (Option Token)}
    (hos : Outcomes ts os) (hts : ∀ t ∈ ts, t.Compact)
    (hkept : ∀ fate ∈ ts.zip os, fate.2.isSome = true) :
    (os.filterMap id).flatMap (·.spelling.toList) = ts.flatMap Token.rawText := by
  induction hos with
  | nil => rfl
  | @cons t o ts os ho hos ih =>
    obtain ⟨follows, meets, ho⟩ := ho
    rw [List.forall_mem_cons] at hts
    rw [List.zip_cons_cons, List.forall_mem_cons] at hkept
    obtain ⟨u, rfl⟩ := Option.isSome_iff_exists.1 hkept.1
    rw [filterMap_id_cons, List.flatMap_append, ih hts.2 hkept.2, List.flatMap_cons,
      ← spelling_outcome hts.1 ho, Option.toList_some, List.flatMap_singleton]

end Stream

/-- If a formula has no white space, no quotes, braces and semicolons and no marks of explicit calls, and
no unary plus was removed from it, then its final tokens render it again, however malformed it is. -/
theorem render_parse_compact (p : ScanPreferences) (s : String) (hs : ∀ c ∈ s.toList, IsCompact c)
    (hnoops : (parse p ("=" ++ s)).metrics.noopsRemoved = 0) : (parse p ("=" ++ s)).render = s := by
  obtain ⟨hspelled, hcompact⟩ := scan_compact hs
  have hkept : ∀ fate ∈ (parse p ("=" ++ s)).fates, fate.2.isSome = true := by
    intro fate hfate
    rw [noopsRemoved_parse, List.countP_eq_zero] at hnoops
    have hkind := (hcompact fate.1 (List.of_mem_zip hfate).1).kind_ne_whitespace
    simpa [hkind, Option.isSome_iff_ne_none] using hnoops fate hfate
  have hchars := (outcomes_raw p ("=" ++ s)).flatMap_spelling hcompact hkept
  rw [← String.toList_inj, Parsed.render, toList_render, tokens_eq_outcomes, hchars]
  exact hspelled

theorem render_parse_compact_malformed :
    let s := "A1)((#REF![x(y]-1E+3,<=)+-#N/"
    (∀ c ∈ s.toList, IsCompact c) ∧ (parse {} ("=" ++ s)).metrics.noopsRemoved = 0 ∧
      (parse {} ("=" ++ s)).render = s := by
  intro s
  have hs : ∀ c ∈ s.toList, IsCompact c := by
    have hall : s.toList.all (fun c => decide (IsCompact c)) = true := by decide
    simpa using hall
  have hnoops : (parse {} ("=" ++ s)).metrics.noopsRemoved = 0 := by decide +kernel
  exact ⟨hs, hnoops, render_parse_compact {} s hs hnoops⟩

end SheetFormula
