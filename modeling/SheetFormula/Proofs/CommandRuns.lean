import SheetFormula.CommandLine.Run
import SheetFormula.Proofs.Recording

/-!
# What a run of the command prints

A run works on its formulas one after the other with one parser. What it prints of a formula does not
depend on the formulas before, whether they passed the check or not: on the standard output it is what a
run on this formula alone prints. So the standard output of a run is put together from those of the
single formulas, with and without the check; only the exit code and the error output tell that some
formula failed. Main statements:

* `Job.formula_eq`: what is printed of one formula, and the progress after it;
* `Job.formulas_eq`: what is printed of all formulas, and the end of the run;
* `Job.lines_eq_formulas`: lines of the input are formulas too, unless they are blank;
* `Options.parse_strict_cons`: arguments with and without the request for checks;
* `run_account`: so what every run that gets to its formulas prints, and how it exits.
-/

namespace SheetFormula.CommandLine

/-! ## The standard output of some pieces -/

/-- What a piece prints on the standard output. -/
def Piece.outText : Piece → String
  | .out text => text
  | .err _ => ""

/-- What some pieces print on the standard output. -/
def outTexts (pieces : List Piece) : String := String.join (pieces.map Piece.outText)

theorem stdout_eq (r : Result) : r.stdout = outTexts r.pieces := by
  have hfoldl : r.stdout = r.pieces.foldl (fun text p => text ++ p.outText) "" := by
    unfold Result.stdout
    congr 1
    funext text p
    cases p with
    | out s => rfl
    | err s => exact String.append_empty.symm
  rw [hfoldl, outTexts, String.join, List.foldl_map]

theorem outTexts_append (a b : List Piece) : outTexts (a ++ b) = outTexts a ++ outTexts b := by
  rw [outTexts, List.map_append, String.join_append]
  rfl

@[simp] theorem outTexts_cons (p : Piece) (pieces : List Piece) :
    outTexts (p :: pieces) = p.outText ++ outTexts pieces :=
  String.join_cons

/-- Pieces for the error output only print nothing on the standard output. -/
theorem outTexts_of_errors {pieces : List Piece} (h : ∀ p ∈ pieces, p.outText = "") :
    outTexts pieces = "" := by
  induction pieces with
  | nil => rfl
  | cons p pieces ih =>
    rw [outTexts_cons, h p List.mem_cons_self, ih fun q hq => h q (List.mem_cons_of_mem _ hq)]
    rfl

/-- Events are shown on the error output. -/
theorem outText_of_mem_showEvents {log : Log.LogPreferences} {now : String} {events : List Log.Event}
    {p : Piece} (h : p ∈ showEvents log now events) : p.outText = "" := by
  obtain ⟨e, -, he⟩ := List.mem_filterMap.1 h
  obtain ⟨line, -, rfl⟩ := Option.map_eq_some_iff.1 he
  rfl

@[simp] theorem outTexts_showEvents (log : Log.LogPreferences) (now : String)
    (events : List Log.Event) : outTexts (showEvents log now events) = "" :=
  outTexts_of_errors fun _ => outText_of_mem_showEvents

theorem outTexts_opening (w : World) (o : Options) (s : Settings) (setup : Log.Setup) :
    outTexts (opening w o s setup) = "" := by
  rw [opening, outTexts_append, outTexts_showEvents]
  split <;> rfl

/-! ## One formula -/

/-- The formula is not structurally complete. -/
def fails (p : ScanPreferences) (formula : String) : Bool := !(parse p formula).check.isOk

namespace Job

variable (j : Job)

/-- What is printed of the next formula of a parser. -/
def account (p : Parser) (f : String) : List Piece :=
  showEvents j.log j.now (p.parse j.log.minLevel f).2 ++
    (showParsed j.mode (parse p.preferences f) :: (j.check (parse p.preferences f)).1)

/-- A formula fails if checks are asked for and it is not structurally complete. -/
theorem check_eq (p : ScanPreferences) (f : String) :
    (j.check (parse p f)).2 = (j.strict && fails p f) := by
  unfold check fails
  cases j.strict with
  | false => rfl
  | true =>
    simp only [if_true, Bool.true_and]
    cases (parse p f).check <;> rfl

/-- What is printed of one formula, and the progress after it. -/
theorem formula_eq (s : Progress) (f : String) :
    j.formula s f =
      (⟨s.parser.next f,
          s.failures + if j.strict && fails s.parser.preferences f then 1 else 0⟩,
        j.account s.parser f) := by
  have hparser : (s.parser.parse j.log.minLevel f).1 = s.parser.next f := by
    rw [Parser.parse_eq]
  have hlast : (s.parser.next f).last = parse s.parser.preferences f := rfl
  simp only [formula, account, hparser, hlast, check_eq]
  split <;> rfl

/-- A check prints nothing on the standard output. -/
theorem outTexts_check (r : Parsed) : outTexts (j.check r).1 = "" := by
  unfold check
  split
  · dsimp only
    split
    · exact outTexts_showEvents _ _ _
    · rw [outTexts_append, outTexts_showEvents]
      rfl
  · rfl

/-- On the standard output there is nothing but the formula in the chosen form. -/
theorem outTexts_account (p : Parser) (f : String) :
    outTexts (j.account p f) = (showParsed j.mode (parse p.preferences f)).outText := by
  rw [account, outTexts_append, outTexts_showEvents, outTexts_cons, outTexts_check, String.empty_append,
    String.append_empty]

/-! ## All formulas -/

/-- What is printed of the formulas that a parser works on one after the other. -/
def accounts (p : Parser) : List String → List Piece
  | [] => []
  | f :: fs => j.account p f ++ accounts (p.next f) fs

/-- How many formulas fail. -/
def failures (p : ScanPreferences) (fs : List String) : Nat :=
  fs.countP fun f => j.strict && fails p f

theorem after_after (r : Result) (a b : List Piece) : (r.after b).after a = r.after (a ++ b) := by
  simp [Result.after]

/-- A run prints what it has to say of each formula, whether others fail or not, and then ends. -/
theorem formulas_eq (s : Progress) (fs : List String) :
    j.formulas s fs =
      (j.finish ⟨fs.foldl Parser.next s.parser, s.failures + j.failures s.parser.preferences fs⟩).after
        (j.accounts s.parser fs) := by
  induction fs generalizing s with
  | nil => rfl
  | cons f fs ih =>
    rw [formulas, formula_eq]
    dsimp only
    rw [ih, after_after]
    have hcount : s.failures + (if j.strict && fails s.parser.preferences f then 1 else 0) +
        j.failures (s.parser.next f).preferences fs =
          s.failures + j.failures s.parser.preferences (f :: fs) := by
      have hpreferences : (s.parser.next f).preferences = s.parser.preferences := rfl
      rw [hpreferences, failures, failures, List.countP_cons]
      omega
    rw [hcount]
    rfl

/-- On the standard output there are the formulas in the chosen form, in order. -/
theorem outTexts_accounts (p : Parser) (fs : List String) :
    outTexts (j.accounts p fs) =
      String.join (fs.map fun f => (showParsed j.mode (parse p.preferences f)).outText) := by
  induction fs generalizing p with
  | nil => rfl
  | cons f fs ih =>
    rw [accounts, outTexts_append, outTexts_account, ih, List.map_cons, String.join_cons]
    rfl

/-- Formulas are counted as failed exactly if checks are asked for and some formula fails. -/
theorem failures_pos {p : ScanPreferences} {fs : List String} :
    0 < j.failures p fs ↔ j.strict = true ∧ ∃ f ∈ fs, fails p f = true := by
  simp only [failures, List.countP_pos_iff, Bool.and_eq_true]
  constructor
  · rintro ⟨f, hf, hstrict, hfails⟩
    exact ⟨hstrict, f, hf, hfails⟩
  · rintro ⟨hstrict, f, hf, hfails⟩
    exact ⟨f, hf, hstrict, hfails⟩

/-- The end of a run tells how many formulas fail, if checks are asked for and some formula fails. -/
theorem finish_eq (q : Parser) (p : ScanPreferences) (fs : List String) :
    j.finish ⟨q, j.failures p fs⟩ =
      if j.strict = true ∧ ∃ f ∈ fs, fails p f = true then
        ⟨[errLine (toString (fs.countP (fails p)) ++ " formula(s) failed structural validation")], 1⟩
      else ⟨[], 0⟩ := by
  have hend : j.strict = true ∧ 0 < j.failures p fs ↔
      j.strict = true ∧ ∃ f ∈ fs, fails p f = true := by
    rw [failures_pos, and_self_left]
  simp only [finish, Bool.and_eq_true, decide_eq_true_eq, hend]
  split
  · rename_i h
    have hcount : j.failures p fs = fs.countP (fails p) := by
      simp only [failures, h.1, Bool.true_and]
    rw [hcount]
  · rfl

/-- The end of a run prints nothing on the standard output. -/
theorem outTexts_finish (s : Progress) : outTexts (j.finish s).pieces = "" := by
  unfold finish
  split <;> rfl

end Job

/-! ## The formulas of the input -/

/-- The formulas of some lines of the input, of which the blank ones are skipped; there are none to
speak of if a line has no text. -/
def lineFormulas : List (Option String) → Option (List String)
  | [] => some []
  | none :: _ => none
  | some line :: rest =>
    (lineFormulas rest).map fun fs => if isBlankLine line then fs else line :: fs

/-- The formulas of a run: those of the arguments, or with none those of the input. -/
def formulasOf (w : World) (o : Options) : Option (List String) :=
  if o.formulas.isEmpty then lineFormulas (textLines w.input) else some o.formulas

/-- Lines of the input are formulas too. -/
theorem Job.lines_eq_formulas (j : Job) (s : Progress) {lines : List (Option String)}
    {fs : List String} (h : lineFormulas lines = some fs) : j.lines s lines = j.formulas s fs := by
  induction lines generalizing s fs with
  | nil =>
    cases h
    rfl
  | cons line rest ih =>
    cases line with
    | none => cases h
    | some line =>
      obtain ⟨gs, hgs, rfl⟩ := Option.map_eq_some_iff.1 h
      rw [lines]
      split
      · exact ih s hgs
      · rw [formulas]
        exact congrArg (Result.after _) (ih _ hgs)

theorem work_eq {w : World} {o : Options} {fs : List String} (h : formulasOf w o = some fs)
    (s : Settings) (setup : Log.Setup) :
    work w o s setup =
      ((jobOf w o s).formulas ⟨{ preferences := s.scan }, 0⟩ fs).after (opening w o s setup) := by
  cases hempty : o.formulas.isEmpty with
  | true =>
    simp only [formulasOf, hempty, if_true] at h
    simp only [work, hempty, if_true]
    rw [Job.lines_eq_formulas _ _ h]
  | false =>
    simp only [formulasOf, hempty, Bool.false_eq_true, if_false, Option.some.injEq] at h
    simp only [work, hempty, Bool.false_eq_true, if_false]
    rw [h]

/-! ## Arguments that ask for checks -/

namespace Options

/-- The options, with checks. -/
def withStrict (o : Options) : Options := { o with strict := true }

/-- It makes no difference whether checks are asked for before other arguments. -/
theorem extend_withStrict (o : Options) (args : List String) :
    extend o.withStrict args = (extend o args).map withStrict := by
  fun_induction extend o args
  case case1 | case7 => rfl
  case case8 ih => exact ih
  case case9 | case10 =>
    rw [extend.eq_def]
    simp [*, withStrict, addFormulas, Except.map]
  case case2 ih | case3 ih | case4 ih | case5 ih | case6 ih | case11 ih =>
    rw [extend.eq_def, ← ih]
    simp [*, withStrict, addFormulas]

/-- What a request for checks before other arguments makes of the options. -/
theorem parse_strict_cons (args : List String) :
    parse ("--strict" :: args) = (parse args).map withStrict := by
  rw [parse, extend.eq_def, parse, ← extend_withStrict]
  simp [withStrict]

theorem wantsHelp_strict_cons (args : List String) :
    wantsHelp ("--strict" :: args) = wantsHelp args := by
  simp [wantsHelp]

end Options

/-! ## Whole runs -/

section Runs

variable {w : World} {o : Options} {s : Settings} {setup : Log.Setup} {fs : List String}

/-- What a run prints, and how it exits, that gets to its formulas. -/
theorem runWith_eq (hsettings : settings w o = .ok s) (hsetup : setUp s = .ok setup)
    (hfs : formulasOf w o = some fs) :
    runWith w o =
      ((jobOf w o s).finish ⟨fs.foldl Parser.next { preferences := s.scan },
        (jobOf w o s).failures s.scan fs⟩).after
          (opening w o s setup ++ (jobOf w o s).accounts { preferences := s.scan } fs) := by
  have hwork : runWith w o = work w o s setup := by
    simp only [runWith, hsettings, hsetup]
  rw [hwork, work_eq hfs, Job.formulas_eq, Job.after_after, Nat.zero_add]

theorem run_eq_runWith (hhelp : Options.wantsHelp w.args = false)
    (hoptions : Options.parse w.args = .ok o) : run w = runWith w o := by
  simp only [run, hhelp, hoptions, Bool.false_eq_true, if_false]

/-- The standard output of a run that gets to its formulas. -/
theorem stdout_runWith (hsettings : settings w o = .ok s) (hsetup : setUp s = .ok setup)
    (hfs : formulasOf w o = some fs) :
    (runWith w o).stdout =
      String.join (fs.map fun f => (showParsed o.mode (parse s.scan f)).outText) := by
  rw [stdout_eq, runWith_eq hsettings hsetup hfs, Result.after, outTexts_append, outTexts_append,
    outTexts_opening, Job.outTexts_accounts, Job.outTexts_finish, String.empty_append,
    String.append_empty]
  rfl

/-- The standard output of a run on one formula. -/
theorem stdout_runWith_single (hsettings : settings w o = .ok s) (hsetup : setUp s = .ok setup)
    (f : String) :
    (runWith w { o with formulas := [f] }).stdout = (showParsed o.mode (parse s.scan f)).outText := by
  have hsettings' : settings w { o with formulas := [f] } = .ok s := hsettings
  rw [stdout_runWith hsettings' hsetup rfl, List.map_singleton, String.join_cons, String.join_nil,
    String.append_empty]

end Runs

/-- What a run has printed, and how it has exited, that gets to the formulas `fs` with some options,
settings and log. -/
structure RunAccount (w : World) (o : Options) (s : Settings) (setup : Log.Setup) (fs : List String) :
    Prop where
  /-- The standard output is put together from what each formula alone prints. -/
  stdout : (run w).stdout =
    String.join (fs.map fun f => (runWith w { o with formulas := [f] }).stdout)
  /-- A formula alone prints itself in the chosen form: the normalized formula on a line and the outline
  of its tokens below, the formula that its tokens spell on a line, or its outcome on a line. -/
  alone : ∀ f, (runWith w { o with formulas := [f] }).stdout =
    match o.mode with
    | .outline => (parse s.scan f).formula ++ "\n" ++ (parse s.scan f).outline
    | .formula => (parse s.scan f).render ++ "\n"
    | .json => (parse s.scan f).outcome.toText ++ "\n"
  /-- It is the same with other arguments that differ only in whether they ask for checks. -/
  unchecked : ∀ (args : List String) (strict : Bool), Options.wantsHelp args = false →
    Options.parse args = .ok { o with strict := strict } →
      (run { w with args := args }).stdout = (run w).stdout
  strict : (run { w with args := "--strict" :: w.args }).stdout = (run w).stdout
  /-- The run fails exactly if checks are asked for and some formula fails. -/
  failed : (run w).exit = 1 ↔ o.strict = true ∧ ∃ f ∈ fs, fails s.scan f = true
  succeeded : (run w).exit ≠ 1 → (run w).exit = 0
  /-- All that is printed, ending with the number of the formulas that fail, if the run does. -/
  pieces : (run w).pieces =
    opening w o s setup ++ (jobOf w o s).accounts { preferences := s.scan } fs ++
      if (run w).exit = 1 then
        [errLine (toString (fs.countP (fails s.scan)) ++ " formula(s) failed structural validation")]
      else []

/-- A run that gets to its formulas prints on the standard output what each of them alone prints, in
order, whether or not checks are asked for, and exits with the code that says whether some formula
failed a check. -/
theorem run_account {w : World} {o : Options} {s : Settings} {setup : Log.Setup} {fs : List String}
    (hhelp : Options.wantsHelp w.args = false) (hoptions : Options.parse w.args = .ok o)
    (hsettings : settings w o = .ok s) (hsetup : setUp s = .ok setup)
    (hfs : formulasOf w o = some fs) : RunAccount w o s setup fs := by
  have hrun : run w = runWith w o := run_eq_runWith hhelp hoptions
  have hsingle : ∀ f, (runWith w { o with formulas := [f] }).stdout =
      (showParsed o.mode (parse s.scan f)).outText := stdout_runWith_single hsettings hsetup
  have hunchecked : ∀ (args : List String) (strict : Bool), Options.wantsHelp args = false →
      Options.parse args = .ok { o with strict := strict } →
        (run { w with args := args }).stdout = (run w).stdout := by
    intro args strict hhelp' hoptions'
    rw [run_eq_runWith (w := { w with args := args }) hhelp' hoptions', hrun,
      stdout_runWith hsettings hsetup hfs]
    exact stdout_runWith (w := { w with args := args }) (o := { o with strict := strict }) hsettings
      hsetup hfs
  have hexit : (run w).exit = if o.strict = true ∧ ∃ f ∈ fs, fails s.scan f = true then 1 else 0 := by
    rw [hrun, runWith_eq hsettings hsetup hfs, Job.finish_eq]
    exact apply_ite Result.exit _ _ _
  exact {
    stdout := by
      rw [hrun, stdout_runWith hsettings hsetup hfs]
      simp only [hsingle]
    alone := fun f => by
      rw [hsingle]
      cases o.mode <;> rfl
    unchecked := hunchecked
    strict := by
      apply hunchecked _ true
      · rw [Options.wantsHelp_strict_cons, hhelp]
      · rw [Options.parse_strict_cons, hoptions]
        rfl
    failed := by
      rw [hexit]
      split <;> simp_all
    succeeded := by
      rw [hexit]
      split <;> simp
    pieces := by
      rw [hexit, hrun, runWith_eq hsettings hsetup hfs, Job.finish_eq]
      show _ ++ Result.pieces (if o.strict = true ∧ ∃ f ∈ fs, fails s.scan f = true then _ else _) = _
      split <;> rfl }

/-- A run with checks on two formulas, of which the first fails. -/
def checkedWorld : World where
  program := "efp"
  args := ["--strict", "=(1", "--render", "=1+2"]
  env _ := none
  fileAt _ := .error .notFound
  input := []
  now := ""

theorem run_account_checkedWorld :
    let o : Options := { mode := .formula, strict := true, formulas := ["=(1", "=1+2"] }
    Options.wantsHelp checkedWorld.args = false ∧ Options.parse checkedWorld.args = .ok o ∧
      settings checkedWorld o = .ok {} ∧ setUp {} = .ok ⟨some {}, some .info⟩ ∧
        formulasOf checkedWorld o = some ["=(1", "=1+2"] ∧
          RunAccount checkedWorld o {} ⟨some {}, some .info⟩ ["=(1", "=1+2"] := by
  intro o
  have hoptions : Options.parse checkedWorld.args = .ok o := by
    simp [checkedWorld, o, Options.parse, Options.extend, Options.addFormulas, Options.isOption]
  exact ⟨rfl, hoptions, rfl, rfl, rfl, run_account rfl hoptions rfl rfl rfl⟩

end SheetFormula.CommandLine
