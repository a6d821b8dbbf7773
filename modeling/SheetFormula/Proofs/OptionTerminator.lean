import SheetFormula.Proofs.CommandRuns

/-!
# The end of the options

After `--` there are only formulas, whatever their text, and before it options and formulas:
`Options.Reads` tells which arguments can stand there, and which of them are formulas. So a run works on
the formulas before `--` and on all arguments after it, in order, with the options before it. Only the
request for help is looked for in all arguments: where one of those after `--` has its text, no formula
is worked on. Main statements:

* `Options.Reads.extend_append`: what arguments make of the options, whatever comes after them;
* `Options.exists_parse_iff`: no other arguments are understood;
* `Options.parse_terminated`: the options and the formulas of arguments with `--`;
* `terminated_run`: what a run with such arguments does;
* `help_after_terminator`: a formula that has the text of a request for help.
-/

namespace SheetFormula.CommandLine

namespace Options

/-- The options without a value, other than the request for help. -/
def flags : List String := ["--pretty", "--render", "--json", "--strict", "--diagnostics"]

/-- Arguments that are options, with their values, and formulas, with the formulas among them. The value
of `--config` can have any text. -/
inductive Reads : List String → List String → Prop
  | nil : Reads [] []
  | flag {arg : String} {args fs : List String} (harg : arg ∈ flags) (h : Reads args fs) :
    Reads (arg :: args) fs
  | config {args fs : List String} (path : String) (h : Reads args fs) :
    Reads ("--config" :: path :: args) fs
  | formula {arg : String} {args fs : List String} (harg : isOption arg = false) (h : Reads args fs) :
    Reads (arg :: args) (arg :: fs)

variable {args before after fs : List String} {arg : String}

/-! ## One argument -/

/-- An option without a value changes the options other than the formulas. -/
theorem extend_flag (harg : arg ∈ flags) (o : Options) :
    ∃ o' : Options, o'.formulas = o.formulas ∧ ∀ args, extend o (arg :: args) = extend o' args := by
  simp only [flags, List.mem_cons, List.not_mem_nil, or_false] at harg
  rcases harg with rfl | rfl | rfl | rfl | rfl
  · exact ⟨{ o with mode := .outline }, rfl, fun args => by rw [extend.eq_def]; simp⟩
  · exact ⟨{ o with mode := .formula }, rfl, fun args => by rw [extend.eq_def]; simp⟩
  · exact ⟨{ o with mode := .json }, rfl, fun args => by rw [extend.eq_def]; simp⟩
  · exact ⟨{ o with strict := true }, rfl, fun args => by rw [extend.eq_def]; simp⟩
  · exact ⟨{ o with diagnostics := true }, rfl, fun args => by rw [extend.eq_def]; simp⟩

theorem extend_config (o : Options) (path : String) (args : List String) :
    extend o ("--config" :: path :: args) = extend { o with configPath := some path } args := by
  rw [extend.eq_def]
  simp

theorem extend_terminator (o : Options) (args : List String) :
    extend o ("--" :: args) = .ok (o.addFormulas args) := by
  rw [extend.eq_def]
  simp

/-- An argument without the form of an option is a formula. -/
theorem extend_formula (harg : isOption arg = false) (o : Options) (args : List String) :
    extend o (arg :: args) = extend (o.addFormulas [arg]) args := by
  have hform : ∀ option ∈ "--" :: "--config" :: flags, isOption option = true := by decide
  have hne : ∀ option ∈ "--" :: "--config" :: flags, arg ≠ option := by
    rintro option hoption rfl
    exact Bool.false_ne_true (harg.symm.trans (hform _ hoption))
  simp only [flags, List.forall_mem_cons] at hne
  rw [extend.eq_def]
  simp [hne, harg]

/-! ## All arguments -/

/-- What arguments make of the options does not depend on what comes after them; the formulas among them
are added to those before. -/
theorem Reads.extend_append (h : Reads before fs) (o : Options) :
    ∃ o' : Options, o'.formulas = o.formulas ++ fs ∧
      ∀ rest, extend o (before ++ rest) = extend o' rest := by
  induction h generalizing o with
  | nil => exact ⟨o, (List.append_nil _).symm, fun _ => rfl⟩
  | flag harg _ ih =>
    obtain ⟨o₁, hformulas, hextend⟩ := extend_flag harg o
    obtain ⟨o', hformulas', hextend'⟩ := ih o₁
    refine ⟨o', by rw [hformulas', hformulas], fun rest => ?_⟩
    rw [List.cons_append, hextend, hextend']
  | config path _ ih =>
    obtain ⟨o', hformulas', hextend'⟩ := ih { o with configPath := some path }
    refine ⟨o', hformulas', fun rest => ?_⟩
    rw [List.cons_append, List.cons_append, extend_config, hextend']
  | @formula arg args fs harg _ ih =>
    obtain ⟨o', hformulas', hextend'⟩ := ih (o.addFormulas [arg])
    refine ⟨o', ?_, fun rest => ?_⟩
    · rw [hformulas', addFormulas, List.append_assoc, List.singleton_append]
    · rw [List.cons_append, extend_formula harg, hextend']

/-- The options and the formulas of arguments with `--` are those before it, with all arguments after it
as formulas. -/
theorem parse_terminated (h : Reads before fs) (after : List String) :
    ∃ o : Options, parse before = .ok o ∧
      parse (before ++ "--" :: after) = .ok { o with formulas := fs ++ after } := by
  obtain ⟨o, hformulas, hextend⟩ := h.extend_append {}
  refine ⟨o, ?_, ?_⟩
  · have hend := hextend []
    rwa [List.append_nil, extend] at hend
  · rw [parse, hextend, extend_terminator, addFormulas, hformulas]
    rfl

/-- The arguments can be read, up to `--` if that is among them and not the value of `--config`. -/
def Understood (args : List String) : Prop :=
  (∃ fs, Reads args fs) ∨ ∃ before after fs, args = before ++ "--" :: after ∧ Reads before fs

theorem Understood.append (h : Understood args) (front : List String)
    (hfront : ∀ {args fs : List String}, Reads args fs → ∃ fs', Reads (front ++ args) fs') :
    Understood (front ++ args) := by
  rcases h with ⟨fs, hfs⟩ | ⟨before, after, fs, rfl, hfs⟩
  · exact .inl (hfront hfs)
  · obtain ⟨fs', hfs'⟩ := hfront hfs
    exact .inr ⟨_, after, fs', (List.append_assoc front before _).symm, hfs'⟩

/-- Arguments that are understood can be read, up to `--` if that is among them. -/
theorem understood_of_extend {o o' : Options} (h : extend o args = .ok o') : Understood args := by
  fun_induction extend o args
  case case1 => exact .inl ⟨[], .nil⟩
  case case7 | case10 => cases h
  case case2 ih | case3 ih | case4 ih | case5 ih | case6 ih =>
    exact (ih h).append [_] fun hfs => ⟨_, .flag (by decide) hfs⟩
  case case8 ih =>
    exact (ih h).append ["--config", _] fun hfs => ⟨_, .config _ hfs⟩
  case case9 => exact .inr ⟨[], _, [], rfl, .nil⟩
  case case11 harg ih =>
    rw [Bool.not_eq_true] at harg
    exact (ih h).append [_] fun hfs => ⟨_, .formula harg hfs⟩

/-- The arguments that are understood are those that can be read, up to `--` if that is among them. -/
theorem exists_parse_iff : (∃ o, parse args = .ok o) ↔ Understood args := by
  constructor
  · rintro ⟨o, h⟩
    exact understood_of_extend h
  · rintro (⟨fs, h⟩ | ⟨before, after, fs, rfl, h⟩)
    · obtain ⟨o, hparse, -⟩ := parse_terminated h []
      exact ⟨o, hparse⟩
    · obtain ⟨o, -, hparse⟩ := parse_terminated h after
      exact ⟨_, hparse⟩

/-- The text of `--` is no request for help. -/
theorem wantsHelp_terminated (before after : List String) :
    wantsHelp (before ++ "--" :: after) = (wantsHelp before || wantsHelp after) := by
  simp [wantsHelp]

end Options

/-! ## Whole runs -/

/-- A run with these options, settings and log works on these formulas, in order, and on no others: it
prints what there is to print of each of them, after what it prints before all formulas and before what
it prints at the end, and on the standard output nothing but the formulas in the chosen form. -/
structure WorksOn (w : World) (o : Options) (s : Settings) (setup : Log.Setup) (fs : List String) :
    Prop where
  pieces : ∃ ending, outTexts ending = "" ∧
    (run w).pieces =
      opening w o s setup ++ (jobOf w o s).accounts { preferences := s.scan } fs ++ ending
  stdout : (run w).stdout =
    String.join (fs.map fun f => (showParsed o.mode (parse s.scan f)).outText)

/-- A run that gets to the formulas of its arguments works on them. -/
theorem worksOn_of_run_eq {w : World} {o : Options} {s : Settings} {setup : Log.Setup}
    {fs : List String} (hrun : run w = runWith w { o with formulas := fs }) (hsome : fs ≠ [])
    (hsettings : settings w o = .ok s) (hsetup : setUp s = .ok setup) : WorksOn w o s setup fs := by
  have hfs : formulasOf w { o with formulas := fs } = some fs := by
    simp only [formulasOf, List.isEmpty_eq_false_iff.2 hsome, Bool.false_eq_true, if_false]
  have hsettings' : settings w { o with formulas := fs } = .ok s := hsettings
  constructor
  · rw [hrun, runWith_eq hsettings' hsetup hfs]
    exact ⟨_, Job.outTexts_finish _ _, rfl⟩
  · rw [hrun, stdout_runWith hsettings' hsetup hfs]

/-- What a run does whose arguments end their options with `--`, with the options before it. If no
argument has the text of a request for help, neither before `--` nor after it, the run works on the
formulas before it and on all arguments after it, whatever their text, as soon as the settings and the
log can be set up. If some argument has, the run prints the help text and works on no formula. -/
theorem terminated_run {w : World} {before after fs : List String}
    (hargs : w.args = before ++ "--" :: after) (hreads : Options.Reads before fs)
    (hsome : fs ++ after ≠ []) :
    ∃ o, Options.parse before = .ok o ∧
      Options.parse w.args = .ok { o with formulas := fs ++ after } ∧
      (Options.wantsHelp before = false ∧ Options.wantsHelp after = false →
        run w = runWith w { o with formulas := fs ++ after } ∧
          ∀ s setup, settings w o = .ok s → setUp s = .ok setup → WorksOn w o s setup (fs ++ after)) ∧
      (Options.wantsHelp before = true ∨ Options.wantsHelp after = true →
        run w = ⟨(helpLines w.program).map outLine, 0⟩) := by
  obtain ⟨o, hbefore, hparse⟩ := Options.parse_terminated hreads after
  rw [← hargs] at hparse
  have hhelp : Options.wantsHelp w.args = (Options.wantsHelp before || Options.wantsHelp after) := by
    rw [hargs, Options.wantsHelp_terminated]
  refine ⟨o, hbefore, hparse, ?_, ?_⟩
  · rintro ⟨hleft, hright⟩
    rw [hleft, hright, Bool.or_false] at hhelp
    have hrun := run_eq_runWith hhelp hparse
    exact ⟨hrun, fun s setup => worksOn_of_run_eq hrun hsome⟩
  · intro hasks
    rw [← Bool.or_eq_true, ← hhelp] at hasks
    rw [run, if_pos hasks]

/-- A run with arguments after `--` that have the form of options, and `--` as the value of an option
before it. -/
def terminatedWorld : World where
  program := "efp"
  args := ["--config", "--", "=1", "--render", "--", "--json", "--", "=2"]
  env _ := none
  fileAt _ := .ok ""
  input := []
  now := ""

theorem terminated_run_terminatedWorld :
    let before := ["--config", "--", "=1", "--render"]
    let after := ["--json", "--", "=2"]
    terminatedWorld.args = before ++ "--" :: after ∧ Options.Reads before ["=1"] ∧
      ["=1"] ++ after ≠ [] ∧ Options.wantsHelp before = false ∧ Options.wantsHelp after = false ∧
        ∃ o, Options.parse before = .ok o ∧
          run terminatedWorld =
            runWith terminatedWorld { o with formulas := ["=1", "--json", "--", "=2"] } := by
  have hreads : Options.Reads ["--config", "--", "=1", "--render"] ["=1"] :=
    .config "--" (.formula (by decide) (.flag (by decide) .nil))
  obtain ⟨o, hbefore, -, hruns, -⟩ := terminated_run (w := terminatedWorld) rfl hreads nofun
  exact ⟨rfl, hreads, nofun, by decide, by decide, o, hbefore, (hruns ⟨by decide, by decide⟩).1⟩

/-- A run with a formula after `--` that has the text of a request for help. -/
def helpWorld : World := { terminatedWorld with args := ["--", "--help"] }

/-- Without a console no events are shown. -/
theorem showEvents_eq_nil {log : Log.LogPreferences} (h : log.console = false) (now : String)
    (events : List Log.Event) : showEvents log now events = [] := by
  simp [showEvents, Log.LogPreferences.line?, h]

/-- A formula after `--` that has the text of a request for help is not worked on: what is printed
does not begin with the formula. -/
theorem help_after_terminator :
    helpWorld.args = [] ++ "--" :: ["--help"] ∧ Options.Reads [] [] ∧ Options.wantsHelp [] = false ∧
      settings helpWorld {} = .ok {} ∧ setUp {} = .ok ⟨some {}, some .info⟩ ∧
        ¬WorksOn helpWorld {} {} ⟨some {}, some .info⟩ ["--help"] := by
  refine ⟨rfl, .nil, rfl, rfl, rfl, fun h => ?_⟩
  obtain ⟨ending, -, hpieces⟩ := h.pieces
  have hhelp : (run helpWorld).pieces.head? =
      some (outLine ("EFP formula tokenizer v" ++ version)) := rfl
  have hformula : (parse {} "--help").formula = "=--help" := by
    show (scan "--help").formula = _
    rw [Scan.formula_scan]
    rfl
  have hopening : opening helpWorld {} {} ⟨some {}, some .info⟩ = [] := rfl
  rw [hpieces, hopening, Job.accounts, Job.account, showEvents_eq_nil rfl] at hhelp
  simp only [List.nil_append, List.cons_append, List.head?_cons, Option.some.injEq, showParsed, jobOf,
    outLine, Piece.out.injEq, hformula] at hhelp
  have hhead := congrArg (fun text : String => text.toList.head?) hhelp
  simp at hhead

end SheetFormula.CommandLine
