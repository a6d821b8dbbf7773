import SheetFormula.CommandLine.Help
import SheetFormula.CommandLine.Input
import SheetFormula.CommandLine.Options
import SheetFormula.Outcome
import SheetFormula.Settings.Document

/-!
# Runs of the command

A run of the command is a function of its arguments, its environment, the files it can read and its
input. What it prints is a sequence of pieces, each for one of the two outputs; the program around it
does nothing but print them and exit.
-/

namespace SheetFormula.CommandLine

/-- What a run depends on. -/
structure World where
  /-- The name under which the command was called. -/
  program : String
  args : List String
  env : String → Option String
  fileAt : String → Except FileError String
  /-- The bytes of the input. -/
  input : List UInt8
  /-- The time that structured events show. -/
  now : String

/-- A piece of what a run prints. -/
inductive Piece where
  | out (text : String)
  | err (text : String)
deriving DecidableEq, Repr

/-- What a run prints, and the code it exits with. -/
structure Result where
  pieces : List Piece
  exit : Nat
deriving DecidableEq, Repr

namespace Result

/-- All that is printed on the standard output. -/
def stdout (r : Result) : String :=
  r.pieces.foldl (fun text p => match p with | .out s => text ++ s | .err _ => text) ""

/-- All that is printed on the error output. -/
def stderr (r : Result) : String :=
  r.pieces.foldl (fun text p => match p with | .out _ => text | .err s => text ++ s) ""

end Result

/-- A line on the standard output. -/
def outLine (s : String) : Piece := .out (s ++ "\n")

/-- A line on the error output. -/
def errLine (s : String) : Piece := .err (s ++ "\n")

/-- What is shown of some events. -/
def showEvents (p : Log.LogPreferences) (now : String) (events : List Log.Event) : List Piece :=
  events.filterMap fun e => (p.line? now e).map errLine

/-- What is printed of a parsed formula. -/
def showParsed (mode : Mode) (p : Parsed) : Piece :=
  match mode with
  | .outline => .out (p.formula ++ "\n" ++ p.outline)
  | .formula => outLine p.render
  | .json => outLine p.outcome.toText

/-- What stays the same from formula to formula. -/
structure Job where
  mode : Mode
  strict : Bool
  log : Log.LogPreferences
  now : String

/-- What was done so far: the parser, and the formulas that failed the check. -/
structure Progress where
  parser : Parser
  failures : Nat := 0

/-- Checks a formula, where checks are asked for: what is printed, and whether it fails. -/
def Job.check (j : Job) (p : Parsed) : List Piece × Bool :=
  if j.strict then
    let result := p.check
    let events := Log.deliver j.log.minLevel none [structureReport p.tokens.length result]
    let shown := showEvents j.log j.now events
    match result with
    | .ok () => (shown, false)
    | .error e =>
      (shown ++ [errLine ("[" ++ e.code.name ++ "] " ++ p.formula ++ ": " ++ e.message)], true)
  else ([], false)

/-- Works on one formula. -/
def Job.formula (j : Job) (s : Progress) (formula : String) : Progress × List Piece :=
  let (parser, events) := s.parser.parse j.log.minLevel formula
  let (checked, failed) := j.check parser.last
  (⟨parser, if failed then s.failures + 1 else s.failures⟩,
    showEvents j.log j.now events ++ (showParsed j.mode parser.last :: checked))

/-- What is printed, and the exit code, when all formulas are done. -/
def Job.finish (j : Job) (s : Progress) : Result :=
  if j.strict && 0 < s.failures then
    ⟨[errLine (toString s.failures ++ " formula(s) failed structural validation")], 1⟩
  else ⟨[], 0⟩

/-- A result that comes after some pieces. -/
def Result.after (pieces : List Piece) (r : Result) : Result := { r with pieces := pieces ++ r.pieces }

/-- The message of an input line that is no UTF-8. -/
def badLineMessage : String :=
  "Error: Error \x7b kind: InvalidData, message: \"stream did not contain valid UTF-8\" \x7d"

/-- Works on lines of the input; blank ones are skipped, and one without a text ends the run. -/
def Job.lines (j : Job) (s : Progress) : List (Option String) → Result
  | [] => j.finish s
  | none :: _ => ⟨[errLine badLineMessage], 1⟩
  | some line :: rest =>
    if isBlankLine line then j.lines s rest
    else
      let (s, pieces) := j.formula s line
      (j.lines s rest).after pieces

/-- Works on the formulas of the arguments. -/
def Job.formulas (j : Job) (s : Progress) : List String → Result
  | [] => j.finish s
  | formula :: rest =>
    let (s, pieces) := j.formula s formula
    (j.formulas s rest).after pieces

/-- The settings of a run. -/
def settings (w : World) (o : Options) : Except SettingsError Settings :=
  let defaults := Settings.ofEnvironment w.env
  match o.configPath with
  | some path => defaults.load path (w.fileAt path)
  | none => .ok defaults

/-- Sets up the log with the preferences of the run. -/
def setUp (s : Settings) : Except Log.SetupError Log.Setup := do
  let setup ← Log.Setup.choose {} s.log
  setup.install s.log.minLevel

/-- The result of a run that ends before there is a log. -/
def refuse (code : Log.Code) (message : String) : Result :=
  ⟨[errLine (Log.fallbackLine code message)], 2⟩

/-- What is printed once the log is set up, before any formula. -/
def opening (w : World) (o : Options) (s : Settings) (setup : Log.Setup) : List Piece :=
  let reports := [Log.installedReport, Log.loadedReport (o.configPath.getD "defaults")]
  let diagnostics := if o.diagnostics then [errLine setup.diagnostics] else []
  showEvents s.log w.now (Log.deliver s.log.minLevel none reports) ++ diagnostics

/-- What these options and settings ask for, for every formula. -/
def jobOf (w : World) (o : Options) (s : Settings) : Job where
  mode := o.mode
  strict := o.strict
  log := s.log
  now := w.now

/-- A run with these options, settings and log. -/
def work (w : World) (o : Options) (s : Settings) (setup : Log.Setup) : Result :=
  let job := jobOf w o s
  let start : Progress := ⟨{ preferences := s.scan }, 0⟩
  let result :=
    if o.formulas.isEmpty then job.lines start (textLines w.input)
    else job.formulas start o.formulas
  result.after (opening w o s setup)

/-- A run with these options. -/
def runWith (w : World) (o : Options) : Result :=
  match settings w o with
  | .error e => refuse e.code e.message
  | .ok s =>
    match setUp s with
    | .error e => refuse .initializationFailure e.message
    | .ok setup => work w o s setup

/-- A run of the command. -/
def run (w : World) : Result :=
  if Options.wantsHelp w.args then ⟨(helpLines w.program).map outLine, 0⟩
  else
    match Options.parse w.args with
    | .error e => ⟨[errLine ("Error: " ++ e.message), errLine (usage w.program)], 2⟩
    | .ok o => runWith w o

end SheetFormula.CommandLine
