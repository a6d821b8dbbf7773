/-!
# Command-line options

The arguments of the command are options and formulas in any order; after `--` there are only
formulas. A request for help counts wherever it stands, and before all else.
-/

namespace SheetFormula.CommandLine

/-- The form in which a formula is shown. -/
inductive Mode where
  /-- The outline of the tokens, under the formula. -/
  | outline
  /-- The formula that the tokens spell. -/
  | formula
  /-- The outcome as JSON. -/
  | json
deriving DecidableEq, Repr, Inhabited

/-- What the arguments ask for. -/
structure Options where
  mode : Mode := .outline
  /-- Formulas that are not structurally complete make the run fail. -/
  strict : Bool := false
  /-- Show how the log is set up. -/
  diagnostics : Bool := false
  /-- The file that the settings come from. -/
  configPath : Option String := none
  /-- The formulas; with none, they are read from the input. -/
  formulas : List String := []
deriving DecidableEq, Repr, Inhabited

/-- Why the arguments cannot be understood. -/
inductive OptionError where
  /-- `--config` is the last argument. -/
  | missingPath
  | unknownOption (name : String)
deriving DecidableEq, Repr

/-- The message of arguments that cannot be understood. -/
def OptionError.message : OptionError → String
  | missingPath => "--config requires a path"
  | unknownOption name => "Unknown option: " ++ name

namespace Options

/-- The argument has the form of an option. -/
def isOption (arg : String) : Bool :=
  match arg.toList with
  | '-' :: '-' :: _ => true
  | _ => false

/-- Adds formulas at the end. -/
def addFormulas (o : Options) (formulas : List String) : Options :=
  { o with formulas := o.formulas ++ formulas }

/-- The options after some more arguments. -/
def extend (o : Options) : List String → Except OptionError Options
  | [] => .ok o
  | arg :: args =>
    if arg = "--pretty" then extend { o with mode := .outline } args
    else if arg = "--render" then extend { o with mode := .formula } args
    else if arg = "--json" then extend { o with mode := .json } args
    else if arg = "--strict" then extend { o with strict := true } args
    else if arg = "--diagnostics" then extend { o with diagnostics := true } args
    else if arg = "--config" then
      match args with
      | [] => .error .missingPath
      | path :: args => extend { o with configPath := some path } args
    else if arg = "--" then .ok (o.addFormulas args)
    else if isOption arg then .error (.unknownOption arg)
    else extend (o.addFormulas [arg]) args

/-- The options that some arguments give. -/
def parse (args : List String) : Except OptionError Options := extend {} args

/-- One of the arguments asks for help. -/
def wantsHelp (args : List String) : Bool := args.any fun a => a == "--help" || a == "-h"

end Options

end SheetFormula.CommandLine
