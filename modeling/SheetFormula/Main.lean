import SheetFormula.CommandLine.Run
import Std.Time

/-!
# The command

The program around a run: it gathers what the run depends on, prints what the run says, and exits with
its code.
-/

namespace SheetFormula.CommandLine

/-- The number of a system error, which may be given with its sign changed. -/
def systemErrorNumber (code : UInt32) : Nat :=
  if code.toNat < UInt32.size / 2 then code.toNat else UInt32.size - code.toNat

/-- Why reading a file failed. -/
def fileErrorOf : IO.Error → FileError
  | .noFileOrDirectory _ _ _ => .notFound
  | .inappropriateType _ code details =>
    let number := systemErrorNumber code
    if number = 20 then .notADirectory
    else if number = 21 then .isDirectory
    else .other details
  | e => .other (toString e)

/-- Reads a text file. -/
def readTextFile (path : String) : IO (Except FileError String) := do
  try
    let bytes ← IO.FS.readBinFile path
    match String.fromUTF8? bytes with
    | some s => pure (.ok s)
    | none => pure (.error .notUtf8)
  catch e => pure (.error (fileErrorOf e))

/-- All bytes that are left of a stream, after those read before. -/
partial def readBytes (stream : IO.FS.Stream) (before : ByteArray) : IO ByteArray := do
  let bytes ← stream.read 65536
  if bytes.isEmpty then pure before else readBytes stream (before ++ bytes)

/-- The variables of the environment that settings come from. -/
def variableNames : List String :=
  ["EFP_LEXICAL_DETAILED_METRICS", "EFP_LEXICAL_TRACK_OPERATORS", "EFP_LEXICAL_LOG_TOKEN_EVENTS",
    "EFP_LOGGING_USE_STRUCTURED", "EFP_LOGGING_ENABLE_CONSOLE", "EFP_LOGGING_MIN_LEVEL"]

/-- The date and time in universal time. -/
def currentTime : IO String := do
  let now ← Std.Time.Timestamp.now
  pure (toString (Std.Time.PlainDateTime.ofWallTime (.ofTimestamp now .zero)) ++ "+00:00")

/-- What a run with these arguments depends on; the input is read only if the formulas come from it. -/
def gather (args : List String) : IO World := do
  let env ← variableNames.mapM fun name => do pure (name, ← IO.getEnv name)
  let options := (Options.parse args).toOption
  let path := options.bind Options.configPath
  let file ← match path with
    | some path => readTextFile path
    | none => pure (.error .notFound)
  let fromInput := !Options.wantsHelp args && (options.map (·.formulas.isEmpty)).getD false
  let input ← if fromInput then readBytes (← IO.getStdin) .empty else pure .empty
  pure
    { program := "efp"
      args := args
      env := fun name => (env.lookup name).join
      fileAt := fun _ => file
      input := input.toList
      now := ← currentTime }

end SheetFormula.CommandLine

open SheetFormula.CommandLine in
/-- Runs the command. -/
def main (args : List String) : IO UInt32 := do
  let result := run (← gather args)
  for piece in result.pieces do
    match piece with
    | .out s => (← IO.getStdout).putStr s
    | .err s => (← IO.getStderr).putStr s
  pure result.exit.toUInt32
