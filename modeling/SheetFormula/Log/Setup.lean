import SheetFormula.Log.Report
import SheetFormula.Log.Store

/-!
# Setting up the log

The log is set up once: preferences are chosen, and a logger is installed that follows them. Each of
the two happens at most once, and preferences that contradict each other are refused. A logger either
writes to the console, in one of two forms, or to nowhere.
-/

namespace SheetFormula.Log

/-- How events are shown. -/
structure LogPreferences where
  /-- Show each event as a JSON object on a line of its own. -/
  structured : Bool := false
  /-- Show events on the console at all. -/
  console : Bool := false
  minLevel : Level := .info
deriving DecidableEq, Repr, Inhabited

/-- Why a step of the set-up is refused. -/
inductive SetupError where
  /-- Structured events are wanted, but no events on the console. -/
  | structuredWithoutConsole
  /-- Preferences were chosen before. -/
  | preferencesChosen
  /-- A logger was installed before. -/
  | loggerInstalled
deriving DecidableEq, Repr

/-- The message of a refusal. -/
def SetupError.message : SetupError → String
  | structuredWithoutConsole => "Structured logging requires console logging to be enabled"
  | preferencesChosen => "Runtime preferences already initialized"
  | loggerInstalled => "Global logger already initialized"

/-- Refuses preferences that contradict each other. -/
def LogPreferences.check (p : LogPreferences) : Except SetupError Unit :=
  if p.structured && !p.console then .error .structuredWithoutConsole else .ok ()

/-- How far the log is set up. -/
structure Setup where
  /-- The preferences that were chosen. -/
  chosen : Option LogPreferences := none
  /-- The minimum level of the installed logger. -/
  installed : Option Level := none
deriving DecidableEq, Repr

namespace Setup

/-- The preferences in force. -/
def preferences (s : Setup) : LogPreferences := s.chosen.getD {}

/-- Chooses preferences. -/
def choose (s : Setup) (p : LogPreferences) : Except SetupError Setup := do
  p.check
  if s.chosen.isSome then .error .preferencesChosen else .ok { s with chosen := some p }

/-- The preferences in force do not contradict each other. -/
def check (s : Setup) : Except SetupError Unit :=
  match s.chosen with
  | some p => p.check
  | none => .ok ()

/-- Installs a logger with a minimum level. -/
def install (s : Setup) (level : Level) : Except SetupError Setup := do
  s.check
  if s.installed.isSome then .error .loggerInstalled else .ok { s with installed := some level }

/-- A logger is installed that lets debug events through. -/
def debugEnabled (s : Setup) : Bool := (s.installed.map (·.admits .debug)).getD false

/-- The limits of the log: events kept, message length, length of a quoted formula. -/
def limits : List Nat := [storeCapacity, maxMessageLength, maxFormulaLength]

/-- A description of the limits and preferences. -/
def summary (s : Setup) : String :=
  let p := s.preferences
  "Logging Configuration:\n=== Limits (Compile-time) ===\n- Log buffer size: "
    ++ toString storeCapacity ++ "\n- Max message length: " ++ toString maxMessageLength
    ++ "\n- Max context formula length: " ++ toString maxFormulaLength
    ++ "\n=== User Preferences (Runtime) ===\n- Min log level: " ++ p.minLevel.label
    ++ "\n- Structured logging: " ++ toString p.structured
    ++ "\n- Console logging: " ++ toString p.console

/-- A description of the whole set-up. -/
def diagnostics (s : Setup) : String :=
  "=== Logging System Diagnostics ===\nInitialized: " ++ toString s.installed.isSome ++ "\n"
    ++ (match s.installed with
      | some level => "Active level: " ++ level.tag ++ "\n"
      | none => "")
    ++ "\n" ++ s.summary

end Setup

/-- What the console shows of an event, at the time `now`: an error with its details, any other event
on one line, and with structured logging an object. -/
def LogPreferences.line? (p : LogPreferences) (now : String) (e : Event) : Option String :=
  if p.console && p.minLevel.admits e.level then
    some <|
      if p.structured then e.jsonLine now
      else if e.level = .error then e.formatDetailed
      else e.format
  else none

/-- The report of an installed logger. -/
def installedReport : Report :=
  .success .loggingInitialized "Global logging system initialized"

/-- The report that preferences from a source are in force. -/
def loadedReport (source : String) : Report :=
  (Report.success .configurationLoaded "Runtime configuration loaded").withPairs
    [("source", source)]

/-- What is shown of an error before a logger is installed. -/
def fallbackLine (code : Code) (message : String) : String :=
  "[ERROR] FALLBACK: [" ++ code.name ++ "] " ++ message

end SheetFormula.Log
