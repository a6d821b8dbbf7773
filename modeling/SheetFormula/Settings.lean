import SheetFormula.Log.Setup
import SheetFormula.Metrics

/-!
# Settings

The preferences of a run: what is measured and logged while a formula is scanned, and how events are
shown. They have defaults, which variables of the environment may change. Settings that cannot take
effect are refused.
-/

namespace SheetFormula

open Log (LogPreferences Level)

/-- Why a file cannot be read. -/
inductive FileError where
  | notFound
  | isDirectory
  /-- The path leads through something that is not a directory. -/
  | notADirectory
  | notUtf8
  | other (text : String)
deriving DecidableEq, Repr

/-- The message of a file that cannot be read. -/
def FileError.message : FileError → String
  | notFound => "No such file or directory (os error 2)"
  | isDirectory => "Is a directory (os error 21)"
  | notADirectory => "Not a directory (os error 20)"
  | notUtf8 => "stream did not contain valid UTF-8"
  | other text => text

/-- The preferences of a run. -/
structure Settings where
  scan : ScanPreferences := {}
  log : LogPreferences := {}
deriving DecidableEq, Repr, Inhabited

/-- Which preferences contradict each other. -/
inductive SettingsConflict where
  /-- Operators are to be counted, but no detailed metrics kept. -/
  | operatorUsageWithoutMetrics
  /-- Structured events are wanted, but no events on the console. -/
  | structuredWithoutConsole
deriving DecidableEq, Repr

/-- The message of a conflict. -/
def SettingsConflict.message : SettingsConflict → String
  | operatorUsageWithoutMetrics => "track_operator_patterns requires collect_detailed_metrics"
  | structuredWithoutConsole => "use_structured_logging requires enable_console_logging"

/-- Why settings cannot be loaded. -/
inductive SettingsError where
  | unreadable (path : String) (cause : FileError)
  /-- The document is no TOML, or some value in it has the wrong type. -/
  | malformed
  | conflict (c : SettingsConflict)
deriving DecidableEq, Repr

namespace SettingsError

/-- The message of settings that cannot be loaded. -/
def message : SettingsError → String
  | unreadable path cause =>
    "Failed to read configuration file '" ++ path ++ "': " ++ cause.message
  | malformed => "Invalid TOML configuration: no document of the expected form"
  | conflict c => "Invalid configuration: " ++ c.message

/-- The event code of settings that cannot be loaded. -/
def code : SettingsError → Log.Code
  | unreadable _ _ => .unreadableConfiguration
  | malformed => .malformedConfiguration
  | conflict _ => .inconsistentConfiguration

end SettingsError

namespace Settings

/-- The truth value of a variable, which has to be `true` or `false` in full. -/
def flag (value : Option String) (default : Bool) : Bool :=
  match value with
  | some "true" => true
  | some "false" => false
  | _ => default

/-- The settings of an environment, in which an absent or unreadable variable changes nothing. -/
def ofEnvironment (env : String → Option String) : Settings where
  scan :=
    { detailedMetrics := flag (env "EFP_LEXICAL_DETAILED_METRICS") true
      operatorUsage := flag (env "EFP_LEXICAL_TRACK_OPERATORS") false
      tokenEvents := flag (env "EFP_LEXICAL_LOG_TOKEN_EVENTS") false }
  log :=
    { structured := flag (env "EFP_LOGGING_USE_STRUCTURED") false
      console := flag (env "EFP_LOGGING_ENABLE_CONSOLE") false
      minLevel := ((env "EFP_LOGGING_MIN_LEVEL").bind Level.parse?).getD .info }

/-- Refuses settings that cannot take effect. -/
def check (s : Settings) : Except SettingsError Unit :=
  if s.scan.operatorUsage && !s.scan.detailedMetrics then
    .error (.conflict .operatorUsageWithoutMetrics)
  else if s.log.structured && !s.log.console then .error (.conflict .structuredWithoutConsole)
  else .ok ()

/-- The settings as a TOML document. -/
def toToml (s : Settings) : String :=
  "[lexical]\ncollect_detailed_metrics = " ++ toString s.scan.detailedMetrics
    ++ "\ntrack_operator_patterns = " ++ toString s.scan.operatorUsage
    ++ "\nlog_token_events = " ++ toString s.scan.tokenEvents
    ++ "\n\n[logging]\nuse_structured_logging = " ++ toString s.log.structured
    ++ "\nenable_console_logging = " ++ toString s.log.console
    ++ "\nmin_log_level = \"" ++ s.log.minLevel.word ++ "\"\n"

end Settings

end SheetFormula
