import SheetFormula.Settings
import SheetFormula.Toml.Document

/-!
# Settings from a document

A TOML document sets preferences in two sections, and leaves the defaults in force for what it does not
mention; whatever else it holds is ignored. A section is a table with named preferences, or an array
that gives the first few of them in order; a date, which is a table of its own kind, sets nothing.
-/

namespace SheetFormula.Settings

open Log (LogPreferences Level)
open Toml (Value)

/-- A preference: the default if it is not mentioned, and no answer if it has the wrong type. -/
def preference? {α : Type} (decode : Value → Option α) (default : α) : Option Value → Option α
  | none => some default
  | some v => decode v

/-- A truth value. -/
def boolean? : Value → Option Bool
  | .boolean b => some b
  | _ => none

/-- An empty array or an empty table. -/
def isEmptyContainer : Value → Bool
  | .array [] => true
  | .table _ [] => true
  | _ => false

/-- A level: its name, or a table with the name as its only key and an empty container as its value. -/
def level? : Value → Option Level
  | .string s => Level.ofWord? s
  | .table _ [(name, v)] => if isEmptyContainer v then Level.ofWord? name else none
  | _ => none

/-- The preferences that a section mentions, in the order of `names`. -/
def section? (names : List String) : Value → Option (List (Option Value))
  | .table _ entries => some (names.map fun name => entries.lookup name)
  | .array items => some ((List.range names.length).map (items[·]?))
  | .tables elements =>
    some ((List.range names.length).map fun i => elements[i]?.map (.table .header))
  | .dateTime => some (names.map fun _ => none)
  | _ => none

/-- The scan preferences of a section. -/
def scanSection? (d : ScanPreferences) (v : Value) : Option ScanPreferences := do
  match ← section? ["collect_detailed_metrics", "track_operator_patterns", "log_token_events"] v with
  | [metrics, operators, events] =>
    pure
      { detailedMetrics := ← preference? boolean? d.detailedMetrics metrics
        operatorUsage := ← preference? boolean? d.operatorUsage operators
        tokenEvents := ← preference? boolean? d.tokenEvents events }
  | _ => none

/-- The log preferences of a section. -/
def logSection? (d : LogPreferences) (v : Value) : Option LogPreferences := do
  match ← section? ["use_structured_logging", "enable_console_logging", "min_log_level"] v with
  | [structured, console, level] =>
    pure
      { structured := ← preference? boolean? d.structured structured
        console := ← preference? boolean? d.console console
        minLevel := ← preference? level? d.minLevel level }
  | _ => none

/-- The settings that a table describes, with these defaults. -/
def ofTable? (d : Settings) (t : Toml.Table) : Option Settings := do
  pure
    { scan := ← preference? (scanSection? d.scan) d.scan (t.get? "lexical")
      log := ← preference? (logSection? d.log) d.log (t.get? "logging") }

/-- The settings of a document, with these defaults. -/
def ofToml (d : Settings) (document : String) : Except SettingsError Settings :=
  match Toml.read? document >>= ofTable? d with
  | none => .error .malformed
  | some s => s.check.map fun () => s

/-- The settings of a file, given what reading it gives. -/
def load (d : Settings) (path : String) (content : Except FileError String) :
    Except SettingsError Settings :=
  match content with
  | .error cause => .error (.unreadable path cause)
  | .ok document => ofToml d document

end SheetFormula.Settings
