import SheetFormula.Json.Print
import SheetFormula.Log.Code
import SheetFormula.Log.Level
import SheetFormula.SortedMap

/-!
# Log events

An event has a level, a code, a message of bounded length, an optional offset into the formula that
it is about, and a context of named texts. It is shown in three forms: on one line, with all that is
known of its code, and as a JSON object whose keys are sorted.
-/

namespace SheetFormula.Log

/-- The longest message of an event, in characters. -/
def maxMessageLength : Nat := 4096

/-- An event of the log. -/
structure Event where
  level : Level
  code : Code
  message : String
  /-- The offset in the formula that the event is about. -/
  position : Option Nat := none
  /-- Named texts that say more. -/
  context : SortedMap String := {}
deriving DecidableEq, Repr

namespace Event

/-- An event whose message is cut to the allowed length. -/
def new (level : Level) (code : Code) (message : String) : Event where
  level := level
  code := code
  message := String.ofList (message.toList.take maxMessageLength)

/-- The event with one more named text, in place of an earlier one of the same name. -/
def withContext (e : Event) (key value : String) : Event :=
  { e with context := e.context.insert key value }

/-- The event on one line, as far as its message is one line. -/
def format (e : Event) : String :=
  "[" ++ e.level.tag ++ "] " ++ e.code.name ++ " - " ++ e.message ++
    match e.position with
    | some p => " at offset " ++ toString p
    | none => ""

/-- The lines that say what the registry knows of the event's code, and its context. -/
def details (e : Event) : List String :=
  ["  Category: " ++ e.code.category, "  Severity: " ++ e.code.severity.name]
    ++ (if e.level = .error then ["  Recoverable: " ++ toString e.code.recoverable] else [])
    ++ (if e.code.description ≠ Code.unknownDescription then
      ["  Description: " ++ e.code.description] else [])
    ++ (if e.code.action ≠ Code.noAction then ["  Recommended action: " ++ e.code.action] else [])
    ++ (if e.context.isEmpty then []
      else "  Context:" :: e.context.entries.map fun (k, v) => "    " ++ k ++ ": " ++ v)

/-- The event and its details, a line each. -/
def formatDetailed (e : Event) : String :=
  e.details.foldl (fun text line => text ++ "\n" ++ line) e.format

/-- The object that describes the event, at the time `timestamp`; the keys are sorted. -/
def toJson (timestamp : String) (e : Event) : Json :=
  .ofFields <|
    [("category", .text e.code.category), ("code", .text e.code.name)]
    ++ (if e.context.isEmpty then []
      else [("context", .ofFields (e.context.entries.map fun (k, v) => (k, .text v)))])
    ++ (if e.level = .error then
      [("error_metadata", .ofFields [
        ("description", .text e.code.description),
        ("recommended_action", .text e.code.action),
        ("recoverable", .bool e.code.recoverable)])]
      else [])
    ++ [("level", .text e.level.tag), ("message", .text e.message)]
    ++ (match e.position with
      | some p => [("position", .nat p)]
      | none => [])
    ++ [("severity", .text e.code.severity.name), ("timestamp", .text timestamp)]

/-- The object that describes the event, on one line. -/
def jsonLine (timestamp : String) (e : Event) : String := (e.toJson timestamp).compact

end Event

end SheetFormula.Log
