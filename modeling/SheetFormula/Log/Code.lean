/-!
# Event codes

Every event carries a short code. The registry says of each code that the library uses what it is
about, how severe it is, whether the run can go on after it, and what to do; for any other code the
answers are fixed fallbacks. Main statement:

* `info?_isSome`: every code of the library is in the registry.
-/

namespace SheetFormula.Log

/-- How much an event matters, from the most severe down. -/
inductive Severity where
  | critical
  | high
  | medium
  | low
deriving DecidableEq, Repr, Inhabited

namespace Severity

/-- The published name of a severity. -/
def name : Severity → String
  | critical => "Critical"
  | high => "High"
  | medium => "Medium"
  | low => "Low"

/-- The place of a severity, the most severe first. -/
def rank : Severity → Nat
  | critical => 0
  | high => 1
  | medium => 2
  | low => 3

end Severity

/-- A short code that identifies a kind of event. -/
structure Code where
  name : String
deriving DecidableEq, Repr, Inhabited

/-- What the registry knows of a code. -/
structure CodeInfo where
  code : Code
  category : String
  severity : Severity
  /-- The run can go on after the event. -/
  recoverable : Bool
  description : String
  /-- What to do about the event. -/
  action : String
deriving DecidableEq, Repr

namespace Code

/-- A fault of the library itself. -/
def internalError : Code := ⟨"ERR001"⟩

/-- The logging set-up was refused. -/
def initializationFailure : Code := ⟨"ERR002"⟩

/-- A configuration file cannot be read. -/
def unreadableConfiguration : Code := ⟨"E005"⟩

/-- A configuration document is not well-formed or has a value of the wrong type. -/
def malformedConfiguration : Code := ⟨"E006"⟩

/-- Two preferences of a configuration contradict each other. -/
def inconsistentConfiguration : Code := ⟨"E007"⟩

/-- A formula ends inside an error literal. -/
def unterminatedError : Code := ⟨"E020"⟩

/-- Text stands right before a delimiter that cannot follow it. -/
def strayText : Code := ⟨"E021"⟩

/-- A delimiter closes a scope where none is open. -/
def scopeUnderflow : Code := ⟨"E022"⟩

/-- The stream ends inside an error literal. -/
def incompleteFormula : Code := ⟨"E040"⟩

/-- The stream holds a token of unknown kind. -/
def unknownToken : Code := ⟨"E041"⟩

/-- Some scope of the stream is never closed. -/
def unbalancedScopes : Code := ⟨"E042"⟩

/-- A closing token of the stream closes no scope. -/
def unexpectedStop : Code := ⟨"E043"⟩

/-- Logging is ready. -/
def loggingInitialized : Code := ⟨"I004"⟩

/-- The configuration is in force. -/
def configurationLoaded : Code := ⟨"I005"⟩

/-- A formula was scanned. -/
def scanned : Code := ⟨"I020"⟩

/-- The spaces of a formula were dropped or made into intersections. -/
def whitespaceReduced : Code := ⟨"I021"⟩

/-- The operators and operands of a formula were classified. -/
def classified : Code := ⟨"I022"⟩

/-- The unary plus signs of a formula were removed. -/
def noopsRemoved : Code := ⟨"I023"⟩

/-- A formula was split into its final tokens. -/
def parsed : Code := ⟨"I024"⟩

/-- The stream passed the structure check. -/
def structureComplete : Code := ⟨"I040"⟩

/-- The code of a warning that was given none. -/
def plainWarning : Code := ⟨"W000"⟩

/-- The code of an informational event that was given none. -/
def plainInfo : Code := ⟨"I000"⟩

/-- The code of a debug event. -/
def plainDebug : Code := ⟨"D000"⟩

end Code

/-- All codes of the library that are in use for errors, recoveries and stages. -/
def registry : List CodeInfo := [
  { code := .internalError, category := "System", severity := .critical, recoverable := false,
    description := "Critical internal error",
    action := "File a bug report with the formula that triggered it" },
  { code := .initializationFailure, category := "System", severity := .critical, recoverable := false,
    description := "Logging or configuration initialization failure",
    action := "Check EFP_* environment variables and the configuration file" },
  { code := .unreadableConfiguration, category := "Configuration", severity := .high, recoverable := true,
    description := "Configuration file could not be read",
    action := "Verify the path and file permissions" },
  { code := .malformedConfiguration, category := "Configuration", severity := .high, recoverable := true,
    description := "Configuration file is not valid TOML",
    action := "Fix the TOML syntax reported in the message" },
  { code := .inconsistentConfiguration, category := "Configuration", severity := .medium, recoverable := true,
    description := "Configuration preferences are inconsistent",
    action := "Enable the preference the message names or drop the dependent one" },
  { code := .unterminatedError, category := "Lexical", severity := .medium, recoverable := true,
    description := "Formula ended inside an error literal",
    action := "Complete the error literal (for example #DIV/0!)" },
  { code := .strayText, category := "Lexical", severity := .low, recoverable := true,
    description := "Quote, brace or error start found while operand text was pending",
    action := "Check for a missing operator before the quoted text" },
  { code := .scopeUnderflow, category := "Lexical", severity := .medium, recoverable := true,
    description := "Closing punctuation without a matching open scope",
    action := "Remove the extra ')' or '\x7d' or add the missing opener" },
  { code := .incompleteFormula, category := "Validation", severity := .high, recoverable := true,
    description := "Token stream is incomplete",
    action := "Inspect the trailing error literal of the formula" },
  { code := .unknownToken, category := "Validation", severity := .medium, recoverable := true,
    description := "Token stream contains an Unknown token",
    action := "Insert the missing operator between adjacent operands" },
  { code := .unbalancedScopes, category := "Validation", severity := .high, recoverable := true,
    description := "Start and Stop tokens are not balanced",
    action := "Balance parentheses and braces in the formula" },
  { code := .unexpectedStop, category := "Validation", severity := .high, recoverable := true,
    description := "Stop token appears before any matching Start token",
    action := "Remove the stray closing parenthesis" },
  { code := .loggingInitialized, category := "System", severity := .low, recoverable := true,
    description := "Logging system initialized",
    action := "No action required" },
  { code := .configurationLoaded, category := "Configuration", severity := .low, recoverable := true,
    description := "Runtime configuration loaded",
    action := "No action required" },
  { code := .scanned, category := "Lexical", severity := .low, recoverable := true,
    description := "Scanner produced the raw token list",
    action := "Continue to whitespace reduction" },
  { code := .whitespaceReduced, category := "Passes", severity := .low, recoverable := true,
    description := "Whitespace reduction completed",
    action := "Continue to classification" },
  { code := .classified, category := "Passes", severity := .low, recoverable := true,
    description := "Operator and operand classification completed",
    action := "Continue to no-op elimination" },
  { code := .noopsRemoved, category := "Passes", severity := .low, recoverable := true,
    description := "No-op elimination completed",
    action := "Token stream is ready" },
  { code := .parsed, category := "Pipeline", severity := .low, recoverable := true,
    description := "Formula tokenized",
    action := "No action required" },
  { code := .structureComplete, category := "Validation", severity := .low, recoverable := true,
    description := "Token stream is structurally complete",
    action := "No action required" }
]

namespace Code

/-- What the registry knows of a code. -/
def info? (c : Code) : Option CodeInfo := registry.find? (·.code = c)

/-- The severity of a code, medium for an unregistered one. -/
def severity (c : Code) : Severity := (c.info?.map CodeInfo.severity).getD .medium

/-- Whether the run can go on after an event of this code, as it can for an unregistered one. -/
def recoverable (c : Code) : Bool := (c.info?.map CodeInfo.recoverable).getD true

/-- The description that stands for an unregistered code. -/
def unknownDescription : String := "Unknown error"

/-- The description of a code. -/
def description (c : Code) : String := (c.info?.map CodeInfo.description).getD unknownDescription

/-- The action that stands for an unregistered code. -/
def noAction : String := "No specific action available"

/-- What to do about an event of this code. -/
def action (c : Code) : String := (c.info?.map CodeInfo.action).getD noAction

/-- What an event of this code is about. -/
def category (c : Code) : String := (c.info?.map CodeInfo.category).getD "Unknown"

/-- The codes of the registry. -/
def registered : List Code := registry.map CodeInfo.code

theorem nodup_registered : registered.Nodup := by decide

theorem info?_isSome {c : Code} (h : c ∈ registered) : c.info?.isSome = true := by
  obtain ⟨i, hi, rfl⟩ := List.mem_map.1 h
  exact List.find?_isSome.2 ⟨i, hi, by simp⟩

end Code

end SheetFormula.Log
