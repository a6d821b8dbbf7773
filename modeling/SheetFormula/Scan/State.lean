import SheetFormula.Scan.Trace
import SheetFormula.Text.Blank
import SheetFormula.Token.ScopeStack

/-!
# The state of a scan

A formula is scanned in its normalized form: without white space at its ends and, unless it is empty,
with a leading `=`. The state of a scan holds the text that is left with its offset, the text of the
operand that is being collected, the open scopes, and a record of what was done. The record is a trace
unless another one is asked for, such as a count of what would be in the trace; whatever it is, the
scanner only adds to it. The operations of this module are the vocabulary of the scanner's rules.
-/

namespace SheetFormula.Scan

/-- The text of a formula without white space at its ends and, unless empty, with a leading `=`. -/
def normalize (formula : List Char) : List Char :=
  match Text.trim formula with
  | [] => []
  | '=' :: cs => '=' :: cs
  | cs => '=' :: cs

/-- The kind of text that the scan is in. -/
inductive Mode where
  /-- Outside all literals. -/
  | code
  /-- In a text literal, between double quotes. -/
  | text
  /-- In a path, between single quotes. -/
  | path
  /-- In a bracket segment of a reference. -/
  | bracket
  /-- In an error literal. -/
  | error
deriving DecidableEq, Repr, Inhabited

/-- A record of what a scan does, which takes note of one entry after the other. -/
class Recorder (ρ : Type) where
  /-- The record with one more entry. -/
  note : ρ → Entry → ρ

instance : Recorder (Array Entry) := ⟨Array.push⟩

@[simp] theorem note_trace (trace : Array Entry) (e : Entry) : Recorder.note trace e = trace.push e :=
  rfl

/-- The state of a scan. -/
structure State (ρ : Type := Array Entry) where
  /-- The whole normalized formula. -/
  text : List Char
  /-- How many characters the cursor has passed; it may pass more than there are. -/
  offset : Nat
  /-- The text from the cursor on. -/
  rest : List Char
  mode : Mode := .code
  /-- The text of the operand that is being collected. -/
  pending : String := ""
  scopes : ScopeStack := {}
  /-- What was recorded of the scan. -/
  trace : ρ
deriving DecidableEq, Repr

namespace State

variable {ρ : Type}

/-- The state before the first character after the leading `=`. -/
def start (formula : String) : State :=
  let text := normalize formula.toList
  { text := text, offset := if text.isEmpty then 0 else 1, rest := text.drop 1, trace := #[] }

/-- The state with another record. -/
def recording {σ : Type} (s : State ρ) (record : σ) : State σ := { s with trace := record }

/-- The normalized formula. -/
def formula (s : State ρ) : String := String.ofList s.text

/-- No character is left. -/
def atEnd (s : State ρ) : Bool := s.rest.isEmpty

/-- The character under the cursor. -/
def current? (s : State ρ) : Option Char := s.rest.head?

/-- The character after the one under the cursor. -/
def next? (s : State ρ) : Option Char := s.rest[1]?

/-- The character under the cursor and the one after it. -/
def pair? (s : State ρ) : Option String :=
  match s.rest with
  | c :: d :: _ => some (String.ofList [c, d])
  | _ => none

/-- The tokens that were put out. -/
def tokens (s : State) : List Token := tokensOf s.trace.toList

/-- Moves the cursor over `n` characters. -/
def advance (s : State ρ) (n : Nat) : State ρ :=
  { s with offset := s.offset + n, rest := s.rest.drop n }

/-- Changes the kind of text that the scan is in. -/
def enter (s : State ρ) (mode : Mode) : State ρ := { s with mode := mode }

/-- Adds a character to the pending text. -/
def collect (s : State ρ) (c : Char) : State ρ := { s with pending := s.pending.push c }

/-- Forgets the pending text. -/
def dropPending (s : State ρ) : State ρ := { s with pending := "" }

section Recording

variable [Recorder ρ]

/-- Adds an entry to the record. -/
def note (s : State ρ) (e : Entry) : State ρ := { s with trace := Recorder.note s.trace e }

/-- Puts out a token. -/
def emit (s : State ρ) (t : Token) : State ρ := s.note (.token s.offset t)

/-- Puts out the pending text as a token, and has nothing pending afterwards. -/
def emitPending (s : State ρ) (kind : Kind) (subkind : Subkind) : State ρ :=
  s.dropPending.emit ⟨s.pending, kind, subkind⟩

/-- Puts out the pending text, if there is any, as an operand. -/
def flush (s : State ρ) : State ρ :=
  if s.pending = "" then s else s.emitPending .operand .plain

/-- Puts out the pending text, if there is any, as text that the delimiter cannot follow. -/
def flushStray (s : State ρ) (delimiter : Char) : State ρ :=
  if s.pending = "" then s
  else (s.note (.stray s.offset delimiter s.pending)).emitPending .unknown .plain

/-- Opens a scope. -/
def openScope (s : State ρ) (value : String) (kind : Kind) : State ρ :=
  let t : Token := ⟨value, kind, .start⟩
  let scopes := s.scopes.push t
  { s with scopes := scopes }.note (.opened s.offset scopes.depth t)

/-- Opens the function call whose name is pending. -/
def openPending (s : State ρ) : State ρ := s.dropPending.openScope s.pending .function

/-- Closes the innermost scope; where none is open, a function call is closed all the same. -/
def closeScope (s : State ρ) (delimiter : Char) : State ρ :=
  let s := if s.scopes.isEmpty then s.note (.unopened s.offset delimiter) else s
  { s with scopes := s.scopes.pop }.note (.closed s.scopes.closing)

end Recording

@[simp] theorem trace_note (s : State) (e : Entry) : (s.note e).trace = s.trace.push e := rfl

/-! ## What moving and collecting do to the text that is left, the mode and the pending text -/

@[simp] theorem rest_advance (s : State ρ) (n : Nat) : (s.advance n).rest = s.rest.drop n := rfl
@[simp] theorem rest_enter (s : State ρ) (m : Mode) : (s.enter m).rest = s.rest := rfl
@[simp] theorem rest_collect (s : State ρ) (c : Char) : (s.collect c).rest = s.rest := rfl

@[simp] theorem mode_advance (s : State ρ) (n : Nat) : (s.advance n).mode = s.mode := rfl
@[simp] theorem mode_enter (s : State ρ) (m : Mode) : (s.enter m).mode = m := rfl
@[simp] theorem mode_collect (s : State ρ) (c : Char) : (s.collect c).mode = s.mode := rfl

@[simp] theorem pending_advance (s : State ρ) (n : Nat) : (s.advance n).pending = s.pending := rfl
@[simp] theorem pending_enter (s : State ρ) (m : Mode) : (s.enter m).pending = s.pending := rfl
@[simp] theorem pending_collect (s : State ρ) (c : Char) :
    (s.collect c).pending = s.pending.push c := rfl

section Recording

variable [Recorder ρ]

/-! ## What the other operations do to the text that is left -/

@[simp] theorem rest_note (s : State ρ) (e : Entry) : (s.note e).rest = s.rest := rfl
@[simp] theorem rest_emit (s : State ρ) (t : Token) : (s.emit t).rest = s.rest := rfl
@[simp] theorem rest_emitPending (s : State ρ) (k : Kind) (u : Subkind) :
    (s.emitPending k u).rest = s.rest := rfl
@[simp] theorem rest_openScope (s : State ρ) (v : String) (k : Kind) :
    (s.openScope v k).rest = s.rest := rfl
@[simp] theorem rest_openPending (s : State ρ) : s.openPending.rest = s.rest := rfl

@[simp] theorem rest_flush (s : State ρ) : s.flush.rest = s.rest := by
  unfold flush; split <;> rfl

@[simp] theorem rest_flushStray (s : State ρ) (c : Char) : (s.flushStray c).rest = s.rest := by
  unfold flushStray; split <;> rfl

@[simp] theorem rest_closeScope (s : State ρ) (c : Char) : (s.closeScope c).rest = s.rest := by
  unfold closeScope; split <;> rfl

/-! ## What they do to the mode -/

@[simp] theorem mode_emit (s : State ρ) (t : Token) : (s.emit t).mode = s.mode := rfl
@[simp] theorem mode_emitPending (s : State ρ) (k : Kind) (u : Subkind) :
    (s.emitPending k u).mode = s.mode := rfl
@[simp] theorem mode_openScope (s : State ρ) (v : String) (k : Kind) :
    (s.openScope v k).mode = s.mode := rfl
@[simp] theorem mode_openPending (s : State ρ) : s.openPending.mode = s.mode := rfl

@[simp] theorem mode_flush (s : State ρ) : s.flush.mode = s.mode := by
  unfold flush; split <;> rfl

@[simp] theorem mode_flushStray (s : State ρ) (c : Char) : (s.flushStray c).mode = s.mode := by
  unfold flushStray; split <;> rfl

@[simp] theorem mode_closeScope (s : State ρ) (c : Char) : (s.closeScope c).mode = s.mode := by
  unfold closeScope; split <;> rfl

/-! ## What they do to the pending text -/

@[simp] theorem pending_emit (s : State ρ) (t : Token) : (s.emit t).pending = s.pending := rfl
@[simp] theorem pending_emitPending (s : State ρ) (k : Kind) (u : Subkind) :
    (s.emitPending k u).pending = "" := rfl
@[simp] theorem pending_openScope (s : State ρ) (v : String) (k : Kind) :
    (s.openScope v k).pending = s.pending := rfl
@[simp] theorem pending_openPending (s : State ρ) : s.openPending.pending = "" := rfl

@[simp] theorem pending_flush (s : State ρ) : s.flush.pending = "" := by
  unfold flush; split
  · assumption
  · rfl

@[simp] theorem pending_closeScope (s : State ρ) (c : Char) :
    (s.closeScope c).pending = s.pending := by
  unfold closeScope; split <;> rfl

end Recording

end State

end SheetFormula.Scan
