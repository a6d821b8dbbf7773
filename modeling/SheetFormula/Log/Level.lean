/-!
# Log levels

The four levels of an event, from the most to the least severe, the three spellings in which they are
written, and the spellings in which they are read. A minimum level admits the events that are at
least as severe as itself.
-/

namespace SheetFormula.Log

/-- The level of an event. -/
inductive Level where
  | error
  | warning
  | info
  | debug
deriving DecidableEq, Repr, Inhabited

namespace Level

/-- All levels, the most severe first. -/
def all : List Level := [error, warning, info, debug]

/-- The place of a level, the most severe first. -/
def rank : Level → Nat
  | error => 0
  | warning => 1
  | info => 2
  | debug => 3

/-- The level as events show it. -/
def tag : Level → String
  | error => "ERROR"
  | warning => "WARN"
  | info => "INFO"
  | debug => "DEBUG"

/-- The level as configuration documents name it. -/
def word : Level → String
  | error => "error"
  | warning => "warning"
  | info => "info"
  | debug => "debug"

/-- The level as diagnostics name it. -/
def label : Level → String
  | error => "Error"
  | warning => "Warning"
  | info => "Info"
  | debug => "Debug"

/-- The level with a tag. -/
def ofTag? (s : String) : Option Level := all.find? (·.tag = s)

/-- The level that a configuration document names. -/
def ofWord? (s : String) : Option Level := all.find? (·.word = s)

/--
Reads a level leniently: its word in either case, `warn` for a warning, or its rank as one digit.

The only character outside ASCII whose lower case is an ASCII letter is the Kelvin sign, and no level
has a `k` in its name; so the ASCII case map decides this for every text.
-/
def parse? (s : String) : Option Level :=
  let w := s.toList.map Char.toLower
  if w = "error".toList ∨ w = ['0'] then some error
  else if w = "warning".toList ∨ w = "warn".toList ∨ w = ['1'] then some warning
  else if w = "info".toList ∨ w = ['2'] then some info
  else if w = "debug".toList ∨ w = ['3'] then some debug
  else none

/-- With this minimum level, events of level `l` are let through. -/
def admits (min l : Level) : Bool := l.rank ≤ min.rank

theorem mem_all (l : Level) : l ∈ all := by cases l <;> decide

theorem ofTag?_tag (l : Level) : ofTag? l.tag = some l := by cases l <;> decide

theorem ofWord?_word (l : Level) : ofWord? l.word = some l := by cases l <;> decide

@[simp] theorem admits_self (l : Level) : l.admits l = true := by simp [admits]

@[simp] theorem debug_admits (l : Level) : debug.admits l = true := by cases l <;> rfl

end Level

end SheetFormula.Log
