/-!
# TOML values

The values of a TOML document, as far as a reader of preferences tells them apart: texts and truth
values are kept, and numbers, dates and times are only known as such. Each table remembers how it came
about, because that decides whether later lines of the document may add to it.
-/

namespace SheetFormula.Toml

/-- How a table of a document came about. -/
inductive Origin where
  /-- By its own header, or as the document itself. -/
  | header
  /-- By the header of a table inside it. -/
  | implied
  /-- By a dotted key. -/
  | dotted
  /-- In braces, as a value. -/
  | inline
deriving DecidableEq, Repr, Inhabited

/-- A value of a document. -/
inductive Value where
  | string (s : String)
  | boolean (b : Bool)
  /-- An integer or a floating-point number. -/
  | number
  /-- A date, a time, or both. -/
  | dateTime
  | array (items : List Value)
  /-- A table with its entries, in the order in which they were written. -/
  | table (origin : Origin) (entries : List (String × Value))
  /-- The tables that headers with double brackets add one after the other. -/
  | tables (elements : List (List (String × Value)))
deriving Repr, Inhabited

/-- A table. -/
structure Table where
  origin : Origin
  entries : List (String × Value) := []
deriving Repr, Inhabited

namespace Table

/-- The table as a value. -/
def toValue (t : Table) : Value := .table t.origin t.entries

/-- The value of a key. -/
def get? (t : Table) (key : String) : Option Value := t.entries.lookup key

/-- Gives a key that has a value another one, in the same place, and adds any other key at the end. -/
def set (t : Table) (key : String) (v : Value) : Table :=
  if (t.get? key).isSome then
    { t with entries := t.entries.map fun e => if e.1 = key then (key, v) else e }
  else { t with entries := t.entries ++ [(key, v)] }

/-- The table without a key. -/
def erase (t : Table) (key : String) : Table :=
  { t with entries := t.entries.filter (·.1 ≠ key) }

/--
Changes the table that a path of keys leads to, and makes the tables on the way that are missing.

A path of a dotted key (`dotted`) does not lead through a table that has a header of its own, and no
path leads through a value, a table in braces included. Through the tables of double brackets it leads
into the last one.
-/
def changeAt (dotted : Bool) (change : Table → Option Table) : List String → Table → Option Table
  | [], t => change t
  | key :: path, t =>
    match t.get? key with
    | none => do
      let child ← changeAt dotted change path ⟨if dotted then .dotted else .implied, []⟩
      some (t.set key child.toValue)
    | some (.table origin entries) =>
      if origin = .inline ∨ (dotted = true ∧ origin = .header) then none
      else do
        let child ← changeAt dotted change path ⟨origin, entries⟩
        some (t.set key child.toValue)
    | some (.tables elements) =>
      match elements.getLast? with
      | none => none
      | some entries => do
        let child ← changeAt dotted change path ⟨.header, entries⟩
        some (t.set key (.tables (elements.dropLast ++ [child.entries])))
    | some _ => none

/-- Adds an entry under a path of keys; no entry may be there, and a dotted key does not add to a table
that has a header, its own or implied. -/
def addEntry (path : List String) (key : String) (v : Value) (t : Table) : Option Table :=
  changeAt true
    (fun t =>
      if decide (t.origin = .dotted) = path.isEmpty ∨ (t.get? key).isSome then none
      else some (t.set key v))
    path t

end Table

end SheetFormula.Toml
