import SheetFormula.Toml.Scalar
import SheetFormula.Toml.Value

/-!
# TOML documents

A document is a sequence of lines: entries, headers of tables, comments and blank lines. Reading a
line and applying it to the document are separate: `Line` is what a line says, and `Draft.apply` says
what it does to the document so far, which refuses a key or a table that is already there.
-/

namespace SheetFormula.Toml

/-- The most levels to which values are nested, and the most parts of a dotted key. -/
def maxDepth : Nat := 79

/-! ## Keys and values -/

/-- A character of a key without quotes. -/
def isBareKeyChar (c : Char) : Bool := c.isAlphanum || c == '-' || c == '_'

/-- One part of a key. -/
def keyPart? : List Char → Option (List Char × List Char)
  | '"' :: cs => basicText 0 cs
  | '\x27' :: cs => literalText cs
  | cs =>
    if (cs.takeWhile isBareKeyChar).isEmpty then none
    else some (cs.takeWhile isBareKeyChar, cs.dropWhile isBareKeyChar)

/-- A key of at most so many parts, with blanks around each. -/
def key? : Nat → List Char → Option (List String × List Char)
  | 0, _ => none
  | parts + 1, cs =>
    match keyPart? (skipBlank cs) with
    | none => none
    | some (k, r) =>
      match skipBlank r with
      | '.' :: r => (key? parts r).map fun (ks, r) => (String.ofList k :: ks, r)
      | r => some ([String.ofList k], r)

/-- Skips blanks, line breaks and comments. -/
def skipTrivia (inComment : Bool) : List Char → List Char
  | [] => []
  | c :: cs =>
    if (newline? (c :: cs)).isSome then skipTrivia false cs
    else if inComment then if isPlainChar c then skipTrivia true cs else c :: cs
    else if isBlank c then skipTrivia false cs
    else if c = '#' then skipTrivia true cs
    else c :: cs

/-- A date or a number. -/
def numeric? (cs : List Char) : Option (Value × List Char) :=
  match dateTime? cs with
  | some r => some (.dateTime, r)
  | none =>
    match float? cs with
    | some r => some (.number, r)
    | none =>
      match numberWord? (sign cs).2 with
      | some r => some (.number, r)
      | none => (integer? cs).map fun r => (.number, r)

/-- An entry under a path of keys. -/
structure Entry where
  path : List String
  key : String
  value : Value
deriving Repr

/-- An entry of a key and a value. -/
def Entry.new? (keys : List String) (value : Value) : Option Entry :=
  keys.getLast?.map fun key => ⟨keys.dropLast, key, value⟩

/-- Adds entries one after the other. -/
def Table.addEntries? (t : Table) (entries : List Entry) : Option Table :=
  entries.foldlM (fun t e => t.addEntry e.path e.key e.value) t

mutual

/-- A value inside of `depth` others; the bound is on the length of the text. -/
def value? (bound depth : Nat) (cs : List Char) : Option (Value × List Char) :=
  match bound with
  | 0 => none
  | bound + 1 =>
    match cs with
    | 't' :: 'r' :: 'u' :: 'e' :: r => some (.boolean true, r)
    | 'f' :: 'a' :: 'l' :: 's' :: 'e' :: r => some (.boolean false, r)
    | '[' :: r =>
      if depth < maxDepth then
        (items? bound (depth + 1) r).map fun (vs, r) => (.array vs, r)
      else none
    | '\x7b' :: r =>
      if depth < maxDepth then
        match skipBlank r with
        | '\x7d' :: r => some (.table .inline [], r)
        | _ =>
          match entries? bound (depth + 1) r with
          | none => none
          | some (es, r) =>
            ((Table.mk .inline []).addEntries? es).map fun t => (t.toValue, r)
      else none
    | c :: r =>
      if c = '"' ∨ c = '\x27' then
        (text? (c :: r)).map fun (s, r) => (.string (String.ofList s), r)
      else numeric? (c :: r)
    | [] => none

/-- The items of an array after the opening bracket or a comma, up to the closing bracket. -/
def items? (bound depth : Nat) (cs : List Char) : Option (List Value × List Char) :=
  match bound with
  | 0 => none
  | bound + 1 =>
    match skipTrivia false cs with
    | ']' :: r => some ([], r)
    | r =>
      match value? bound depth r with
      | none => none
      | some (v, r) =>
        match skipTrivia false r with
        | ',' :: r => (items? bound depth r).map fun (vs, r) => (v :: vs, r)
        | ']' :: r => some ([v], r)
        | _ => none

/-- One or more entries of a table in braces, with commas between them, up to the closing brace. -/
def entries? (bound depth : Nat) (cs : List Char) : Option (List Entry × List Char) :=
  match bound with
  | 0 => none
  | bound + 1 =>
    match key? maxDepth cs with
    | some (keys, '=' :: r) =>
      match value? bound depth (skipBlank r) with
      | none => none
      | some (v, r) =>
        match Entry.new? keys v with
        | none => none
        | some e =>
          match skipBlank r with
          | ',' :: r => (entries? bound depth r).map fun (es, r) => (e :: es, r)
          | '\x7d' :: r => some ([e], r)
          | _ => none
    | _ => none

end

/-! ## Lines -/

/-- What a line of a document says. -/
inductive Line where
  | blank
  | entry (e : Entry)
  /-- The header of a table. -/
  | header (keys : List String)
  /-- The header of one more of several tables. -/
  | listHeader (keys : List String)
deriving Repr

/-- The text after the rest of a line, which holds nothing but blanks and a comment. -/
def lineEnd? (cs : List Char) : Option (List Char) :=
  let r := match skipBlank cs with
    | '#' :: r => r.dropWhile isPlainChar
    | r => r
  if r.isEmpty then some [] else newline? r

/-- A line without its end. -/
def lineStart? (cs : List Char) : Option (Line × List Char) :=
  match skipBlank cs with
  | [] => some (.blank, [])
  | '#' :: r => some (.blank, '#' :: r)
  | '\n' :: r => some (.blank, '\n' :: r)
  | '\r' :: r => some (.blank, '\r' :: r)
  | '[' :: '[' :: r =>
    match key? maxDepth r with
    | some (keys, ']' :: ']' :: r) => some (.listHeader keys, r)
    | _ => none
  | '[' :: r =>
    match key? maxDepth r with
    | some (keys, ']' :: r) => some (.header keys, r)
    | _ => none
  | r =>
    match key? maxDepth r with
    | some (keys, '=' :: r) =>
      match value? (2 * r.length + 2) 0 (skipBlank r) with
      | some (v, r) => (Entry.new? keys v).map fun e => (.entry e, r)
      | none => none
    | _ => none

/-- A line and the text after it. -/
def line? (cs : List Char) : Option (Line × List Char) := do
  let (l, r) ← lineStart? cs
  let r ← lineEnd? r
  some (l, r)

/-- The lines of a text, of at most so many. -/
def lines? : Nat → List Char → Option (List Line)
  | _, [] => some []
  | 0, _ => none
  | bound + 1, cs => do
    let (l, r) ← line? cs
    let ls ← lines? bound r
    some (l :: ls)

/-! ## The document -/

/-- A document as far as it was read: the finished tables, and the one that entries go to. -/
structure Draft where
  root : Table := ⟨.header, []⟩
  /-- The keys of the open table, none for the document itself. -/
  path : List String := []
  /-- The open table is one of several. -/
  listed : Bool := false
  current : Table := ⟨.header, []⟩

namespace Draft

/-- Puts the open table in its place. -/
def close? (d : Draft) : Option Table :=
  match d.path.getLast? with
  | none => some d.current
  | some key =>
    d.root.changeAt false
      (fun parent =>
        if d.listed then
          match parent.get? key with
          | some (.tables elements) =>
            some (parent.set key (.tables (elements ++ [d.current.entries])))
          | none => some (parent.set key (.tables [d.current.entries]))
          | some _ => none
        else if (parent.get? key).isSome then none
        else some (parent.set key d.current.toValue))
      d.path.dropLast

/-- The table that a header opens, and its parent without it: a new one, or one that is there only
because of the tables inside it. -/
def takeTable? (key : String) (parent : Table) : Option (Table × Table) :=
  match parent.get? key with
  | none => some (⟨.header, []⟩, parent)
  | some (.table .implied entries) => some (⟨.header, entries⟩, parent.erase key)
  | some _ => none

/-- The table that a path of keys leads to; missing ones are empty. -/
def lookup? : List String → Table → Option Table
  | [], t => some t
  | key :: path, t =>
    match t.get? key with
    | none => some ⟨.implied, []⟩
    | some (.table origin entries) => if origin = .inline then none else lookup? path ⟨origin, entries⟩
    | some (.tables elements) =>
      match elements.getLast? with
      | some entries => lookup? path ⟨.header, entries⟩
      | none => none
    | some _ => none

/-- Opens a table. -/
def open? (root : Table) (keys : List String) : Option Draft := do
  let key ← keys.getLast?
  let parent ← lookup? keys.dropLast root
  let (table, _) ← takeTable? key parent
  let root ← root.changeAt false (fun t => (takeTable? key t).map (·.2)) keys.dropLast
  some { root := root, path := keys, listed := false, current := table }

/-- Opens one more of several tables. -/
def openListed? (root : Table) (keys : List String) : Option Draft := do
  let key ← keys.getLast?
  let root ← root.changeAt false
    (fun parent =>
      match parent.get? key with
      | none => some (parent.set key (.tables []))
      | some (.tables _) => some parent
      | some _ => none)
    keys.dropLast
  some { root := root, path := keys, listed := true, current := ⟨.header, []⟩ }

/-- What a line does to the document. -/
def apply (d : Draft) : Line → Option Draft
  | .blank => some d
  | .entry e => (d.current.addEntry e.path e.key e.value).map fun t => { d with current := t }
  | .header keys => do open? (← d.close?) keys
  | .listHeader keys => do openListed? (← d.close?) keys

end Draft

/-- The table that a document describes, if it is well-formed. -/
def read? (document : String) : Option Table :=
  let cs := match document.toList with
    | '\ufeff' :: cs => cs
    | cs => cs
  match lines? cs.length cs with
  | none => none
  | some ls => (ls.foldlM Draft.apply {}).bind Draft.close?

end SheetFormula.Toml
