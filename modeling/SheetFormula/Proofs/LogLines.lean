import SheetFormula.Log.Setup
import SheetFormula.Proofs.OutcomeRoundTrip

/-!
# The lines of a structured log

An event is shown as a JSON object on one line. Whatever stands in the event, the line holds no control
character, so it is one line, and it is read as one object with the fields that belong to the event; what
comes with the event stands in the field of the context and nowhere else. Main statements:

* `Json.isPrintable_compactChars`: a value printed without white space holds no control character;
* `Json.texts?_ofTexts`: a map of texts is read back from its object;
* `Json.lookup_present`, `Json.filter_present`: fields of which some are left out;
* `Log.Event.describes_fields`: which fields an event has, and what they hold;
* `Log.structured_line`: so what is read from the line of an event.
-/

namespace SheetFormula

namespace Json

/-! ## Control characters -/

/-- The character is no control character, such as a line break. -/
def isPrintable (c : Char) : Bool := 0x20 ≤ c.toNat

theorem isPrintable_hexDigit {n : Nat} (h : n < 16) : isPrintable (hexDigit n) = true := by
  have hall : ∀ n < 16, isPrintable (hexDigit n) = true := by decide
  exact hall n h

/-- A control character is escaped. -/
theorem isPrintable_escape (c : Char) : (escape c).all isPrintable = true := by
  unfold escape
  -- the characters with an escape of their own come first, then the other control characters
  split_ifs with hquote hslash hb hf hn hr ht hcontrol
  · rfl
  · rfl
  · rfl
  · rfl
  · rfl
  · rfl
  · rfl
  · have hhigh : isPrintable (hexDigit (c.toNat / 16)) = true :=
      isPrintable_hexDigit (Nat.div_lt_of_lt_mul (Nat.lt_trans hcontrol (by decide)))
    have hlow : isPrintable (hexDigit (c.toNat % 16)) = true :=
      isPrintable_hexDigit (Nat.mod_lt _ (by decide))
    simp only [List.all_cons, hhigh, hlow]
    rfl
  · rw [List.all_cons, List.all_nil, Bool.and_true, isPrintable, decide_eq_true_iff]
    exact Nat.le_of_not_lt hcontrol

theorem isPrintable_quote (l : Literal) : (quote l).all isPrintable = true := by
  cases l with
  | text s =>
    have hescaped : (s.toList.flatMap escape).all isPrintable = true := by
      rw [List.all_flatMap]
      exact List.all_eq_true.2 fun c _ => isPrintable_escape c
    rw [quote, List.all_cons, List.all_append, hescaped]
    rfl
  | unpaired => rfl

theorem isPrintable_toDigits (n : Nat) : (Nat.toDigits 10 n).all isPrintable = true := by
  refine List.all_eq_true.2 fun c hc => ?_
  have hdigit := isDigit_of_mem_toDigits hc
  simp only [Text.isDigit, Bool.and_eq_true, decide_eq_true_eq] at hdigit
  rw [isPrintable, decide_eq_true_iff]
  exact Nat.le_trans (by decide) (Char.le_def.1 hdigit.1)

mutual

/-- A value printed without white space holds no control character. -/
theorem isPrintable_compactChars : ∀ v : Json, (compactChars v).all isPrintable = true
  | .null => rfl
  | .bool true => rfl
  | .bool false => rfl
  | .nat n => isPrintable_toDigits n
  | .otherNumber => rfl
  | .string s => isPrintable_quote s
  | .array [] => rfl
  | .array (v :: vs) => by
    rw [compactChars, List.all_cons, List.all_append, isPrintable_compactChars v,
      isPrintable_compactItems vs]
    rfl
  | .object [] => rfl
  | .object ((k, v) :: fields) => by
    rw [compactChars, List.all_cons, List.all_append, List.all_cons, List.all_append,
      isPrintable_quote k, isPrintable_compactChars v, isPrintable_compactFields fields]
    rfl

theorem isPrintable_compactItems : ∀ vs : List Json, (compactItems vs).all isPrintable = true
  | [] => rfl
  | v :: vs => by
    rw [compactItems, List.all_cons, List.all_append, isPrintable_compactChars v,
      isPrintable_compactItems vs]
    rfl

theorem isPrintable_compactFields :
    ∀ fields : List (Literal × Json), (compactFields fields).all isPrintable = true
  | [] => rfl
  | (k, v) :: fields => by
    rw [compactFields, List.all_cons, List.all_append, List.all_cons, List.all_append,
      isPrintable_quote k, isPrintable_compactChars v, isPrintable_compactFields fields]
    rfl

end

/-! ## Maps of texts -/

/-- The object of a map of texts. -/
def ofTexts (m : SortedMap String) : Json := .ofFields (m.entries.map fun (k, s) => (k, .text s))

/-- A map of texts; of two equal keys the later counts. -/
def texts? (v : Json) : Option (SortedMap String) := do
  let fields ← v.fields?
  let pairs ← fields.mapM fun (k, v) => v.text?.map fun s => (k, s)
  pure (SortedMap.ofList pairs)

/-- A map of texts is read back from its object. -/
theorem texts?_ofTexts (m : SortedMap String) : (ofTexts m).texts? = some m := by
  have hpairs := mapM_entries (f := text?) (g := text) (l := m.entries) fun _ _ => rfl
  simp only [ofTexts, texts?, fields?_ofFields, Option.bind_eq_bind, Option.bind_some]
  rw [hpairs]
  simp only [Option.bind_some, Option.pure_def, SortedMap.ofList_entries]

/-! ## Optional fields -/

/-- The fields that have a value. -/
def present (slots : List (String × Option Json)) : List (String × Json) :=
  slots.filterMap fun slot => slot.2.map fun v => (slot.1, v)

variable {slots : List (String × Option Json)}

theorem present_cons_none (key : String) : present ((key, none) :: slots) = present slots := rfl

theorem present_cons_some (key : String) (v : Json) :
    present ((key, some v) :: slots) = (key, v) :: present slots := rfl

theorem present_sublist (slots : List (String × Option Json)) :
    ((present slots).map Prod.fst).Sublist (slots.map Prod.fst) := by
  induction slots with
  | nil => exact .slnil
  | cons slot slots ih =>
    obtain ⟨key, _ | v⟩ := slot
    · exact ih.cons key
    · exact ih.cons_cons key

theorem mem_present {key : String} :
    key ∈ (present slots).map Prod.fst ↔ ∃ slot ∈ slots, key = slot.1 ∧ slot.2.isSome = true := by
  simp only [present, List.mem_map, List.mem_filterMap, Option.map_eq_some_iff,
    Option.isSome_iff_exists]
  constructor
  · rintro ⟨_, ⟨slot, hmem, v, hv, rfl⟩, rfl⟩
    exact ⟨slot, hmem, rfl, v, hv⟩
  · rintro ⟨slot, hmem, rfl, v, hv⟩
    exact ⟨(slot.1, v), ⟨slot, hmem, v, hv, rfl⟩, rfl⟩

/-- Of fields with distinct keys, the one with a given key has the value that it had before. -/
theorem lookup_present (h : (slots.map Prod.fst).Nodup) (key : String) :
    (present slots).lookup key = (slots.lookup key).join := by
  induction slots with
  | nil => rfl
  | cons slot slots ih =>
    obtain ⟨k, v⟩ := slot
    rw [List.map_cons, List.nodup_cons] at h
    by_cases hkey : key = k
    · subst hkey
      cases v with
      | none =>
        -- no later field has the key of one that is left out
        have habsent : key ∉ (present slots).map Prod.fst := fun hmem =>
          h.1 ((present_sublist slots).subset hmem)
        rw [present_cons_none, List.lookup_cons_self, Option.join_some, List.lookup_eq_none_iff]
        exact fun f hf => bne_iff_ne.2 fun heq => habsent (List.mem_map.2 ⟨f, hf, heq.symm⟩)
      | some v => rw [present_cons_some, List.lookup_cons_self, List.lookup_cons_self, Option.join_some]
    · have hne : (key == k) = false := beq_eq_false_iff_ne.2 hkey
      cases v with
      | none => rw [present_cons_none, ih h.2, List.lookup_cons, hne]
      | some v => rw [present_cons_some, List.lookup_cons, hne, ih h.2, List.lookup_cons, hne]

theorem filter_present (p : String → Bool) (slots : List (String × Option Json)) :
    (present slots).filter (fun f => p f.1) = present (slots.filter fun slot => p slot.1) := by
  induction slots with
  | nil => rfl
  | cons slot slots ih =>
    obtain ⟨k, v⟩ := slot
    cases v with
    | none =>
      rw [present_cons_none, List.filter_cons, ih]
      split_ifs <;> rfl
    | some v =>
      rw [present_cons_some, List.filter_cons, List.filter_cons, ih]
      split_ifs <;> rfl

end Json

namespace Log

/-! ## The fields of an event -/

namespace Event

/-- What the fields of an object say of an event, at the time `timestamp`. -/
structure Describes (timestamp : String) (e : Event) (fields : List (String × Json)) : Prop where
  /-- The fields are in the order of their keys, of which no two are equal. -/
  sorted : (fields.map Prod.fst).Pairwise (· < ·)
  keys : ∀ key, key ∈ fields.map Prod.fst ↔
    key ∈ ["timestamp", "level", "code", "message", "category", "severity"] ∨
      (key = "error_metadata" ∧ e.level = .error) ∨
      (key = "position" ∧ e.position.isSome = true) ∨
      (key = "context" ∧ e.context.isEmpty = false)
  timestamp : fields.lookup "timestamp" = some (.text timestamp)
  level : fields.lookup "level" = some (.text e.level.tag)
  code : fields.lookup "code" = some (.text e.code.name)
  message : fields.lookup "message" = some (.text e.message)
  category : fields.lookup "category" = some (.text e.code.category)
  severity : fields.lookup "severity" = some (.text e.code.severity.name)
  position : fields.lookup "position" = e.position.map .nat
  metadata : fields.lookup "error_metadata" =
    if e.level = .error then
      some (.ofFields [("description", .text e.code.description),
        ("recommended_action", .text e.code.action), ("recoverable", .bool e.code.recoverable)])
    else none
  /-- The context of the event and nothing else; it has no field if it is empty. -/
  context : (fields.lookup "context").elim (some {}) Json.texts? = some e.context

/-- The fields that an event can have, in the order of their keys, each with its value if the event
has it. -/
def slots (timestamp : String) (e : Event) : List (String × Option Json) :=
  [("category", some (.text e.code.category)),
    ("code", some (.text e.code.name)),
    ("context", if e.context.isEmpty then none else some (.ofTexts e.context)),
    ("error_metadata", if e.level = .error then
      some (.ofFields [("description", .text e.code.description),
        ("recommended_action", .text e.code.action), ("recoverable", .bool e.code.recoverable)])
      else none),
    ("level", some (.text e.level.tag)),
    ("message", some (.text e.message)),
    ("position", e.position.map .nat),
    ("severity", some (.text e.code.severity.name)),
    ("timestamp", some (.text timestamp))]

variable (timestamp : String) (e : Event)

/-- The fields that the event has. -/
def fields : List (String × Json) := Json.present (e.slots timestamp)

theorem toJson_eq : e.toJson timestamp = .ofFields (e.fields timestamp) := by
  unfold toJson fields slots
  split_ifs <;> cases e.position <;> rfl

theorem pairwise_slots : ((e.slots timestamp).map Prod.fst).Pairwise (· < ·) := by
  have hkeys : (e.slots timestamp).map Prod.fst = ["category", "code", "context",
    "error_metadata", "level", "message", "position", "severity", "timestamp"] := rfl
  rw [hkeys]
  decide

theorem lookup_fields (key : String) :
    (e.fields timestamp).lookup key = ((e.slots timestamp).lookup key).join :=
  Json.lookup_present ((pairwise_slots timestamp e).imp fun h => String.ne_of_lt h) key

/-- The context is read back from the field that holds it, which only an empty one lacks. -/
theorem context_fields :
    ((e.fields timestamp).lookup "context").elim (some {}) Json.texts? = some e.context := by
  have hlookup : (e.fields timestamp).lookup "context" =
      if e.context.isEmpty then none else some (.ofTexts e.context) :=
    lookup_fields timestamp e "context"
  rw [hlookup]
  split_ifs with hempty
  · have hcontext : e.context = {} := SortedMap.ext (List.isEmpty_iff.1 hempty)
    rw [hcontext, Option.elim_none]
  · rw [Option.elim_some, Json.texts?_ofTexts]

/-- Which fields an event has. -/
theorem mem_fields (key : String) : key ∈ (e.fields timestamp).map Prod.fst ↔
    key ∈ ["timestamp", "level", "code", "message", "category", "severity"] ∨
      (key = "error_metadata" ∧ e.level = .error) ∨
      (key = "position" ∧ e.position.isSome = true) ∨
      (key = "context" ∧ e.context.isEmpty = false) := by
  have hcontext : (if e.context.isEmpty then none
      else some (Json.ofTexts e.context)).isSome = true ↔ e.context.isEmpty = false := by
    cases e.context.isEmpty <;> simp
  have hmetadata : ∀ v : Json, (if e.level = .error then some v else none).isSome = true ↔
      e.level = .error := by
    intro v
    split_ifs with hlevel <;> simp [hlevel]
  rw [fields, Json.mem_present]
  simp only [slots, List.exists_mem_cons_iff, Option.isSome_some, Option.isSome_map, and_true,
    hcontext, hmetadata]
  simp only [List.mem_cons, List.not_mem_nil, or_false]
  -- the two sides name the same keys in a different order
  grind only

/-- The fields of an event describe it. -/
theorem describes_fields : Describes timestamp e (e.fields timestamp) where
  sorted := (pairwise_slots timestamp e).sublist (Json.present_sublist _)
  keys := mem_fields timestamp e
  timestamp := lookup_fields timestamp e "timestamp"
  level := lookup_fields timestamp e "level"
  code := lookup_fields timestamp e "code"
  message := lookup_fields timestamp e "message"
  category := lookup_fields timestamp e "category"
  severity := lookup_fields timestamp e "severity"
  position := lookup_fields timestamp e "position"
  metadata := lookup_fields timestamp e "error_metadata"
  context := context_fields timestamp e

/-- A context adds its own field and changes no other. -/
theorem filter_fields_context (context : SortedMap String) :
    ({ e with context := context }.fields timestamp).filter (·.1 ≠ "context") =
      (e.fields timestamp).filter (·.1 ≠ "context") := by
  rw [fields, fields, Json.filter_present (· ≠ "context"), Json.filter_present (· ≠ "context")]
  rfl

theorem read?_jsonLine :
    Json.read? (e.jsonLine timestamp) = some (.ofFields (e.fields timestamp)) := by
  rw [jsonLine, Json.read?_compact, toJson_eq]

end Event

/-! ## Lines -/

/-- With structured logging an event at or above the minimum level is shown on one line without a control
character. The line is read as an object with the fields of the event, each with its own value, and
another context changes none of them but its own. -/
theorem structured_line (min : Level) (timestamp : String) (e : Event) :
    LogPreferences.line? ⟨true, true, min⟩ timestamp e =
        (if min.admits e.level then some (e.jsonLine timestamp) else none) ∧
      (∀ c ∈ (e.jsonLine timestamp).toList, 0x20 ≤ c.toNat) ∧
      ∃ fields, Json.read? (e.jsonLine timestamp) = some (.ofFields fields) ∧
        e.Describes timestamp fields ∧
        ∀ context, ∃ fields',
          Json.read? ({ e with context := context }.jsonLine timestamp) = some (.ofFields fields') ∧
            fields'.filter (·.1 ≠ "context") = fields.filter (·.1 ≠ "context") := by
  refine ⟨?_, ?_, e.fields timestamp, e.read?_jsonLine timestamp, e.describes_fields timestamp,
    fun context => ⟨_, Event.read?_jsonLine timestamp _, e.filter_fields_context timestamp context⟩⟩
  · simp only [LogPreferences.line?, Bool.true_and, if_true]
  · intro c hc
    rw [Event.jsonLine, Json.compact, String.toList_ofList] at hc
    exact decide_eq_true_iff.1 (List.all_eq_true.1 (Json.isPrintable_compactChars _) c hc)

end Log

end SheetFormula
