import Mathlib.Data.List.Nodup
import SheetFormula.Outcome
import SheetFormula.Proofs.Json.RoundTrip

/-!
# Outcomes are read back

The JSON text of an outcome, and that of a token, describes nothing else: reading it gives the outcome
or the token back, whatever the texts, the tokens and the maps in it, as long as the counters are 64-bit
numbers. Main statements:

* `SortedMap.ofList_entries`: a map is made again from its entries in order;
* `Json.record?_ofFields`: a record finds its fields in the object that they are written to;
* `Token.ofJson?_toJson`, `Metrics.ofJson?_toJson`, `Outcome.ofJson?_toJson`: what is described is
  decoded;
* `read_back_of_fits`: an outcome and a token are read back from their texts, and the outcome is checked
  with the same verdict.
-/

namespace SheetFormula

/-! ## Maps -/

namespace SortedMap

variable {α : Type}

/-- A key above all others goes to the end. -/
theorem insertEntry_of_forall_lt {key : String} (value : α) {l : List (String × α)}
    (h : ∀ e ∈ l, e.1 < key) : insertEntry key value l = l ++ [(key, value)] := by
  induction l with
  | nil => rfl
  | cons e l ih =>
    obtain ⟨k, v⟩ := e
    rw [List.forall_mem_cons] at h
    have hlt : ¬ key < k := String.lt_asymm h.1
    have hne : key ≠ k := (String.ne_of_lt h.1).symm
    rw [insertEntry, if_neg hlt, if_neg hne, ih h.2, List.cons_append]

theorem entries_insertAll {m : SortedMap α} {pairs : List (String × α)}
    (h : (m.entries ++ pairs).Pairwise fun a b => a.1 < b.1) :
    (m.insertAll pairs).entries = m.entries ++ pairs := by
  induction pairs generalizing m with
  | nil => exact (List.append_nil _).symm
  | cons p pairs ih =>
    obtain ⟨key, value⟩ := p
    have hbelow : ∀ e ∈ m.entries, e.1 < key := fun e he =>
      (List.pairwise_append.1 h).2.2 e he (key, value) List.mem_cons_self
    have hinsert : (m.insert key value).entries = m.entries ++ [(key, value)] :=
      insertEntry_of_forall_lt value hbelow
    rw [insertAll, List.foldl_cons, ← insertAll, ih, hinsert, List.append_assoc,
      List.singleton_append]
    rwa [hinsert, List.append_assoc, List.singleton_append]

/-- A map is made again from its entries. -/
theorem ofList_entries (m : SortedMap α) : ofList m.entries = m :=
  SortedMap.ext (entries_insertAll (m := empty) m.sorted)

end SortedMap

/-! ## Records and their parts -/

namespace Json

theorem mapM_eq_some {α β : Type} {f : α → Option β} {g : α → β} {l : List α}
    (h : ∀ a ∈ l, f a = some (g a)) : l.mapM f = some (l.map g) := by
  induction l with
  | nil => rfl
  | cons a l ih =>
    rw [List.forall_mem_cons] at h
    rw [List.mapM_cons, h.1, ih h.2]
    rfl

@[simp] theorem text?_text (s : String) : (text s).text? = some s := rfl

@[simp] theorem name?_text (s : String) : (text s).name? = some s := rfl

@[simp] theorem bool?_bool (b : Bool) : (Json.bool b).bool? = some b := rfl

theorem count?_nat {n : Nat} (h : n < UInt64.size) : (Json.nat n).count? = some n := by
  simp only [count?, nat?, Option.bind_eq_bind, Option.bind_some, if_pos h]

theorem fields?_ofFields (fields : List (String × Json)) :
    (ofFields fields).fields? = some fields := by
  rw [ofFields, fields?, List.mapM_map, mapM_eq_some (g := id), List.map_id]
  exact fun _ _ => rfl

/-- Of fields with distinct keys only one has the key of a given one. -/
theorem filter_key {fields : List (String × Json)} (h : (fields.map Prod.fst).Nodup)
    {f : String × Json} (hf : f ∈ fields) : fields.filter (·.1 = f.1) = [f] := by
  induction fields with
  | nil => nomatch hf
  | cons g fields ih =>
    rw [List.map_cons, List.nodup_cons] at h
    have hmem : ∀ e ∈ fields, e.1 ≠ g.1 := fun e he heq =>
      h.1 (heq ▸ List.mem_map_of_mem he)
    rcases List.mem_cons.1 hf with rfl | hf
    · rw [List.filter_cons_of_pos (by simp), List.filter_eq_nil_iff.2]
      simpa using hmem
    · rw [List.filter_cons_of_neg (by simpa using (hmem f hf).symm), ih h.2 hf]

/-- A record finds its fields in the object that they are written to. -/
theorem record?_ofFields {names : List String} (hnodup : names.Nodup) {fields : List (String × Json)}
    (hnames : fields.map Prod.fst = names) :
    (ofFields fields).record? names = some (fields.map Prod.snd) := by
  subst hnames
  show ((ofFields fields).fields?).bind _ = _
  rw [fields?_ofFields, Option.bind_some, List.mapM_map]
  refine mapM_eq_some fun f hf => ?_
  simp only [Function.comp_apply, filter_key hnodup hf]

/-- Entries are read back one by one, each with its key. -/
theorem mapM_entries {α : Type} {f : Json → Option α} {g : α → Json} {l : List (String × α)}
    (h : ∀ e ∈ l, f (g e.2) = some e.2) :
    (l.map fun e => (e.1, g e.2)).mapM (fun e => (f e.2).map fun a => (e.1, a)) = some l := by
  rw [List.mapM_map, mapM_eq_some (g := id), List.map_id]
  intro e he
  simp only [Function.comp_apply, h e he, Option.map_some, id]

/-- A map of counts is read back from its object. -/
theorem counts?_ofCounts {m : SortedMap Nat} (h : ∀ e ∈ m.entries, e.2 < UInt64.size) :
    (ofCounts m).counts? = some m := by
  have hpairs := mapM_entries (f := count?) (g := Json.nat) fun e he => count?_nat (h e he)
  simp only [ofCounts, counts?, fields?_ofFields, Option.bind_eq_bind, Option.bind_some]
  rw [hpairs]
  simp only [Option.bind_some, Option.pure_def, SortedMap.ofList_entries]

end Json

/-! ## Tokens, metrics and outcomes -/

/-- What an object describes as a token is the token that was written. -/
theorem Token.ofJson?_toJson (t : Token) : ofJson? t.toJson = some t := by
  have hrecord : t.toJson.record? ["value", "type", "subtype"] =
      some [.text t.value, .text t.kind.name, .text t.subkind.name] :=
    Json.record?_ofFields (by decide) rfl
  simp only [ofJson?, hrecord, Option.bind_eq_bind, Option.bind_some, Json.text?_text,
    Json.name?_text, Kind.ofName?_name, Subkind.ofName?_name, Option.pure_def]

namespace Metrics

/-- The counters that are numbers by themselves. -/
def counters (m : Metrics) : List Nat :=
  [m.rawTokens, m.finalTokens, m.underflows, m.unknownTokens, m.whitespaceDropped,
    m.intersectionsCreated, m.noopsRemoved, m.maxScopeDepth]

/-- Every counter is a 64-bit number. -/
structure Fits (m : Metrics) : Prop where
  counters : ∀ n ∈ m.counters, n < UInt64.size
  kindCounts : ∀ e ∈ m.kindCounts.entries, e.2 < UInt64.size
  operatorUsage : ∀ e ∈ m.operatorUsage.entries, e.2 < UInt64.size

theorem ofJson?_toJson {m : Metrics} (h : m.Fits) : ofJson? m.toJson = some m := by
  have hrecord : m.toJson.record? fieldNames =
      some [.nat m.rawTokens, .nat m.finalTokens, .nat m.underflows, .nat m.unknownTokens,
        .nat m.whitespaceDropped, .nat m.intersectionsCreated, .nat m.noopsRemoved,
        .nat m.maxScopeDepth, .ofCounts m.kindCounts, .ofCounts m.operatorUsage] :=
    Json.record?_ofFields (by decide) rfl
  have hcounters := h.counters
  simp only [counters, List.forall_mem_cons, List.not_mem_nil, false_implies, implies_true,
    and_true] at hcounters
  obtain ⟨hraw, hfinal, hunder, hunknown, hdropped, hintersections, hnoops, hdepth⟩ := hcounters
  simp only [ofJson?, hrecord, Option.bind_eq_bind, Option.bind_some, Option.pure_def,
    Json.count?_nat hraw, Json.count?_nat hfinal, Json.count?_nat hunder, Json.count?_nat hunknown,
    Json.count?_nat hdropped, Json.count?_nat hintersections, Json.count?_nat hnoops,
    Json.count?_nat hdepth, Json.counts?_ofCounts h.kindCounts,
    Json.counts?_ofCounts h.operatorUsage]

end Metrics

namespace Outcome

theorem ofJson?_toJson {o : Outcome} (h : o.metrics.Fits) : ofJson? o.toJson = some o := by
  have hrecord : o.toJson.record? ["formula", "tokens", "in_error", "metrics"] =
      some [.text o.formula, .array (o.tokens.map Token.toJson), .bool o.inError,
        o.metrics.toJson] :=
    Json.record?_ofFields (by decide) rfl
  have htokens : (o.tokens.map Token.toJson).mapM Token.ofJson? = some o.tokens := by
    rw [List.mapM_map, Json.mapM_eq_some (g := id), List.map_id]
    exact fun t _ => t.ofJson?_toJson
  simp only [ofJson?, hrecord, Option.bind_eq_bind, Option.bind_some, Option.pure_def,
    Json.text?_text, items?, htokens, Json.bool?_bool, Metrics.ofJson?_toJson h]

/-- An outcome is read back from its text. -/
theorem read?_toText {o : Outcome} (h : o.metrics.Fits) : read? o.toText = some o := by
  rw [read?, toText, Json.read?_indented]
  exact ofJson?_toJson h

end Outcome

/-- A token is read back from its text on one line. -/
theorem Token.read?_compact (t : Token) : read? t.toJson.compact = some t := by
  rw [read?, Json.read?_compact]
  exact t.ofJson?_toJson

/-- The string literal of a text. -/
def Json.literalText (s : String) : String := String.ofList (Json.quote (.text s))

/-- The text of a token has its value, kind and subkind under their keys, in this order. -/
theorem Token.compact_toJson (t : Token) :
    t.toJson.compact =
      "\x7b\"value\":" ++ Json.literalText t.value ++ ",\"type\":" ++ Json.literalText t.kind.name ++
        ",\"subtype\":" ++ Json.literalText t.subkind.name ++ "\x7d" := by
  apply String.toList_injective
  simp only [Json.compact, Json.literalText, toJson, Json.ofFields, Json.text, List.map_cons,
    List.map_nil, Json.compactChars, Json.compactFields, String.toList_append, String.toList_ofList,
    List.append_assoc]
  rfl

/-- An outcome whose counters are 64-bit numbers is read back from its text as it was, so a check of it
gives the same verdict; and every token is read back from its text, in which a kind without a subkind
has the empty text as its subkind. -/
theorem read_back_of_fits (o : Outcome) (ho : o.metrics.Fits) (t : Token) :
    Outcome.read? o.toText = some o ∧
      (Outcome.read? o.toText).map Outcome.check = some o.check ∧
      Token.read? t.toJson.compact = some t ∧
      t.toJson.compact =
        "\x7b\"value\":" ++ Json.literalText t.value ++ ",\"type\":" ++
          Json.literalText t.kind.name ++ ",\"subtype\":" ++ Json.literalText t.subkind.name ++
          "\x7d" ∧
      Subkind.plain.name = "" := by
  have hread : Outcome.read? o.toText = some o := Outcome.read?_toText ho
  refine ⟨hread, ?_, t.read?_compact, t.compact_toJson, rfl⟩
  rw [hread, Option.map_some]

/-- An outcome with characters that are escaped, a character beyond the first plane and the largest
counter. -/
def escapedOutcome : Outcome where
  formula := "=\"\\\x00\n😀\""
  tokens := [⟨"\\\x00\n😀", .operand, .text⟩, ⟨",", .argument, .plain⟩]
  inError := false
  metrics :=
    { rawTokens := 18446744073709551615
      kindCounts := ⟨[("\x7f", 1), ("é\"", 18446744073709551615)], by decide⟩ }

theorem read_back_escapedOutcome :
    escapedOutcome.metrics.Fits ∧
      Outcome.read? escapedOutcome.toText = some escapedOutcome ∧
      (Outcome.read? escapedOutcome.toText).map Outcome.check = some (.ok ()) ∧
      Token.read? "\x7b\"value\":\"\\u0001\",\"type\":\"Argument\",\"subtype\":\"\"\x7d" =
        some ⟨"\x01", .argument, .plain⟩ := by
  have hfits : escapedOutcome.metrics.Fits := ⟨by decide, by decide, by decide⟩
  obtain ⟨hread, hcheck, htoken, -⟩ :=
    read_back_of_fits escapedOutcome hfits ⟨"\x01", .argument, .plain⟩
  exact ⟨hfits, hread, hcheck, htoken⟩

end SheetFormula
