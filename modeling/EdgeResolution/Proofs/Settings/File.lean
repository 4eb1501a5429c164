/-
# EdgeResolution.Proofs.Settings.File -- what a file says of the settings

Whatever settings there are, a file can give them: `Settings.document` is a TOML
document of their stored form, and `load_document` reads it back.  And a file is
taken at its word: in a document no table holds a key twice, so each entry of a map
counts, and the map has no others (`entries_of_read`).
-/
import EdgeResolution.Proofs.Stored.Forms
import EdgeResolution.Proofs.Toml.Written
import EdgeResolution.Settings.File

namespace EdgeResolution

set_option autoImplicit false

open Toml (Plain)

/-! ## Maps and the records they are read from -/

namespace NameMap

variable {α : Type} {es : List (String × α)} {name : String} {value : α}

theorem Entries.get?_eq_some_iff (distinct : (es.map (·.1)).Nodup) :
    Entries.get? name es = some value ↔ (name, value) ∈ es := by
  refine ⟨Entries.mem_of_get?, fun mem => ?_⟩
  induction es with
  | nil => cases mem
  | cons e rest ih =>
      obtain ⟨fresh, distinct⟩ := List.nodup_cons.1 distinct
      rcases List.mem_cons.1 mem with rfl | later
      · simp [Entries.get?]
      · have other : e.1 ≠ name := by
          rintro rfl
          exact fresh (List.mem_map.2 ⟨_, later, rfl⟩)
        rw [Entries.get?, if_neg other]
        exact ih distinct later

/-- Of pairs with distinct names none is lost. -/
theorem get?_ofList_of_distinct (distinct : (es.map (·.1)).Nodup) :
    (ofList es).get? name = some value ↔ (name, value) ∈ es := by
  rw [get?_ofList, Entries.get?_eq_some_iff, List.mem_reverse]
  rw [List.map_reverse]
  exact List.nodup_reverse.2 distinct

end NameMap

namespace Stored

variable {α : Type} [Stored α] {surplus : Surplus} {fields : List (String × Datum)}
  {pairs : List (String × α)} {m : NameMap α} {name : String} {value : α}

/-- Fields that are read one by one keep their names and their order. -/
theorem entries_of_mapM
    (read : (fields.mapM fun f => (read? surplus f.2).map fun value => (f.1, value)) = some pairs) :
    pairs.map (·.1) = fields.map (·.1) ∧
      ((name, value) ∈ pairs ↔ ∃ d, (name, d) ∈ fields ∧ read? surplus d = some value) := by
  induction fields generalizing pairs with
  | nil =>
      cases read
      simp
  | cons f rest ih =>
      rw [List.mapM_cons] at read
      obtain ⟨p, first, readRest⟩ := Option.bind_eq_some_iff.1 read
      obtain ⟨more, others, made⟩ := Option.bind_eq_some_iff.1 readRest
      cases made
      obtain ⟨v, readFirst, rfl⟩ := Option.map_eq_some_iff.1 first
      obtain ⟨names, entries⟩ := ih others
      refine ⟨by rw [List.map_cons, List.map_cons, names], ?_⟩
      rw [List.mem_cons, entries, Prod.mk.injEq]
      constructor
      · rintro (⟨rfl, rfl⟩ | ⟨d, mem, readD⟩)
        · exact ⟨f.2, List.mem_cons_self, readFirst⟩
        · exact ⟨d, List.mem_cons_of_mem _ mem, readD⟩
      · rintro ⟨d, mem, readD⟩
        rcases List.mem_cons.1 mem with rfl | later
        · exact .inl ⟨rfl, Option.some.inj (readD.symm.trans readFirst)⟩
        · exact .inr ⟨d, later, readD⟩

/-- A map has just the entries of a record with distinct names. -/
theorem get?_of_record (distinct : (fields.map (·.1)).Nodup)
    (read : read? surplus (.record fields) = some m) :
    m.get? name = some value ↔ ∃ d, (name, d) ∈ fields ∧ read? surplus d = some value := by
  obtain ⟨pairs, readPairs, rfl⟩ := Option.map_eq_some_iff.1 read
  obtain ⟨names, entries⟩ := entries_of_mapM readPairs
  rw [NameMap.get?_ofList_of_distinct (names ▸ distinct), entries]

theorem get?_of_field {key : String} {given : List (String × Datum)}
    (distinct : (Datum.record fields).Distinct)
    (found : NameMap.Entries.get? key fields = some (.record given))
    (read : optional surplus NameMap.empty (NameMap.Entries.get? key fields) = some m) :
    ∀ name value, m.get? name = some value ↔
      ∃ d, (name, d) ∈ given ∧ read? surplus d = some value := by
  intro name value
  rw [found] at read
  obtain ⟨-, each⟩ := Datum.distinct_record_iff.1 distinct
  have given := Datum.distinct_record_iff.1 (each _ (NameMap.Entries.mem_of_get? found))
  exact get?_of_record given.1 read

/-! ## Plain forms -/

variable {depth : Nat}

theorem plain_texts (texts : List String) : Plain (depth + 1) (write texts) :=
  .list (List.forall_mem_map.2 fun s _ => .text s)

theorem plain_pair (p : String × String) : Plain (depth + 1) (write p) := by
  refine .list ?_
  simp only [List.forall_mem_cons]
  exact ⟨.text p.1, .text p.2, by simp⟩

theorem plain_map (m : NameMap α) (values : ∀ a : α, Plain depth (write a)) :
    Plain (depth + 1) (write m) := by
  refine .record ?_ (List.forall_mem_map.2 fun e _ => values e.2)
  rw [List.map_map]
  exact m.keys_nodup

theorem plain_rule (rule : AttributeRule) : Plain (depth + 3) (write rule) := by
  refine .record (by simp) ?_
  simp only [List.forall_mem_cons]
  exact ⟨.list (List.forall_mem_map.2 fun p _ => plain_pair p), plain_texts rule.prefer, by simp⟩

end Stored

namespace Settings

open Stored (read? write)

/-! ## Settings in a file -/

/-- The fields of the stored form. -/
def fields (s : Settings) : List (String × Datum) :=
  [("attributes", write s.attributes), ("schema", write s.schema)]

/-- A document that gives these settings. -/
def document (s : Settings) : String := String.ofList (Toml.document s.fields)

theorem plain_fields (s : Settings) : ∀ f ∈ s.fields, Plain (Toml.nestingLimit - 1) f.2 := by
  simp only [fields, List.forall_mem_cons]
  exact ⟨Stored.plain_map s.attributes .text, Stored.plain_map s.schema Stored.plain_rule, by simp⟩

theorem read_document (s : Settings) : read s.document = .ok s := by
  have parsed : Toml.read? s.document = some (write s) :=
    Toml.read?_document (by simp [fields]) s.plain_fields
  have taken : (read? .ignored (write s) : Option Settings) = some s :=
    Stored.settings_form.lossless .ignored s
  simp only [read, parsed, taken]

theorem fromUTF8?_toUTF8 (text : String) : String.fromUTF8? text.toUTF8 = some text := by
  rw [String.fromUTF8?, String.toUTF8_eq_toByteArray, dif_pos text.isValidUTF8]
  rfl

/-- **There is a file for any settings**, and it is loaded as they are, not as the default. -/
theorem load_document (s : Settings) :
    (File.content s.document.toUTF8).load = .ok s ∧
      (File.content s.document.toUTF8).loadOrDefault = s := by
  have loaded : (File.content s.document.toUTF8).load = .ok s := by
    rw [File.load, fromUTF8?_toUTF8]
    exact s.read_document
  exact ⟨loaded, by rw [File.loadOrDefault, loaded]⟩

/-- **Every entry in a file counts.**  Attributes and rules are those that the document's tables
give, each under its name. -/
theorem entries_of_read {text : String} {s : Settings} (ok : read text = .ok s) :
    ∃ fields, Toml.read? text = some (.record fields) ∧
      (∀ given, NameMap.Entries.get? "attributes" fields = some (.record given) →
        ∀ name value, s.attributes.get? name = some value ↔
          ∃ d, (name, d) ∈ given ∧ read? .ignored d = some value) ∧
      (∀ given, NameMap.Entries.get? "schema" fields = some (.record given) →
        ∀ name rule, s.schema.get? name = some rule ↔
          ∃ d, (name, d) ∈ given ∧ read? .ignored d = some rule) := by
  rw [read] at ok
  split at ok
  · cases ok
  · next d parsed =>
      split at ok
      · next readSettings =>
          cases ok
          obtain ⟨⟨fields, rfl⟩, distinct⟩ := Toml.distinct_of_read? parsed
          rw [Stored.settings_reads] at readSettings
          obtain ⟨attributes, readAttributes, rest⟩ := Option.bind_eq_some_iff.1 readSettings
          obtain ⟨schema, readSchema, made⟩ := Option.bind_eq_some_iff.1 rest
          cases made
          exact ⟨fields, parsed,
            fun given found => Stored.get?_of_field distinct found readAttributes,
            fun given found => Stored.get?_of_field distinct found readSchema⟩
      · cases ok

end Settings
end EdgeResolution
