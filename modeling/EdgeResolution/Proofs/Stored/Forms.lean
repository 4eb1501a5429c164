/-
# EdgeResolution.Proofs.Stored.Forms -- every stored type reads what it writes

For each record type there is one statement with the names of its fields
(`constraint_form` and so on), got from `RecordForm.of_reader`; the two types of
maps are read back entry by entry (`lossless_map`).  `stored_forms` puts them
together, for both formats: the surplus items that the one refuses and the other
ignores are never written.
-/
import EdgeResolution.Proofs.Stored.Fields

namespace EdgeResolution

set_option autoImplicit false

namespace Stored

variable {α β : Type} [Stored α] [Stored β]

/-! ## Values without fields -/

theorem lossless_text : Lossless String := fun _ _ => rfl

theorem lossless_optional : Lossless (Option String) := by
  intro surplus value
  cases value <;> rfl

theorem lossless_pair (first : Lossless α) (second : Lossless β) : Lossless (α × β) := by
  intro surplus p
  show (if surplus = .refused ∧ ([] : List Datum) ≠ [] then none else _) = _
  rw [if_neg (by simp), first, second]
  rfl

/-- Parts that are read back one by one are read back together, in order. -/
theorem mapM_of_left_inverse {γ δ : Type} {put : γ → δ} {take : δ → Option γ}
    (back : ∀ a, take (put a) = some a) (parts : List γ) :
    (parts.map put).mapM take = some parts := by
  have taken : take ∘ put = fun a => pure (id a) := funext back
  rw [List.mapM_map, taken, List.mapM_pure, List.map_id]
  rfl

theorem lossless_list (items : Lossless α) : Lossless (List α) := by
  intro surplus values
  exact mapM_of_left_inverse (items surplus) values

/-- The entries come back in the order that the map keeps them in. -/
theorem lossless_map (values : Lossless α) : Lossless (NameMap α) := by
  intro surplus m
  have entries : (m.entries.map fun e => (e.1, write e.2)).mapM
      (fun f => (read? surplus f.2).map fun value => (f.1, value)) = some m.entries := by
    refine mapM_of_left_inverse (fun e => ?_) m.entries
    rw [values, Option.map_some]
  show Option.map NameMap.ofList (List.mapM _ _) = _
  rw [entries, Option.map_some, NameMap.ofList_entries]

/-! ## Record types -/

theorem constraint_form :
    RecordForm Version.Constraint ["require", "prefer", "strictly", "reject", "branch"] := by
  refine .of_reader
    (fun c => [write c.require, write c.prefer, write c.strictly, write c.reject, write c.branch])
    (by decide) (fun _ _ => rfl) (fun _ => rfl) (fun _ => rfl) fun surplus c => ?_
  simp [optional, lossless_optional surplus, lossless_list lossless_text surplus]

theorem module_form : RecordForm Selector.Module ["group", "module", "version"] := by
  refine .of_reader (fun s => [write s.group, write s.module, write s.version])
    (by decide) (fun _ _ => rfl) (fun _ => rfl) (fun _ => rfl) fun surplus s => ?_
  simp [required, optional, lossless_text surplus, constraint_form.lossless surplus]

theorem project_form : RecordForm ProjectPath ["build_path", "project_path"] := by
  refine .of_reader (fun p => [write p.build, write p.project])
    (by decide) (fun _ _ => rfl) (fun _ => rfl) (fun _ => rfl) fun surplus p => ?_
  simp [required, lossless_text surplus]

theorem library_form :
    RecordForm Selector.Library ["project_path", "library_name", "variant"] := by
  refine .of_reader (fun s => [write s.project, write s.library, write s.variant])
    (by decide) (fun _ _ => rfl) (fun _ => rfl) (fun _ => rfl) fun surplus s => ?_
  simp [required, optional, lossless_text surplus, lossless_optional surplus]

theorem artifact_form : RecordForm Artifact ["name", "type", "extension", "classifier"] := by
  refine .of_reader
    (fun a => [write a.name, write a.kind, write a.extension, write a.classifier])
    (by decide) (fun _ _ => rfl) (fun _ => rfl) (fun _ => rfl) fun surplus a => ?_
  simp [required, optional, lossless_text surplus, lossless_optional surplus]

theorem exclusion_form :
    RecordForm Exclusion ["group", "module", "artifact", "configurations"] := by
  refine .of_reader
    (fun e => [write e.group, write e.module, write e.artifact, write e.configurations])
    (by decide) (fun _ _ => rfl) (fun _ => rfl) (fun _ => rfl) fun surplus e => ?_
  simp [optional, lossless_optional surplus, lossless_list lossless_text surplus]

theorem rule_form : RecordForm AttributeRule ["compatible", "prefer"] := by
  refine .of_reader (fun r => [write r.compatible, write r.prefer])
    (by decide) (fun _ _ => rfl) (fun _ => rfl) (fun _ => rfl) fun surplus r => ?_
  simp [optional, lossless_list (lossless_pair lossless_text lossless_text) surplus,
    lossless_list lossless_text surplus]

theorem lossless_attributes : Lossless Attributes := lossless_map lossless_text

theorem lossless_schema : Lossless Schema := lossless_map rule_form.lossless

theorem settings_form : RecordForm Settings ["attributes", "schema"] := by
  refine .of_reader (fun s => [write s.attributes, write s.schema])
    (by decide) (fun _ _ => rfl) (fun _ => rfl) (fun _ => rfl) fun surplus s => ?_
  simp [optional, lossless_attributes surplus, lossless_schema surplus]

/-! ## Parts of records and maps -/

theorem within_module : Within Version.Constraint Selector.Module "version" := by
  intro before after d d' alike surplus
  have reads : ∀ fields, (read? surplus (.record fields) : Option Selector.Module) =
      (required surplus (NameMap.Entries.get? "group" fields)).bind fun group =>
        (required surplus (NameMap.Entries.get? "module" fields)).bind fun module =>
          (optional surplus .free (NameMap.Entries.get? "version" fields)).bind fun version =>
            some ⟨group, module, version⟩ := fun _ => rfl
  rw [reads, reads, optional_replaced before after alike,
    NameMap.Entries.get?_replaced before after d d' (by decide : "group" ≠ "version"),
    NameMap.Entries.get?_replaced before after d d' (by decide : "module" ≠ "version")]

theorem settings_reads (surplus : Surplus) (fields : List (String × Datum)) :
    (read? surplus (.record fields) : Option Settings) =
      (optional surplus NameMap.empty (NameMap.Entries.get? "attributes" fields)).bind fun a =>
        (optional surplus NameMap.empty (NameMap.Entries.get? "schema" fields)).bind fun s =>
          some ⟨a, s⟩ := rfl

theorem within_settings_attributes : Within Attributes Settings "attributes" := by
  intro before after d d' alike surplus
  rw [settings_reads, settings_reads, optional_replaced before after alike,
    NameMap.Entries.get?_replaced before after d d' (by decide : "schema" ≠ "attributes")]

theorem within_settings_schema : Within Schema Settings "schema" := by
  intro before after d d' alike surplus
  rw [settings_reads, settings_reads, optional_replaced before after alike,
    NameMap.Entries.get?_replaced before after d d' (by decide : "attributes" ≠ "schema")]

theorem within_map (name : String) : Within α (NameMap α) name := by
  intro before after d d' alike surplus
  show Option.map NameMap.ofList (List.mapM _ _) = Option.map NameMap.ofList (List.mapM _ _)
  rw [List.mapM_append, List.mapM_append, List.mapM_cons, List.mapM_cons, alike surplus]

/-! ## All stored types -/

/-- **Reading undoes writing.**  Each record type is read back from what it is written as, whatever
is added under other names, and from a list as from a record; the maps are read back too, and what
is read alike may stand for each other inside the types that hold it. -/
theorem stored_forms :
    (RecordForm Version.Constraint ["require", "prefer", "strictly", "reject", "branch"] ∧
      RecordForm Selector.Module ["group", "module", "version"] ∧
      RecordForm ProjectPath ["build_path", "project_path"] ∧
      RecordForm Selector.Library ["project_path", "library_name", "variant"] ∧
      RecordForm Artifact ["name", "type", "extension", "classifier"] ∧
      RecordForm Exclusion ["group", "module", "artifact", "configurations"] ∧
      RecordForm AttributeRule ["compatible", "prefer"] ∧
      RecordForm Settings ["attributes", "schema"]) ∧
    (Lossless Attributes ∧ Lossless Schema) ∧
    Within Version.Constraint Selector.Module "version" ∧
    Within Attributes Settings "attributes" ∧ Within Schema Settings "schema" ∧
    ∀ name, Within AttributeRule Schema name :=
  ⟨⟨constraint_form, module_form, project_form, library_form, artifact_form, exclusion_form,
      rule_form, settings_form⟩,
    ⟨lossless_attributes, lossless_schema⟩,
    within_module, within_settings_attributes, within_settings_schema, within_map⟩

/-- A list that ends before the optional fields, one with a null where a list is wanted, and one
with an item too many. -/
example :
    (read? .refused (.list [.text "lib", .text "jar"]) : Option Artifact) =
        some ⟨"lib", "jar", none, none⟩ ∧
      (read? .refused (.list [.null, .null, .null, .null]) : Option Version.Constraint) = none ∧
      (read? .refused (.list [.text ":", .text ":p", .null]) : Option ProjectPath) = none := by
  refine ⟨?_, ?_, ?_⟩ <;> rfl

end Stored
end EdgeResolution
