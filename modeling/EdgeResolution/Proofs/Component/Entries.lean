/-
# EdgeResolution.Proofs.Component.Entries -- what a component keeps of its declarations

A declaration of a configuration or of a variant is held under its name, where it
replaces what was held there; a variant is appended to the variants as well.  What a
component keeps are the last declarations of all names and the variants in order:

* `configuration?_ofEntries_eq_none_iff`: only a name that was never declared leads
  to nothing;
* `map_name_values`: the configurations are listed by name, each name once;
* `ofEntries_eq_iff`: two lists of declarations give the same component exactly when
  they have the same last declarations and the same variants.

`determined_by_entries` adds what this means for another order of declarations whose
names differ: with the variants in the same order it gives the same component, so no
lookup, no selection by name and no match tells them apart.
-/
import EdgeResolution.Matching
import EdgeResolution.Proofs.Component.Declared
import EdgeResolution.Proofs.Selection.Mapping

namespace EdgeResolution.Component

set_option autoImplicit false

variable {id : ComponentId} {origin : Origin} {entries entries' : List Entry} {t t' : Component}
  {name : String} {c : Configuration}

/-! ## Configurations by name -/

theorem configuration?_ofEntries_eq_none_iff :
    (ofEntries id origin entries).configuration? name = none ↔
      ∀ entry ∈ entries, entry.declared.name ≠ name := by
  induction entries using List.reverseRecOn with
  | nil => exact ⟨fun _ _ mem => (List.not_mem_nil mem).elim, fun _ => rfl⟩
  | append_singleton entries entry ih =>
      rw [ofEntries_concat, configuration?_add, List.forall_mem_append, List.forall_mem_singleton]
      by_cases here : name = entry.declared.name
      · simp [here]
      · rw [if_neg here, ih]
        exact ⟨fun before => ⟨before, Ne.symm here⟩, And.left⟩

theorem map_name_values (t : Component) :
    t.configurations.values.map (·.name) = t.configurations.keys := by
  rw [NameMap.values, NameMap.keys, List.map_map]
  refine List.map_congr_left fun e mem => ?_
  exact t.held_name e.1 e.2 (t.configurations.get?_eq_some_iff.2 mem)

theorem mem_name_values_ofEntries_iff :
    name ∈ (ofEntries id origin entries).configurations.values.map (·.name) ↔
      ∃ entry ∈ entries, entry.declared.name = name := by
  rw [mem_values_name_iff, ← Option.ne_none_iff_exists', ne_eq,
    configuration?_ofEntries_eq_none_iff]
  simp

theorem mem_values_ofEntries_iff :
    c ∈ (ofEntries id origin entries).configurations.values ↔ DeclaredLast entries c := by
  rw [mem_values_iff, configuration?_ofEntries_iff, eq_self, true_and]

/-! ## The same component -/

theorem eq_of_lookups (sameId : t.id = t'.id) (sameOrigin : t.origin = t'.origin)
    (lookups : ∀ name, t.configuration? name = t'.configuration? name)
    (sameVariants : t.variants = t'.variants) : t = t' := by
  have sameHeld : t.configurations = t'.configurations := NameMap.ext lookups
  cases t
  cases t'
  cases sameId
  cases sameOrigin
  cases sameVariants
  cases sameHeld
  rfl

theorem id_and_origin_ofEntries (id : ComponentId) (origin : Origin) (entries : List Entry) :
    (ofEntries id origin entries).id = id ∧ (ofEntries id origin entries).origin = origin := by
  induction entries using List.reverseRecOn with
  | nil => exact ⟨rfl, rfl⟩
  | append_singleton entries entry ih =>
      rw [ofEntries_concat]
      cases entry <;> exact ih

/-- A component keeps the last declarations and the variants, and nothing else. -/
theorem ofEntries_eq_iff : ofEntries id origin entries = ofEntries id origin entries' ↔
    (∀ c, DeclaredLast entries c ↔ DeclaredLast entries' c) ∧
      entries.filterMap Entry.variant? = entries'.filterMap Entry.variant? := by
  constructor
  · intro same
    refine ⟨fun c => ?_, ?_⟩
    · have listed : c ∈ (ofEntries id origin entries).configurations.values ↔
          c ∈ (ofEntries id origin entries').configurations.values := by rw [same]
      rwa [mem_values_ofEntries_iff, mem_values_ofEntries_iff] at listed
    · rw [← variants_ofEntries id origin, same, variants_ofEntries]
  · rintro ⟨last, variants⟩
    have here := id_and_origin_ofEntries id origin entries
    have there := id_and_origin_ofEntries id origin entries'
    refine eq_of_lookups (here.1.trans there.1.symm) (here.2.trans there.2.symm) ?_ ?_
    · intro name
      refine Option.ext fun c => ?_
      rw [configuration?_ofEntries_iff, configuration?_ofEntries_iff, last]
    · rw [variants_ofEntries, variants_ofEntries, variants]

/-- Declarations of distinct names in another order, but the variants in the same one. -/
structure Rearranged (entries entries' : List Entry) : Prop where
  perm : entries.Perm entries'
  distinct : (entries.map (·.declared.name)).Nodup
  variants : entries.filterMap Entry.variant? = entries'.filterMap Entry.variant?

theorem Rearranged.ofEntries_eq (rearranged : Rearranged entries entries') :
    ofEntries id origin entries = ofEntries id origin entries' := by
  refine ofEntries_eq_iff.2 ⟨fun c => ?_, rearranged.variants⟩
  have distinct' : (entries'.map (·.declared.name)).Nodup :=
    (rearranged.perm.map _).nodup_iff.1 rearranged.distinct
  rw [declaredLast_iff_of_distinct rearranged.distinct, declaredLast_iff_of_distinct distinct']
  simp only [rearranged.perm.mem_iff]

/-- No lookup, no selection by name and no match tells the two components apart. -/
structure Indistinguishable (t t' : Component) : Prop where
  lookup : ∀ name, t.configuration? name = t'.configuration? name
  listed : t.configurations.values = t'.configurations.values
  byName : ∀ (d : Declaration) (r : Requester), d.selectByName r t = d.selectByName r t'
  matched : ∀ (schema : Schema) (consumer : Attributes),
    Matching.select schema consumer t.variants = Matching.select schema consumer t'.variants

/-- **A component is determined by its declarations.**  A name leads to what was declared last
under it, as a configuration or as a variant, and to nothing if nothing was; the configurations
are listed in ascending order of their names, each name once; the variants are those declared, in
order and with repetitions.  Declarations of distinct names may therefore be rearranged, as long
as the variants keep their order. -/
theorem determined_by_entries (id : ComponentId) (origin : Origin) (entries : List Entry) :
    (∀ name c, (ofEntries id origin entries).configuration? name = some c ↔
      c.name = name ∧ DeclaredLast entries c) ∧
    (∀ name, (ofEntries id origin entries).configuration? name = none ↔
      ∀ entry ∈ entries, entry.declared.name ≠ name) ∧
    (((ofEntries id origin entries).configurations.values.map (·.name)).Pairwise (· < ·) ∧
      (∀ name, name ∈ (ofEntries id origin entries).configurations.values.map (·.name) ↔
        ∃ entry ∈ entries, entry.declared.name = name) ∧
      ∀ c, c ∈ (ofEntries id origin entries).configurations.values ↔ DeclaredLast entries c) ∧
    (ofEntries id origin entries).variants = entries.filterMap Entry.variant? ∧
    ∀ entries', Rearranged entries entries' →
      ofEntries id origin entries = ofEntries id origin entries' ∧
      Indistinguishable (ofEntries id origin entries) (ofEntries id origin entries') := by
  refine ⟨fun name c => configuration?_ofEntries_iff,
    fun name => configuration?_ofEntries_eq_none_iff, ⟨?_, ?_, ?_⟩,
    variants_ofEntries id origin entries, ?_⟩
  · rw [map_name_values]
    exact NameMap.keys_ascending _
  · exact fun name => mem_name_values_ofEntries_iff
  · exact fun c => mem_values_ofEntries_iff
  · intro entries' rearranged
    have same : ofEntries id origin entries = ofEntries id origin entries' :=
      rearranged.ofEntries_eq
    refine ⟨same, ?_⟩
    rw [same]
    exact ⟨fun _ => rfl, rfl, fun _ _ => rfl, fun _ _ => rfl⟩

namespace Example

def lib : ComponentId := .module ⟨"org.example", "lib", "1.0"⟩

def offering (usage : String) : Configuration :=
  (Configuration.named usage).withAttributes (NameMap.ofList [("usage", usage)])

/-- Two variants, and two configurations before and between them. -/
def published : List Entry :=
  [.configuration ((Configuration.named "default").extend ["runtime"]), .variant (offering "api"),
    .configuration (Configuration.named "master"), .variant (offering "runtime")]

def republished : List Entry :=
  [.variant (offering "api"), .variant (offering "runtime"),
    .configuration (Configuration.named "master"),
    .configuration ((Configuration.named "default").extend ["runtime"])]

end Example

/-- Declarations that share a name may not be rearranged: the last one is held. -/
example :
    (ofEntries Example.lib .external
        [.variant (Example.offering "api"), .configuration (Configuration.named "api")]).configuration?
      "api" = some (Configuration.named "api") ∧
    (ofEntries Example.lib .external
        [.configuration (Configuration.named "api"), .variant (Example.offering "api")]).configuration?
      "api" = some (Example.offering "api") := by decide

open Example in
theorem determined_by_entries_republished :
    Rearranged published republished ∧
    ofEntries lib .external published = ofEntries lib .external republished ∧
    (ofEntries lib .external republished).configurations.values.map (·.name) =
      ["api", "default", "master", "runtime"] ∧
    (ofEntries lib .external published).variants = [offering "api", offering "runtime"] := by
  have rearranged : Rearranged published republished := by
    refine ⟨?_, by decide, by decide⟩
    decide
  obtain ⟨-, -, -, variants, same⟩ := determined_by_entries lib .external published
  exact ⟨rearranged, (same republished rearranged).1, by decide, variants⟩

end EdgeResolution.Component
