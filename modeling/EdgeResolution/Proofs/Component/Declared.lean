/-
# EdgeResolution.Proofs.Component.Declared -- a component told from its declarations

A component has two views of what was declared: configurations by name, and variants in
order.  Both are stated here of the list of declarations:

* `configuration?_ofEntries_iff`: what is held under a name is what was declared last
  under it, as a configuration or as a variant (`DeclaredLast`);
* `variants_ofEntries`: the variants are all that were declared, whatever followed.
-/
import EdgeResolution.Component
import Mathlib.Data.List.Induction

namespace EdgeResolution.Component

set_option autoImplicit false

/-- What an entry declares. -/
def Entry.declared : Entry → Configuration
  | .configuration c => c
  | .variant v => v

def Entry.variant? : Entry → Option Configuration
  | .configuration _ => none
  | .variant v => some v

/-- The configuration was declared, and nothing was declared under its name after it. -/
def DeclaredLast (entries : List Entry) (c : Configuration) : Prop :=
  ∃ before entry after, entries = before ++ entry :: after ∧ entry.declared = c ∧
    ∀ later ∈ after, later.declared.name ≠ c.name

variable {id : ComponentId} {origin : Origin} {entries : List Entry} {entry : Entry}
  {name : String} {c : Configuration}

theorem configuration?_add (t : Component) (entry : Entry) (name : String) :
    (t.add entry).configuration? name =
      if name = entry.declared.name then some entry.declared else t.configuration? name := by
  cases entry with
  | configuration c => exact t.configurations.get?_insert c.name name c
  | variant v => exact t.configurations.get?_insert v.name name v

theorem variants_add (t : Component) (entry : Entry) :
    (t.add entry).variants = t.variants ++ entry.variant?.toList := by
  cases entry with
  | configuration c => exact (List.append_nil _).symm
  | variant v => rfl

theorem ofEntries_concat (id : ComponentId) (origin : Origin) (entries : List Entry)
    (entry : Entry) : ofEntries id origin (entries ++ [entry]) =
      (ofEntries id origin entries).add entry := by
  rw [ofEntries, List.foldl_append, ofEntries]
  rfl

theorem declaredLast_concat :
    DeclaredLast (entries ++ [entry]) c ↔
      entry.declared = c ∨ entry.declared.name ≠ c.name ∧ DeclaredLast entries c := by
  constructor
  · rintro ⟨before, e, after, split, declared, notAfter⟩
    rcases List.eq_nil_or_concat after with rfl | ⟨between, last, rfl⟩
    · obtain ⟨-, same⟩ := List.append_inj' split rfl
      cases same
      exact .inl declared
    · rw [List.concat_eq_append] at split notAfter
      rw [← List.cons_append, ← List.append_assoc] at split
      obtain ⟨rfl, same⟩ := List.append_inj' split rfl
      cases same
      refine .inr ⟨notAfter entry (by simp), before, e, between, rfl, declared, ?_⟩
      intro later mem
      exact notAfter later (List.mem_append_left _ mem)
  · rintro (rfl | ⟨other, before, e, after, rfl, declared, notAfter⟩)
    · exact ⟨entries, entry, [], rfl, rfl, by simp⟩
    · refine ⟨before, e, after ++ [entry], by simp, declared, ?_⟩
      intro later mem
      rcases List.mem_append.1 mem with earlier | last
      · exact notAfter later earlier
      · rw [List.mem_singleton.1 last]
        exact other

/-- Where no two declarations share a name, every declaration is the last one of its name. -/
theorem declaredLast_iff_of_distinct (distinct : (entries.map (·.declared.name)).Nodup) :
    DeclaredLast entries c ↔ ∃ entry ∈ entries, entry.declared = c := by
  constructor
  · rintro ⟨before, entry, after, rfl, declared, -⟩
    exact ⟨entry, by simp, declared⟩
  · rintro ⟨entry, mem, rfl⟩
    obtain ⟨before, after, rfl⟩ := List.append_of_mem mem
    refine ⟨before, entry, after, rfl, rfl, ?_⟩
    intro later inAfter same
    rw [List.map_append, List.map_cons] at distinct
    have notAgain := (List.nodup_cons.1 (List.nodup_append.1 distinct).2.1).1
    exact notAgain (List.mem_map.2 ⟨later, inAfter, same⟩)

/-- The declaration that a name leads to is the last one under it. -/
theorem configuration?_ofEntries_iff :
    (ofEntries id origin entries).configuration? name = some c ↔
      c.name = name ∧ DeclaredLast entries c := by
  induction entries using List.reverseRecOn with
  | nil =>
      constructor
      · intro found
        cases found
      · rintro ⟨-, before, entry, after, split, -⟩
        exact absurd split (by simp)
  | append_singleton entries entry ih =>
      rw [ofEntries_concat, configuration?_add, declaredLast_concat]
      by_cases here : name = entry.declared.name
      · rw [if_pos here, Option.some.injEq]
        constructor
        · rintro rfl
          exact ⟨here.symm, .inl rfl⟩
        · rintro ⟨rfl, same | ⟨other, -⟩⟩
          · exact same
          · exact absurd here.symm other
      · rw [if_neg here, ih]
        constructor
        · rintro ⟨rfl, last⟩
          exact ⟨rfl, .inr ⟨Ne.symm here, last⟩⟩
        · rintro ⟨rfl, rfl | ⟨-, last⟩⟩
          · exact absurd rfl here
          · exact ⟨rfl, last⟩

theorem variants_ofEntries (id : ComponentId) (origin : Origin) (entries : List Entry) :
    (ofEntries id origin entries).variants = entries.filterMap Entry.variant? := by
  induction entries using List.reverseRecOn with
  | nil => rfl
  | append_singleton entries entry ih =>
      rw [ofEntries_concat, variants_add, ih, List.filterMap_append]
      cases entry <;> rfl

end EdgeResolution.Component
