/-
# EdgeResolution.Proofs.Selection.Addressing -- is what was selected found under its name?

Whoever gets a configuration may want to look it up again by its name.  A selection by
name has looked it up itself, so it is found.  A match has not: it takes a variant, and
a variant stays one when another declaration takes over its name.

* `found_of_not_matched`: by name, the selected configurations are found;
* `declared_of_select`: on either way, they are declared;
* `found_iff_declaredLast`: one is found exactly when no other declaration of its name
  came after it;
* `not_selection_found`: so not everything that is selected is found.

`selection_found_iff` adds which targets are affected: those that have a variant which
is not the last declaration of its name, and which no other variant equals in its
attributes.
-/
import EdgeResolution.Proofs.Component.Declared
import EdgeResolution.Proofs.Matching.Singled
import EdgeResolution.Proofs.Selection.Separation

namespace EdgeResolution

set_option autoImplicit false

namespace Edge

open Component (Entry ofEntries DeclaredLast declaredLast_iff_of_distinct)

variable {e : Edge} {consumer : Attributes} {schema : Schema} {t : Component}
  {selected : List Configuration} {c v : Configuration} {id : ComponentId} {origin : Origin}
  {entries : List Entry}

/-! ## One selection -/

theorem found_of_not_matched (byName : ¬ t.MatchedFor consumer)
    (ok : e.select consumer t schema = .ok selected) (mem : c ∈ selected) :
    t.configuration? c.name = some c := by
  have offers : e.Accounted consumer t (e.select consumer t schema) :=
    accounted_of_not_matched e schema byName
  rw [ok] at offers
  exact offers.held byName c mem

theorem select_eq_ok_iff_of_matched (matched : t.MatchedFor consumer) :
    e.select consumer t schema = .ok selected ↔
      ∃ v, Matching.select schema consumer t.variants = .ok v ∧ selected = [v] := by
  rw [select_of_matched e schema matched]
  cases Matching.select schema consumer t.variants with
  | ok v => simp [eq_comm]
  | error m => simp

/-- What is selected was declared, as a variant if it was matched. -/
theorem declared_of_select
    (ok : e.select consumer (ofEntries id origin entries) schema = .ok selected)
    (mem : c ∈ selected) : ∃ entry ∈ entries, entry.declared = c := by
  by_cases matched : (ofEntries id origin entries).MatchedFor consumer
  · obtain ⟨v, chosen, rfl⟩ := (select_eq_ok_iff_of_matched matched).1 ok
    cases List.mem_singleton.1 mem
    have variant := Matching.mem_of_select chosen
    rw [Component.variants_ofEntries] at variant
    obtain ⟨entry, listed, declared⟩ := List.mem_filterMap.1 variant
    cases entry with
    | configuration => cases declared
    | variant => exact ⟨_, listed, Option.some.inj declared⟩
  · have found := found_of_not_matched matched ok mem
    obtain ⟨-, before, entry, after, rfl, declared, -⟩ :=
      Component.configuration?_ofEntries_iff.1 found
    exact ⟨entry, by simp, declared⟩

theorem found_iff_declaredLast :
    (ofEntries id origin entries).configuration? c.name = some c ↔ DeclaredLast entries c := by
  rw [Component.configuration?_ofEntries_iff, eq_self, true_and]

/-! ## All selections of a target -/

/-- Every edge finds what it is offered by the target, whatever it asks for. -/
def AllFound (t : Component) : Prop :=
  ∀ (e : Edge) consumer schema selected, e.select consumer t schema = .ok selected →
    ∀ c ∈ selected, t.configuration? c.name = some c

theorem allFound_iff :
    AllFound t ↔ ∀ v, Matching.Singular t.variants v → t.configuration? v.name = some v := by
  constructor
  · intro all v singular
    obtain ⟨consumer, asks, chosen⟩ := Matching.exists_select_of_singular singular
    have some : t.variants ≠ [] := List.ne_nil_of_mem (Matching.mem_of_select chosen)
    have matched : t.MatchedFor consumer := ⟨some, .inr asks⟩
    -- all edges come to the same here, so any one does
    let e : Edge := ⟨⟨⟨"", "", ""⟩, .named ""⟩, .maven (.of ⟨"", "", .free⟩), none⟩
    have ok : e.select consumer t NameMap.empty = .ok [v] :=
      (select_eq_ok_iff_of_matched matched).2 ⟨v, chosen, rfl⟩
    exact all e consumer NameMap.empty [v] ok v (List.mem_singleton_self v)
  · intro singular e consumer schema selected ok c mem
    by_cases matched : t.MatchedFor consumer
    · obtain ⟨v, chosen, rfl⟩ := (select_eq_ok_iff_of_matched matched).1 ok
      cases List.mem_singleton.1 mem
      exact singular _ (Matching.singular_of_select chosen)
    · exact found_of_not_matched matched ok mem

/-- **What is selected was declared, and is found under its name exactly when it was the last
declaration of the name**: always by name, and by attributes on the targets without a variant that
is neither that nor equal in attributes to another. -/
theorem selection_found_iff (id : ComponentId) (origin : Origin) (entries : List Entry) :
    (∀ (e : Edge) consumer schema selected,
      e.select consumer (ofEntries id origin entries) schema = .ok selected → ∀ c ∈ selected,
        (∃ entry ∈ entries, entry.declared = c) ∧
        ((ofEntries id origin entries).configuration? c.name = some c ↔ DeclaredLast entries c) ∧
        (¬ (ofEntries id origin entries).MatchedFor consumer →
          (ofEntries id origin entries).configuration? c.name = some c)) ∧
    (AllFound (ofEntries id origin entries) ↔
      ∀ v, Matching.Singular (entries.filterMap Entry.variant?) v → DeclaredLast entries v) ∧
    ((entries.map (·.declared.name)).Nodup → AllFound (ofEntries id origin entries)) := by
  refine ⟨?_, ?_, ?_⟩
  · intro e consumer schema selected ok c mem
    exact ⟨declared_of_select ok mem, found_iff_declaredLast,
      fun byName => found_of_not_matched byName ok mem⟩
  · rw [allFound_iff, Component.variants_ofEntries]
    exact forall_congr' fun v => imp_congr_right fun _ => found_iff_declaredLast
  · intro distinct e consumer schema selected ok c mem
    exact found_iff_declaredLast.2
      ((declaredLast_iff_of_distinct distinct).2 (declared_of_select ok mem))

namespace Example

/-- Maps `compile` to `api`. -/
def mapped : Edge where
  requester := ⟨⟨"com.example", "app", "1.0"⟩, Configuration.named "compile"⟩
  declaration := .ivy ((IvyDeclaration.of ⟨"org.example", "lib", .requiring "1.0"⟩).map "compile"
    ["api"])
  reason := none

def offered : Configuration := (Configuration.named "api").withAttributes (usage "api")

/-- The name of the variant is taken over by a configuration without attributes. -/
def takenOver : List Entry := [.variant offered, .configuration (Configuration.named "api")]

def project : ComponentId := .project ⟨":", ":lib"⟩

end Example

open Example in
theorem selection_found_iff_takenOver :
    (mapped.select (usage "api") (ofEntries project .project takenOver) NameMap.empty =
        .ok [offered] ∧
      ((ofEntries project .project takenOver).configuration? "api" = some offered ↔
        DeclaredLast takenOver offered)) ∧
    (mapped.select NameMap.empty (ofEntries project .project takenOver) NameMap.empty =
        .ok [Configuration.named "api"] ∧
      (ofEntries project .project takenOver).configuration? "api" =
        some (Configuration.named "api")) ∧
    (Matching.Singular [offered] offered ∧ ¬ DeclaredLast takenOver offered ∧
      ¬ AllFound (ofEntries project .project takenOver)) ∧
    AllFound (ofEntries project .project Example.entries) := by
  obtain ⟨each, affected, -⟩ := selection_found_iff project .project takenOver
  have matched : mapped.select (usage "api") (ofEntries project .project takenOver)
      NameMap.empty = .ok [offered] := by decide +kernel
  have named : mapped.select NameMap.empty (ofEntries project .project takenOver)
      NameMap.empty = .ok [Configuration.named "api"] := by cbv
  have byName : ¬ (ofEntries project .project takenOver).MatchedFor NameMap.empty :=
    Component.not_matchedFor_empty rfl
  have found : (ofEntries project .project takenOver).configuration? "api" =
      some (Configuration.named "api") :=
    (each _ _ _ _ named _ (List.mem_singleton_self _)).2.2 byName
  have addressed : (ofEntries project .project takenOver).configuration? "api" = some offered ↔
      DeclaredLast takenOver offered :=
    (each _ _ _ _ matched _ (List.mem_singleton_self _)).2.1
  have singular : Matching.Singular [offered] offered := ⟨[], [], rfl, by simp⟩
  have notLast : ¬ DeclaredLast takenOver offered := by
    intro last
    have same : Configuration.named "api" = offered :=
      Option.some.inj (found.symm.trans (addressed.2 last))
    exact absurd same (by decide +kernel)
  refine ⟨⟨matched, addressed⟩, ⟨named, found⟩, ⟨singular, notLast, ?_⟩, ?_⟩
  · intro all
    exact notLast (affected.1 all offered singular)
  · exact (selection_found_iff project .project Example.entries).2.2 (by decide +kernel)

open Example in
/-- A match can give a configuration that is not the one found under its name. -/
theorem not_selection_found :
    ¬ ∀ (id : ComponentId) (origin : Origin) (entries : List Entry) (e : Edge)
      (consumer : Attributes) (schema : Schema) (selected : List Configuration),
      e.select consumer (ofEntries id origin entries) schema = .ok selected →
        ∀ c ∈ selected, (ofEntries id origin entries).configuration? c.name = some c := by
  intro all
  have matched : mapped.select (usage "api") (ofEntries project .project takenOver)
      NameMap.empty = .ok [offered] := by decide +kernel
  have found : (ofEntries project .project takenOver).configuration? "api" = some offered :=
    all _ _ _ _ _ _ _ matched offered (List.mem_singleton_self offered)
  have other : (ofEntries project .project takenOver).configuration? "api" =
      some (Configuration.named "api") := by cbv
  have same : offered = Configuration.named "api" := Option.some.inj (found.symm.trans other)
  exact absurd same (by decide +kernel)

end Edge
end EdgeResolution
