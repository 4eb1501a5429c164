/-
# EdgeResolution.Proofs.Declaration.Scope -- what a descriptor limits to configurations

The artifacts and exclusions of a descriptor may be limited to source configurations.
`Exclusion.ActiveFor` and `ScopedArtifact.AskedFor` say which hierarchies one of them
holds for; `*` among its configurations means every hierarchy for an artifact, and
nothing in particular for an exclusion.

* `exclusionsFor_eq_filter`: the exclusions for a hierarchy are those active for it;
* `mem_askedFor_iff`, `askedFor_ascending`: the artifacts for a hierarchy are those
  that some declaration asks for, each once, by the first declaration that does.

The first declaration of an artifact that asks for it need not be its first one.  A
wider hierarchy never loses an artifact, but it may move one to the front
(`scoped_to_hierarchy_widened`).
-/
import EdgeResolution.Proofs.Selection.Mapping
import Mathlib.Data.List.Basic
import Mathlib.Data.List.Induction

namespace EdgeResolution

set_option autoImplicit false

variable {hierarchy wider : List String}

/-! ## One declaration -/

/-- The rule is not limited, or it is limited to a configuration of the hierarchy among others. -/
def Exclusion.ActiveFor (rule : Exclusion) (hierarchy : List String) : Prop :=
  rule.configurations = [] ∨ ∃ name ∈ rule.configurations, name ∈ hierarchy

theorem Exclusion.appliesTo_iff {rule : Exclusion} :
    rule.appliesTo hierarchy = true ↔ rule.ActiveFor hierarchy := by
  simp [appliesTo, ActiveFor]

instance (rule : Exclusion) (hierarchy : List String) : Decidable (rule.ActiveFor hierarchy) :=
  decidable_of_iff _ Exclusion.appliesTo_iff

theorem Exclusion.ActiveFor.mono {rule : Exclusion} (active : rule.ActiveFor hierarchy)
    (within : ∀ name ∈ hierarchy, name ∈ wider) : rule.ActiveFor wider := by
  rcases active with unlimited | ⟨name, limit, mem⟩
  · exact Or.inl unlimited
  · exact Or.inr ⟨name, limit, within name mem⟩

namespace ScopedArtifact

variable {item : ScopedArtifact}

/-- The declaration is not limited, or it is limited to every configuration or to one of the
hierarchy among others. -/
def AskedFor (item : ScopedArtifact) (hierarchy : List String) : Prop :=
  item.configurations = [] ∨ Ivy.everyName ∈ item.configurations ∨
    ∃ name ∈ item.configurations, name ∈ hierarchy

theorem appliesTo_iff : item.appliesTo hierarchy = true ↔ item.AskedFor hierarchy := by
  simp only [appliesTo, AskedFor, Bool.or_eq_true, List.isEmpty_iff, List.any_eq_true, beq_iff_eq,
    List.contains_iff_mem]
  constructor
  · rintro (unlimited | ⟨name, limit, rfl | mem⟩)
    · exact Or.inl unlimited
    · exact Or.inr (Or.inl limit)
    · exact Or.inr (Or.inr ⟨name, limit, mem⟩)
  · rintro (unlimited | every | ⟨name, limit, mem⟩)
    · exact Or.inl unlimited
    · exact Or.inr ⟨Ivy.everyName, every, Or.inl rfl⟩
    · exact Or.inr ⟨name, limit, Or.inr mem⟩

instance (item : ScopedArtifact) (hierarchy : List String) : Decidable (item.AskedFor hierarchy) :=
  decidable_of_iff _ appliesTo_iff

theorem AskedFor.mono (asked : item.AskedFor hierarchy)
    (within : ∀ name ∈ hierarchy, name ∈ wider) : item.AskedFor wider := by
  rcases asked with unlimited | every | ⟨name, limit, mem⟩
  · exact Or.inl unlimited
  · exact Or.inr (Or.inl every)
  · exact Or.inr (Or.inr ⟨name, limit, within name mem⟩)

end ScopedArtifact

namespace IvyDeclaration

variable {d : IvyDeclaration} {items : List ScopedArtifact} {item : ScopedArtifact} {a : Artifact}

/-! ## Exclusions -/

theorem exclusionsFor_eq_filter : d.exclusionsFor hierarchy =
    d.exclusions.filter fun rule => decide (rule.ActiveFor hierarchy) := by
  rw [exclusionsFor]
  refine List.filter_congr fun rule _ => ?_
  rw [Bool.eq_iff_iff, decide_eq_true_iff]
  exact Exclusion.appliesTo_iff

theorem exclusionsFor_sublist (within : ∀ name ∈ hierarchy, name ∈ wider) :
    (d.exclusionsFor hierarchy).Sublist (d.exclusionsFor wider) := by
  rw [exclusionsFor_eq_filter, exclusionsFor_eq_filter]
  apply List.monotone_filter_right
  intro rule active
  exact decide_eq_true ((of_decide_eq_true active).mono within)

/-! ## Artifacts -/

/-- The artifacts that these declarations ask for. -/
def askedFor (items : List ScopedArtifact) (hierarchy : List String) : List Artifact :=
  addNew [] ((items.filter (·.appliesTo hierarchy)).map (·.artifact))

/-- Where the first declaration stands that asks for this artifact. -/
def firstAsked (items : List ScopedArtifact) (hierarchy : List String) (a : Artifact) : Nat :=
  items.findIdx fun item => decide (item.artifact = a ∧ item.AskedFor hierarchy)

theorem mem_askedFor_iff :
    a ∈ askedFor items hierarchy ↔
      ∃ item ∈ items, item.artifact = a ∧ item.AskedFor hierarchy := by
  rw [askedFor, mem_addNew, List.mem_map]
  constructor
  · rintro (none | ⟨item, kept, rfl⟩)
    · cases none
    · obtain ⟨declared, applies⟩ := List.mem_filter.1 kept
      exact ⟨item, declared, rfl, ScopedArtifact.appliesTo_iff.1 applies⟩
  · rintro ⟨item, declared, rfl, asked⟩
    exact Or.inr ⟨item, List.mem_filter.2 ⟨declared, ScopedArtifact.appliesTo_iff.2 asked⟩, rfl⟩

/-- One more declaration adds its artifact at the end, if it asks for it and none did before. -/
theorem askedFor_concat : askedFor (items ++ [item]) hierarchy =
    if item.AskedFor hierarchy ∧ item.artifact ∉ askedFor items hierarchy then
      askedFor items hierarchy ++ [item.artifact]
    else askedFor items hierarchy := by
  by_cases asked : item.AskedFor hierarchy
  · have last : [item].filter (·.appliesTo hierarchy) = [item] := by
      simpa using ScopedArtifact.appliesTo_iff.2 asked
    rw [askedFor, List.filter_append, last, List.map_append, addNew, List.foldl_append]
    show (if (askedFor items hierarchy).contains item.artifact then askedFor items hierarchy
      else askedFor items hierarchy ++ [item.artifact]) = _
    by_cases there : item.artifact ∈ askedFor items hierarchy
    · simp [there]
    · simp [there, asked]
  · have last : [item].filter (·.appliesTo hierarchy) = [] := by
      simpa using mt ScopedArtifact.appliesTo_iff.1 asked
    rw [askedFor, List.filter_append, last, List.append_nil, if_neg fun both => asked both.1]
    rfl

theorem firstAsked_lt (mem : a ∈ askedFor items hierarchy) :
    firstAsked items hierarchy a < items.length := by
  obtain ⟨item, declared, same, asked⟩ := mem_askedFor_iff.1 mem
  exact List.findIdx_lt_length_of_exists ⟨item, declared, decide_eq_true ⟨same, asked⟩⟩

theorem firstAsked_concat_of_mem (mem : a ∈ askedFor items hierarchy) :
    firstAsked (items ++ [item]) hierarchy a = firstAsked items hierarchy a := by
  rw [firstAsked, List.findIdx_append]
  exact if_pos (firstAsked_lt mem)

theorem firstAsked_concat_of_not_mem (fresh : a ∉ askedFor items hierarchy) :
    items.length ≤ firstAsked (items ++ [item]) hierarchy a := by
  have none : ¬ firstAsked items hierarchy a < items.length := by
    intro found
    obtain ⟨same, asked⟩ := of_decide_eq_true (List.findIdx_getElem (w := found))
    exact fresh (mem_askedFor_iff.2 ⟨_, List.getElem_mem found, same, asked⟩)
  rw [firstAsked, List.findIdx_append]
  show items.length ≤ if firstAsked items hierarchy a < items.length then _ else _
  rw [if_neg none]
  omega

/-- Artifacts stand in the order of the first declarations that ask for them. -/
theorem askedFor_ascending : (askedFor items hierarchy).Pairwise fun a b =>
    firstAsked items hierarchy a < firstAsked items hierarchy b := by
  induction items using List.reverseRecOn with
  | nil => exact List.Pairwise.nil
  | append_singleton items item ih =>
      have kept : (askedFor items hierarchy).Pairwise fun a b =>
          firstAsked (items ++ [item]) hierarchy a < firstAsked (items ++ [item]) hierarchy b :=
        ih.imp_of_mem fun memA memB lt => by
          rwa [firstAsked_concat_of_mem memA, firstAsked_concat_of_mem memB]
      rw [askedFor_concat]
      split
      · next new =>
          refine List.pairwise_append.2 ⟨kept, List.pairwise_singleton _ _, ?_⟩
          intro a mem b last
          rw [List.mem_singleton.1 last]
          calc firstAsked (items ++ [item]) hierarchy a
              = firstAsked items hierarchy a := firstAsked_concat_of_mem mem
            _ < items.length := firstAsked_lt mem
            _ ≤ firstAsked (items ++ [item]) hierarchy item.artifact :=
              firstAsked_concat_of_not_mem new.2
      · exact kept

theorem askedFor_congr (same : ∀ name, name ∈ hierarchy ↔ name ∈ wider) :
    askedFor items hierarchy = askedFor items wider := by
  rw [askedFor, askedFor]
  congr 2
  refine List.filter_congr fun item _ => ?_
  rw [Bool.eq_iff_iff, ScopedArtifact.appliesTo_iff, ScopedArtifact.appliesTo_iff]
  exact ⟨fun asked => asked.mono fun name => (same name).1,
    fun asked => asked.mono fun name => (same name).2⟩

/-! ## The whole -/

/-- **Artifacts and exclusions are scoped to the source hierarchy**, exactly and monotonically:
what is given for a hierarchy is told by the declarations alone, a wider hierarchy is given all
of it, and the order and repetition of its names do not count. -/
theorem scoped_to_hierarchy (d : IvyDeclaration) (hierarchy : List String) :
    d.exclusionsFor hierarchy =
      d.exclusions.filter (fun rule => decide (rule.ActiveFor hierarchy)) ∧
    (d.artifactsFor hierarchy).Nodup ∧
    (∀ a, a ∈ d.artifactsFor hierarchy ↔
      ∃ item ∈ d.artifacts, item.artifact = a ∧ item.AskedFor hierarchy) ∧
    (d.artifactsFor hierarchy).Pairwise (fun a b =>
      firstAsked d.artifacts hierarchy a < firstAsked d.artifacts hierarchy b) ∧
    ∀ wider : List String, (∀ name ∈ hierarchy, name ∈ wider) →
      (d.exclusionsFor hierarchy).Sublist (d.exclusionsFor wider) ∧
      (∀ a ∈ d.artifactsFor hierarchy, a ∈ d.artifactsFor wider) ∧
      ((∀ name ∈ wider, name ∈ hierarchy) →
        d.exclusionsFor wider = d.exclusionsFor hierarchy ∧
        d.artifactsFor wider = d.artifactsFor hierarchy) := by
  have ascending : (d.artifactsFor hierarchy).Pairwise fun a b =>
      firstAsked d.artifacts hierarchy a < firstAsked d.artifacts hierarchy b := askedFor_ascending
  refine ⟨exclusionsFor_eq_filter, ?_, fun a => mem_askedFor_iff, ascending, ?_⟩
  · exact ascending.imp fun lt same => Nat.ne_of_lt lt (congrArg _ same)
  · intro wider within
    refine ⟨exclusionsFor_sublist within, fun a mem => ?_, fun back => ⟨?_, ?_⟩⟩
    · obtain ⟨item, declared, same, asked⟩ := mem_askedFor_iff.1 mem
      exact mem_askedFor_iff.2 ⟨item, declared, same, asked.mono within⟩
    · exact (exclusionsFor_sublist back).antisymm (exclusionsFor_sublist within)
    · exact askedFor_congr fun name => ⟨back name, within name⟩

namespace Example

/-- The library is asked for twice, first of all only by `test`. -/
def libraryTwice : IvyDeclaration :=
  { ((((of ⟨"org.example", "lib", Version.Constraint.free⟩).addArtifact (Artifact.jar "lib")
      ["test"]).addArtifact (Artifact.jar "extras") ["*"]).addArtifact (Artifact.jar "lib") []) with
    exclusions := [(Exclusion.ofGroup "junit" none).inConfigurations ["test"],
      Exclusion.ofGroup "log4j" none, (Exclusion.ofGroup "ant" none).inConfigurations ["*"]] }

end Example

open Example in
theorem scoped_to_hierarchy_widened :
    (∀ name ∈ ["compile"], name ∈ ["test", "compile"]) ∧
    libraryTwice.exclusionsFor ["compile"] = [Exclusion.ofGroup "log4j" none] ∧
    (libraryTwice.exclusionsFor ["compile"]).Sublist
      (libraryTwice.exclusionsFor ["test", "compile"]) ∧
    libraryTwice.artifactsFor ["compile"] = [Artifact.jar "extras", Artifact.jar "lib"] ∧
    (∀ a ∈ libraryTwice.artifactsFor ["compile"],
      a ∈ libraryTwice.artifactsFor ["test", "compile"]) ∧
    libraryTwice.artifactsFor ["test", "compile"] = [Artifact.jar "lib", Artifact.jar "extras"] := by
  have within : ∀ name ∈ ["compile"], name ∈ ["test", "compile"] := by decide
  obtain ⟨fewer, kept, -⟩ :=
    (scoped_to_hierarchy libraryTwice ["compile"]).2.2.2.2 ["test", "compile"] within
  exact ⟨within, by decide, fewer, by decide, kept, by decide⟩

end IvyDeclaration
end EdgeResolution
