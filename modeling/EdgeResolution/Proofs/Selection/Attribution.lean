/-
# EdgeResolution.Proofs.Selection.Attribution -- a selection ends well or tells who is at fault

Whatever an edge is asked to select, it answers with configurations or with a failure
due to its declaration (`select_total_and_attributed`):

* `Component.Offers` is what the configurations are: some, each name once, and by
  attributes a single variant, by name only what the target holds;
* `Edge.Attributed` is what the failures are: each cause tells of the requester and
  the target, and comes up on one of the two ways of selecting only.

Which way is taken depends on the target and the consumer (`Component.MatchedFor`),
never on the edge.
-/
import EdgeResolution.Edge
import EdgeResolution.Proofs.Matching.Optimum
import EdgeResolution.Proofs.Selection.ByName

namespace EdgeResolution

set_option autoImplicit false

/-! ## The way of selecting -/

/-- The target is matched by attributes: it has variants, and it was published or the consumer
asks for some attribute. -/
def Component.MatchedFor (t : Component) (consumer : Attributes) : Prop :=
  t.variants ≠ [] ∧ (t.origin = .external ∨ consumer ≠ NameMap.empty)

/-- A project that is asked for nothing is not matched, whatever variants it has. -/
theorem Component.not_matchedFor_empty {t : Component} (inBuild : t.origin = .project) :
    ¬ t.MatchedFor NameMap.empty := by
  rintro ⟨-, published | asks⟩
  · rw [inBuild] at published
    cases published
  · exact asks rfl

theorem Attributes.isEmpty_iff (a : Attributes) : a.isEmpty = true ↔ a = NameMap.empty := by
  obtain ⟨entries, ascending⟩ := a
  simp [NameMap.isEmpty, NameMap.empty]

theorem Strategy.forTarget_eq_byAttributes_iff {consumer : Attributes} {t : Component} :
    Strategy.forTarget consumer t = .byAttributes ↔ t.MatchedFor consumer := by
  have asks : consumer ≠ NameMap.empty ↔ consumer.isEmpty = false := by
    rw [Ne, ← Attributes.isEmpty_iff, Bool.not_eq_true]
  rw [forTarget, choose, Component.MatchedFor, asks]
  cases t.variants <;> cases consumer.isEmpty <;> cases t.origin <;> simp

theorem Strategy.forTarget_of_not_matchedFor {consumer : Attributes} {t : Component}
    (unmatched : ¬ t.MatchedFor consumer) : Strategy.forTarget consumer t = .byName := by
  cases way : Strategy.forTarget consumer t with
  | byAttributes => exact absurd (forTarget_eq_byAttributes_iff.1 way) unmatched
  | byName => rfl

/-! ## Matches -/

namespace Matching

variable {schema : Schema} {consumer : Attributes} {variants : List Configuration}

theorem mem_of_select {v : Configuration} (ok : select schema consumer variants = .ok v) :
    v ∈ variants := by
  obtain ⟨before, after, split, -⟩ := (select_eq_ok_iff schema consumer variants v).1 ok
  have mem : v ∈ candidates schema consumer variants := by
    rw [split]
    simp
  exact List.mem_of_mem_filter mem

/-- Tied variants are several, and named in order of declaration. -/
theorem sublist_of_select_tie {names : List String}
    (tied : select schema consumer variants = .error (.tie names)) :
    2 ≤ names.length ∧ names.Sublist (variants.map (·.name)) := by
  obtain ⟨several, rfl⟩ := (select_eq_tie_iff schema consumer variants names).1 tied
  refine ⟨by rwa [List.length_map], List.Sublist.map _ ?_⟩
  exact List.filter_sublist.trans List.filter_sublist

end Matching

/-! ## Outcomes -/

/-- The configurations are a selection that the target has for the consumer. -/
structure Component.Offers (t : Component) (consumer : Attributes)
    (selected : List Configuration) : Prop where
  nonempty : selected ≠ []
  distinct : (selected.map (·.name)).Nodup
  variant : t.MatchedFor consumer → ∃ v ∈ t.variants, selected = [v]
  held : ¬ t.MatchedFor consumer → ∀ c ∈ selected, t.configuration? c.name = some c

namespace Edge

/-- The failure is told of the edge's requester, as its component with the configuration in round
brackets, and of the target, with a cause that belongs to the way of selecting. -/
inductive Attributed (e : Edge) (consumer : Attributes) (t : Component) : Failure → Prop
  | noMatchingVariant (matched : t.MatchedFor consumer) :
      Attributed e consumer t (.noMatchingVariant
        (e.requester.component.text ++ " (" ++ e.requester.configuration.name ++ ")")
        t.id.text consumer.text)
  | ambiguousVariant {names : List String} (matched : t.MatchedFor consumer)
      (several : 2 ≤ names.length) (declared : names.Sublist (t.variants.map (·.name))) :
      Attributed e consumer t (.ambiguousVariant
        (e.requester.component.text ++ " (" ++ e.requester.configuration.name ++ ")")
        t.id.text names)
  | configurationNotFound {missing : String} (byName : ¬ t.MatchedFor consumer)
      (absent : t.configuration? missing = none) :
      Attributed e consumer t (.configurationNotFound e.requester.component.text
        e.requester.configuration.name t.id.text missing)
  | nothingSelected {d : IvyDeclaration} (byName : ¬ t.MatchedFor consumer)
      (declared : e.declaration = .ivy d) :
      Attributed e consumer t (.nothingSelected
        (e.requester.component.text ++ " (" ++ e.requester.configuration.name ++ ")")
        t.id.text)

variable {e : Edge} {consumer : Attributes} {t : Component} {f : Failure}

theorem Attributed.isSelectionFailure (attributed : e.Attributed consumer t f) :
    f.isSelectionFailure = true := by
  cases attributed <;> rfl

/-- Both ends of a selection. -/
def Accounted (e : Edge) (consumer : Attributes) (t : Component) :
    Except Failure (List Configuration) → Prop
  | .ok selected => t.Offers consumer selected
  | .error f => e.Attributed consumer t f

theorem accounted_of_matched (e : Edge) (schema : Schema) (matched : t.MatchedFor consumer) :
    e.Accounted consumer t (e.select consumer t schema) := by
  rw [select, Strategy.forTarget_eq_byAttributes_iff.2 matched]
  cases outcome : Matching.select schema consumer t.variants with
  | ok v =>
      have mem : v ∈ t.variants := Matching.mem_of_select outcome
      exact ⟨by simp, by simp, fun _ => ⟨v, mem, rfl⟩, fun byName => absurd matched byName⟩
  | error m =>
      cases m with
      | noneCompatible => exact .noMatchingVariant matched
      | tie names =>
          obtain ⟨several, declared⟩ := Matching.sublist_of_select_tie outcome
          exact .ambiguousVariant matched several declared

theorem accounted_of_not_matched (e : Edge) (schema : Schema)
    (byName : ¬ t.MatchedFor consumer) :
    e.Accounted consumer t (e.select consumer t schema) := by
  rw [select, Strategy.forTarget_of_not_matchedFor byName]
  cases outcome : e.declaration.selectByName e.requester t with
  | error f =>
      obtain ⟨missing, absent, rfl⟩ := Declaration.lacks_of_selectByName outcome
      exact .configurationNotFound byName absent
  | ok selected =>
      cases selected with
      | nil =>
          obtain ⟨d, declared⟩ := Declaration.exists_ivy_of_selectByName_nil outcome
          exact .nothingSelected byName declared
      | cons c rest =>
          have listing := Declaration.listing_of_selectByName outcome
          exact ⟨by simp, listing.distinct, fun matched => absurd matched byName,
            fun _ => listing.held⟩

/-- **Every selection ends in configurations that the target has for the consumer, or in a failure
that is attributed to the edge and the target.** -/
theorem select_total_and_attributed (e : Edge) (consumer : Attributes) (t : Component)
    (schema : Schema) :
    (∃ selected, e.select consumer t schema = .ok selected ∧ t.Offers consumer selected) ∨
    (∃ f, e.select consumer t schema = .error f ∧ f.isSelectionFailure = true ∧
      e.Attributed consumer t f) := by
  have accounted : e.Accounted consumer t (e.select consumer t schema) := by
    by_cases matched : t.MatchedFor consumer
    · exact accounted_of_matched e schema matched
    · exact accounted_of_not_matched e schema matched
  cases outcome : e.select consumer t schema with
  | ok selected =>
      rw [outcome] at accounted
      exact Or.inl ⟨selected, rfl, accounted⟩
  | error f =>
      rw [outcome] at accounted
      exact Or.inr ⟨f, rfl, accounted.isSelectionFailure, accounted⟩

/-- A module descriptor that maps nothing from the source selects nothing. -/
example :
    let declaration := IvyDeclaration.of ⟨"org.example", "lib", Version.Constraint.free⟩
    let e : Edge := ⟨⟨⟨"com.example", "app", "1.0"⟩, Configuration.named "docs"⟩,
      .ivy (declaration.map "compile" ["default"]), none⟩
    e.select NameMap.empty (.empty (.module ⟨"org.example", "lib", "1.0"⟩) .external)
        NameMap.empty =
      .error (.nothingSelected "com.example:app:1.0 (docs)" "org.example:lib:1.0") := by cbv

end Edge
end EdgeResolution
