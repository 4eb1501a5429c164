/-
# EdgeResolution.Proofs.Selection.Mapping -- what a module descriptor's mappings mean

A descriptor is given its mappings call by call, and selects through loops over the
source hierarchy, the targets of each name and the configurations of the target,
leaving out what is there already.  None of that order counts:

* `Asked` is what the mappings name for a source hierarchy, `@` read as the source,
  and `Chosen` is what that stands for in a target, where `*` is everything;
* `mapped_eq_ok` and `exists_mapped_iff`: the loops find exactly what is chosen, and
  fail exactly when a part of it is absent.  A name that is left out because it is
  there already was found before, so leaving it out never hides an absent one;
* `selectByName_declarative`: the selection is the ancestor closure of what is
  chosen, so it is the same set of names for every order of declaration.
-/
import EdgeResolution.Proofs.Selection.ByName

namespace EdgeResolution

set_option autoImplicit false

open Failure (bind_eq_ok_iff map_eq_ok_iff)

/-! ## The configurations of a target -/

namespace Component

variable {t : Component} {c : Configuration} {n : String}

theorem mem_values_name_iff :
    n ∈ t.configurations.values.map (·.name) ↔ ∃ c, t.configuration? n = some c := by
  simp only [List.mem_map, mem_values_iff]
  constructor
  · rintro ⟨c, held, rfl⟩
    exact ⟨c, held⟩
  · rintro ⟨c, held⟩
    have named : c.name = n := name_of_configuration? held
    exact ⟨c, named.symm ▸ held, named⟩

end Component

namespace IvyDeclaration

open Component

variable {d d' : IvyDeclaration} {r r' : Requester} {t : Component}
  {calls calls' : List (String × List String)} {hierarchy targets : List String}
  {source target name n : String} {c : Configuration}
  {selected more listed : List Configuration}

/-! ## Declared mappings -/

/-- Declare mappings one after the other. -/
def mapAll (d : IvyDeclaration) (calls : List (String × List String)) : IvyDeclaration :=
  calls.foldl (fun d call => d.map call.1 call.2) d

/-- The mappings of the declaration are those of these calls. -/
def DeclaredBy (d : IvyDeclaration) (calls : List (String × List String)) : Prop :=
  d.mappings = ((of d.selector).mapAll calls).mappings

/-- Some call maps `source` to `target`. -/
def Mapped (calls : List (String × List String)) (source target : String) : Prop :=
  ∃ call ∈ calls, call.1 = source ∧ target ∈ call.2

theorem mem_addNew {α : Type} [BEq α] [LawfulBEq α] {a : α} {items new : List α} :
    a ∈ addNew items new ↔ a ∈ items ∨ a ∈ new := by
  rw [addNew]
  induction new generalizing items with
  | nil => simp
  | cons x new ih =>
      rw [List.foldl_cons, ih, List.mem_cons]
      by_cases there : items.contains x
      · have inItems : x ∈ items := List.contains_iff_mem.1 there
        rw [if_pos there]
        constructor
        · exact Or.imp_right Or.inr
        · rintro (old | rfl | later)
          · exact Or.inl old
          · exact Or.inl inItems
          · exact Or.inr later
      · rw [if_neg there, List.mem_append, List.mem_singleton, or_assoc]

theorem mem_get?_map :
    target ∈ ((d.map name targets).mappings.get? source).getD [] ↔
      target ∈ (d.mappings.get? source).getD [] ∨ name = source ∧ target ∈ targets := by
  rw [map, NameMap.get?_upsert]
  by_cases same : source = name
  · subst same
    simp [mem_addNew]
  · simp [same, Ne.symm same]

theorem mem_get?_mapAll :
    target ∈ ((d.mapAll calls).mappings.get? source).getD [] ↔
      target ∈ (d.mappings.get? source).getD [] ∨ Mapped calls source target := by
  induction calls generalizing d with
  | nil => simp [mapAll, Mapped]
  | cons call calls ih =>
      have step : d.mapAll (call :: calls) = (d.map call.1 call.2).mapAll calls := rfl
      rw [step, ih, mem_get?_map, or_assoc]
      simp [Mapped]

theorem selector_mapAll : (d.mapAll calls).selector = d.selector := by
  induction calls generalizing d with
  | nil => rfl
  | cons call calls ih => exact ih (d := d.map call.1 call.2)

theorem declaredBy_mapAll (selector : Selector.Module) (calls : List (String × List String)) :
    ((of selector).mapAll calls).DeclaredBy calls := by
  rw [DeclaredBy, selector_mapAll]
  rfl

theorem DeclaredBy.mem_get?_iff (declared : d.DeclaredBy calls) :
    target ∈ (d.mappings.get? source).getD [] ↔ Mapped calls source target := by
  rw [declared, mem_get?_mapAll]
  simp [of]

/-! ## What the mappings ask for -/

/-- What the calls map some name of the hierarchy to, `@` read as that name. -/
def Asked (calls : List (String × List String)) (hierarchy : List String) (name : String) : Prop :=
  ∃ source ∈ hierarchy, ∃ target, (Mapped calls source target ∨ Mapped calls "*" target) ∧
    name = if target = "@" then source else target

/-- What is asked for by its name, and all that the target has when `*` is asked for. -/
def Chosen (calls : List (String × List String)) (hierarchy : List String) (t : Component)
    (name : String) : Prop :=
  Asked calls hierarchy name ∧ name ≠ "*" ∨
    Asked calls hierarchy "*" ∧ ∃ c, t.configuration? name = some c

theorem DeclaredBy.mem_flatMap_targetsOf_iff (declared : d.DeclaredBy calls) :
    name ∈ hierarchy.flatMap d.targetsOf ↔ Asked calls hierarchy name := by
  simp only [List.mem_flatMap, targetsOf, List.mem_map, List.mem_append, declared.mem_get?_iff,
    Asked, @eq_comm _ name]
  exact Iff.rfl

theorem asked_congr (sameCalls : ∀ source target, Mapped calls source target ↔
      Mapped calls' source target) {hierarchy' : List String}
    (sameNames : ∀ name, name ∈ hierarchy ↔ name ∈ hierarchy') :
    Asked calls hierarchy name ↔ Asked calls' hierarchy' name := by
  simp only [Asked, sameCalls, sameNames]

/-! ## One target -/

/-- What a mapped target stands for. -/
def StandsFor (t : Component) (target name : String) : Prop :=
  target ≠ "*" ∧ name = target ∨ target = "*" ∧ ∃ c, t.configuration? name = some c

theorem mem_name_foldl_addByName {cs : List Configuration} :
    n ∈ (cs.foldl addByName selected).map (·.name) ↔
      n ∈ selected.map (·.name) ∨ n ∈ cs.map (·.name) := by
  induction cs generalizing selected with
  | nil => simp
  | cons d cs ih =>
      have step : n ∈ (addByName selected d).map (·.name) ↔
          n ∈ selected.map (·.name) ∨ n = d.name := by
        rw [addByName]
        split
        · next there =>
            have inSelected := Configuration.any_name_iff.1 there
            exact ⟨Or.inl, Or.rec id fun same => same ▸ inSelected⟩
        · rw [List.map_append, List.mem_append, List.map_singleton, List.mem_singleton]
      rw [List.foldl_cons, ih, step, List.map_cons, List.mem_cons, or_assoc]

theorem mem_name_of_addTarget (ok : addTarget r t selected target = .ok more) :
    n ∈ more.map (·.name) ↔ n ∈ selected.map (·.name) ∨ StandsFor t target n := by
  rcases addTarget_eq_ok_iff.1 ok with ⟨rfl, rfl⟩ | ⟨other, there, rfl⟩ | ⟨other, -, c, held, rfl⟩
  · rw [mem_name_foldl_addByName, mem_values_name_iff]
    simp [StandsFor]
  · constructor
    · exact Or.inl
    · rintro (old | ⟨-, rfl⟩ | ⟨every, -⟩)
      · exact old
      · exact there
      · exact absurd every other
  · have named : c.name = target := name_of_configuration? held
    simp [StandsFor, other, named]

theorem exists_addTarget
    (stands : ∀ name, StandsFor t target name → ∃ c, t.configuration? name = some c) :
    ∃ more, addTarget r t selected target = .ok more := by
  simp only [addTarget_eq_ok_iff]
  by_cases every : target = "*"
  · exact ⟨_, Or.inl ⟨every, rfl⟩⟩
  · by_cases there : target ∈ selected.map (·.name)
    · exact ⟨selected, Or.inr (Or.inl ⟨every, there, rfl⟩)⟩
    · obtain ⟨c, found⟩ := stands target (Or.inl ⟨every, rfl⟩)
      exact ⟨selected ++ [c], Or.inr (Or.inr ⟨every, there, c, found, rfl⟩)⟩

/-! ## All targets -/

theorem mem_name_of_addTargets (ok : targets.foldlM (addTarget r t) selected = .ok more) :
    n ∈ more.map (·.name) ↔
      n ∈ selected.map (·.name) ∨ ∃ target ∈ targets, StandsFor t target n := by
  induction targets generalizing selected with
  | nil =>
      cases ok
      simp
  | cons target targets ih =>
      rw [List.foldlM_cons, bind_eq_ok_iff] at ok
      obtain ⟨next, now, later⟩ := ok
      rw [ih later, mem_name_of_addTarget now, or_assoc]
      simp

theorem exists_addTargets
    (stands : ∀ target ∈ targets, ∀ name, StandsFor t target name →
      ∃ c, t.configuration? name = some c) :
    ∃ more, targets.foldlM (addTarget r t) selected = .ok more := by
  induction targets generalizing selected with
  | nil => exact ⟨selected, rfl⟩
  | cons target targets ih =>
      obtain ⟨next, now⟩ : ∃ next, addTarget r t selected target = .ok next :=
        exists_addTarget (stands target List.mem_cons_self)
      obtain ⟨more, later⟩ : ∃ more, targets.foldlM (addTarget r t) next = .ok more :=
        ih fun other mem => stands other (List.mem_cons_of_mem _ mem)
      exact ⟨more, by rw [List.foldlM_cons, bind_eq_ok_iff]; exact ⟨next, now, later⟩⟩

/-! ## Mapped configurations -/

theorem chosen_iff :
    Chosen calls hierarchy t n ↔ ∃ target, Asked calls hierarchy target ∧ StandsFor t target n := by
  constructor
  · rintro (⟨asked, other⟩ | ⟨every, held⟩)
    · exact ⟨n, asked, Or.inl ⟨other, rfl⟩⟩
    · exact ⟨"*", every, Or.inr ⟨rfl, held⟩⟩
  · rintro ⟨target, asked, ⟨other, rfl⟩ | ⟨rfl, held⟩⟩
    · exact Or.inl ⟨asked, other⟩
    · exact Or.inr ⟨asked, held⟩

theorem mapped_eq_ok (declared : d.DeclaredBy calls) (ok : d.mapped r t = .ok selected) :
    t.Holds selected ∧
      ∀ n, n ∈ selected.map (·.name) ↔ Chosen calls r.configuration.hierarchy t n := by
  refine ⟨holds_of_mapped ok, fun n => ?_⟩
  rw [mapped] at ok
  rw [mem_name_of_addTargets ok, chosen_iff]
  simp only [declared.mem_flatMap_targetsOf_iff, List.map_nil, List.not_mem_nil, false_or]

theorem exists_mapped_iff (declared : d.DeclaredBy calls) :
    (∃ selected, d.mapped r t = .ok selected) ↔
      ∀ n, Chosen calls r.configuration.hierarchy t n → ∃ c, t.configuration? n = some c := by
  constructor
  · rintro ⟨selected, ok⟩ n chosen
    obtain ⟨held, names⟩ := mapped_eq_ok declared ok
    obtain ⟨c, mem, rfl⟩ := List.mem_map.1 ((names n).2 chosen)
    exact ⟨c, held c mem⟩
  · intro held
    refine exists_addTargets fun target mem n stands => held n (chosen_iff.2 ⟨target, ?_, stands⟩)
    exact declared.mem_flatMap_targetsOf_iff.1 mem

/-! ## Selections -/

theorem exists_selectByName_iff (declared : d.DeclaredBy calls) :
    (∃ listed, d.selectByName r t = .ok listed) ↔
      ∀ n, Chosen calls r.configuration.hierarchy t n → t.Unbroken n := by
  simp only [selectByName, bind_eq_ok_iff, Requester.expand_eq_ok_iff]
  constructor
  · rintro ⟨listed, selected, ok, expanded⟩ n chosen
    obtain ⟨held, names⟩ := mapped_eq_ok declared ok
    obtain ⟨c, mem, rfl⟩ := List.mem_map.1 ((names n).2 chosen)
    exact (exists_expand_iff held).1 ⟨listed, expanded⟩ c mem
  · intro unbroken
    obtain ⟨selected, ok⟩ := (exists_mapped_iff (r := r) (t := t) declared).2
      fun n chosen => unbroken n chosen n (.refl n)
    obtain ⟨held, names⟩ := mapped_eq_ok declared ok
    obtain ⟨listed, expanded⟩ := (exists_expand_iff held).2 fun c mem =>
      unbroken c.name ((names c.name).1 (List.mem_map_of_mem mem))
    exact ⟨listed, selected, ok, expanded⟩

theorem mem_name_selectByName_iff (declared : d.DeclaredBy calls)
    (ok : d.selectByName r t = .ok listed) :
    name ∈ listed.map (·.name) ↔
      ∃ n, Chosen calls r.configuration.hierarchy t n ∧ t.Reaches n name := by
  rw [selectByName, bind_eq_ok_iff] at ok
  obtain ⟨selected, mappedOk, expanded⟩ := ok
  obtain ⟨held, names⟩ := mapped_eq_ok declared mappedOk
  rw [mem_name_expand_iff held (Requester.expand_eq_ok_iff.1 expanded)]
  simp only [← names, List.mem_map]
  constructor
  · rintro ⟨c, mem, reached⟩
    exact ⟨c.name, ⟨c, mem, rfl⟩, reached⟩
  · rintro ⟨n, ⟨c, mem, rfl⟩, reached⟩
    exact ⟨c, mem, reached⟩

theorem selectByName_eq_nil_iff (declared : d.DeclaredBy calls)
    (ok : d.selectByName r t = .ok listed) :
    listed = [] ↔ ∀ n, ¬ Chosen calls r.configuration.hierarchy t n := by
  rw [← List.map_eq_nil_iff (f := (·.name)), List.eq_nil_iff_forall_not_mem]
  simp only [mem_name_selectByName_iff declared ok]
  constructor
  · intro nothing n chosen
    exact nothing n ⟨n, chosen, .refl n⟩
  · rintro none name ⟨n, chosen, -⟩
    exact none n chosen

/-- **Selecting by mappings is the ancestor closure of what they choose**, whatever the order of
the calls, of the targets in a call and of the source hierarchy. -/
theorem selectByName_declarative (declared : d.DeclaredBy calls) (r : Requester) (t : Component) :
    ((∃ listed, d.selectByName r t = .ok listed) ↔
      ∀ n, Chosen calls r.configuration.hierarchy t n → t.Unbroken n) ∧
    (∀ listed, d.selectByName r t = .ok listed →
      (∀ name, name ∈ listed.map (·.name) ↔
        ∃ n, Chosen calls r.configuration.hierarchy t n ∧ t.Reaches n name) ∧
      (listed.map (·.name)).Nodup ∧
      (listed = [] ↔ ∀ n, ¬ Chosen calls r.configuration.hierarchy t n)) ∧
    (∀ (d' : IvyDeclaration) (calls' : List (String × List String)) (r' : Requester),
      d'.DeclaredBy calls' →
      (∀ source target, Mapped calls source target ↔ Mapped calls' source target) →
      (∀ name, name ∈ r.configuration.hierarchy ↔ name ∈ r'.configuration.hierarchy) →
      ((∃ listed, d.selectByName r t = .ok listed) ↔
        ∃ listed', d'.selectByName r' t = .ok listed') ∧
      (∀ listed listed', d.selectByName r t = .ok listed → d'.selectByName r' t = .ok listed' →
        ∀ name, name ∈ listed.map (·.name) ↔ name ∈ listed'.map (·.name))) := by
  refine ⟨exists_selectByName_iff declared, fun listed ok => ?_, ?_⟩
  · exact ⟨fun name => mem_name_selectByName_iff declared ok,
      (listing_of_selectByName ok).distinct, selectByName_eq_nil_iff declared ok⟩
  · intro d' calls' r' declared' sameCalls sameNames
    have sameChosen : ∀ n, Chosen calls r.configuration.hierarchy t n ↔
        Chosen calls' r'.configuration.hierarchy t n := by
      intro n
      rw [Chosen, Chosen, asked_congr sameCalls sameNames, asked_congr sameCalls sameNames]
    refine ⟨?_, fun listed listed' ok ok' name => ?_⟩
    · rw [exists_selectByName_iff declared, exists_selectByName_iff declared']
      simp only [sameChosen]
    · rw [mem_name_selectByName_iff declared ok, mem_name_selectByName_iff declared' ok']
      simp only [sameChosen]

namespace Example

open Requester.Example (app extending ladder)

def inOrder : List (String × List String) :=
  [("test", ["runtime", "default"]), ("*", ["compile"]), ("test", ["@"])]

def shuffled : List (String × List String) :=
  [("test", ["@", "default"]), ("*", ["compile"]), ("test", ["runtime"])]

def declaration (calls : List (String × List String)) : IvyDeclaration :=
  (of ⟨"org.example", "lib", Version.Constraint.free⟩).mapAll calls

def tests (parents : List String) : Requester := ⟨app.component, extending "test" parents⟩

/-- `ladder` with a `test` of its own. -/
def tested : Component := ladder.addConfiguration (extending "test" [])

end Example

open Example Requester.Example in
theorem selectByName_declarative_shuffled :
    (∃ listed, (declaration shuffled).selectByName (tests ["fast", "unit"]) tested = .ok listed ∧
      ∀ name, name ∈ ["compile", "runtime", "default", "test"] ↔ name ∈ listed.map (·.name)) ∧
    ¬ ∃ listed, (declaration inOrder).selectByName (tests []) ladder = .ok listed := by
  have sameCalls : ∀ source target,
      Mapped inOrder source target ↔ Mapped shuffled source target := by
    intro source target
    simp only [Mapped, inOrder, shuffled, List.mem_cons, List.not_mem_nil, or_false,
      exists_eq_or_imp, exists_eq_left]
    grind
  have sameNames : ∀ name, name ∈ (tests ["unit", "fast"]).configuration.hierarchy ↔
      name ∈ (tests ["fast", "unit"]).configuration.hierarchy := by
    have there : (tests ["unit", "fast"]).configuration.hierarchy = ["test", "unit", "fast"] := by
      cbv
    have back : (tests ["fast", "unit"]).configuration.hierarchy = ["test", "fast", "unit"] := by
      cbv
    intro name
    rw [there, back]
    grind
  have found : (declaration inOrder).mapped (tests ["unit", "fast"]) tested =
      .ok [extending "runtime" ["compile"], extending "default" ["compile", "runtime"],
        extending "test" [], extending "compile" []] := rfl
  have expanded : (tests ["unit", "fast"]).expand tested
      [extending "runtime" ["compile"], extending "default" ["compile", "runtime"],
        extending "test" [], extending "compile" []] =
      .ok [extending "compile" [], extending "runtime" ["compile"],
        extending "default" ["compile", "runtime"], extending "test" []] :=
    Requester.expand_eq_ok_iff.2 (by cbv)
  have ok : (declaration inOrder).selectByName (tests ["unit", "fast"]) tested =
      .ok [extending "compile" [], extending "runtime" ["compile"],
        extending "default" ["compile", "runtime"], extending "test" []] :=
    bind_eq_ok_iff.2 ⟨_, found, expanded⟩
  have declared : (declaration inOrder).DeclaredBy inOrder := declaredBy_mapAll _ inOrder
  obtain ⟨succeeds, names⟩ := (selectByName_declarative declared (tests ["unit", "fast"])
    tested).2.2 (declaration shuffled) shuffled (tests ["fast", "unit"])
    (declaredBy_mapAll _ shuffled) sameCalls sameNames
  refine ⟨?_, ?_⟩
  · obtain ⟨listed, ok'⟩ := succeeds.1 ⟨_, ok⟩
    exact ⟨listed, ok', names _ _ ok ok'⟩
  · -- `@` is read as `test`, which this target does not have
    intro succeeds
    have unbroken := (selectByName_declarative declared (tests []) ladder).1.1 succeeds
    have asked : Asked inOrder (tests []).configuration.hierarchy "test" :=
      ⟨"test", List.mem_cons_self, "@", Or.inl ⟨("test", ["@"]), by decide, rfl, by decide⟩, rfl⟩
    obtain ⟨c, found⟩ := unbroken "test" (Or.inl ⟨asked, by decide⟩) "test" (.refl _)
    have absent : ladder.configuration? "test" = none := by cbv
    exact absurd (found.symm.trans absent) (by simp)

end IvyDeclaration
end EdgeResolution
