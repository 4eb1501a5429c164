/-
# EdgeResolution.Proofs.Selection.Shorthand -- the source `*` stands for each source

A descriptor may map the source `*`, whose targets are taken after those of each
name of the source hierarchy.  That entry is shorthand: it can be left out, when its
targets are mapped from each name of the hierarchy instead (`spelledOut`).

* `addTarget_of_taken`: a target whose configurations are there adds nothing, not
  even a failure, so a later mention of a target is as good as none
  (`addTargets_known`);
* `addTargets_addNew`: this is why it does not show that a name is not mapped twice
  to one target, while the shorthand visits it twice;
* `DeclaredBy.spelledOut`: spelled out, the mappings are those of the calls without
  the ones for `*`, and one call more for each name of the hierarchy;
* `selectByName_spelledOut`: the selection is the same, be it a list or a failure.

Targets are compared as they are declared and visited as they are read: an `@` that
is declared for two names stands for two configurations, and a name may be declared
both as itself and as `@`.
-/
import EdgeResolution.Proofs.Selection.Mapping

namespace EdgeResolution

set_option autoImplicit false

/-! ## Leaving out an entry -/

namespace NameMap

variable {α : Type}

/-- The map without the entry of this name. -/
def erase (m : NameMap α) (name : String) : NameMap α :=
  ⟨m.entries.filter fun e => e.1 ≠ name, m.ascending.filter _⟩

theorem get?_erase (m : NameMap α) (name other : String) :
    (m.erase name).get? other = if other = name then none else m.get? other := by
  apply Option.ext
  intro v
  rw [get?_eq_some_iff]
  show (other, v) ∈ m.entries.filter _ ↔ _
  by_cases same : other = name <;> simp [same, get?_eq_some_iff]

theorem erase_upsert (m : NameMap α) (name : String) (f : Option α → α) :
    (m.upsert name f).erase name = m.erase name := by
  ext1 other
  rw [get?_erase, get?_erase]
  by_cases same : other = name
  · rw [if_pos same, if_pos same]
  · rw [if_neg same, if_neg same, get?_upsert, if_neg same]

theorem erase_upsert_of_ne (m : NameMap α) {name erased : String} (f : Option α → α)
    (ne : name ≠ erased) : (m.upsert name f).erase erased = (m.erase erased).upsert name f := by
  ext1 other
  rw [get?_erase, get?_upsert, get?_upsert, get?_erase, get?_erase, if_neg ne]
  by_cases same : other = name
  · subst same
    simp [ne]
  · simp [same]

end NameMap

namespace IvyDeclaration

open Component
open Failure (bind_eq_ok_iff)

variable {d d' : IvyDeclaration} {r : Requester} {t : Component}
  {calls : List (String × List String)} {names targets further : List String}
  {source target n : String} {selected : List Configuration}

/-! ## Spelling out -/

/-- The targets that are mapped from `*`. -/
def everyTargets (d : IvyDeclaration) : List String := (d.mappings.get? Ivy.everyName).getD []

def withoutEvery (d : IvyDeclaration) : IvyDeclaration :=
  { d with mappings := d.mappings.erase Ivy.everyName }

/-- The targets of `*` mapped from each of these names, and no longer from `*`. -/
def spelledOut (d : IvyDeclaration) (names : List String) : IvyDeclaration :=
  d.withoutEvery.mapAll (names.map fun name => (name, d.everyTargets))

/-- `@` read as the source. -/
def readAt (source target : String) : String := if target = Ivy.sameName then source else target

theorem targetsOf_eq : d.targetsOf source =
    ((d.mappings.get? source).getD []).map (readAt source) ++
      d.everyTargets.map (readAt source) := by
  rw [targetsOf, List.map_append]
  rfl

theorem mapAll_append (d : IvyDeclaration) (calls more : List (String × List String)) :
    d.mapAll (calls ++ more) = (d.mapAll calls).mapAll more :=
  List.foldl_append

theorem mappings_mapAll_congr (same : d.mappings = d'.mappings) :
    (d.mapAll calls).mappings = (d'.mapAll calls).mappings := by
  induction calls generalizing d d' with
  | nil => exact same
  | cons call calls ih =>
      have sameNow : (d.map call.1 call.2).mappings = (d'.map call.1 call.2).mappings := by
        rw [map, map, same]
      exact ih sameNow

theorem withoutEvery_mapAll (d : IvyDeclaration) (calls : List (String × List String)) :
    (d.mapAll calls).withoutEvery =
      d.withoutEvery.mapAll (calls.filter fun call => call.1 ≠ Ivy.everyName) := by
  induction calls generalizing d with
  | nil => rfl
  | cons call calls ih =>
      have step : d.mapAll (call :: calls) = (d.map call.1 call.2).mapAll calls := rfl
      rw [step, ih]
      by_cases every : call.1 = Ivy.everyName
      · have gone : (d.map call.1 call.2).withoutEvery = d.withoutEvery := by
          rw [map, withoutEvery, withoutEvery, every, NameMap.erase_upsert]
        rw [gone, List.filter_cons_of_neg (by simpa using every)]
      · have kept : (d.map call.1 call.2).withoutEvery =
            d.withoutEvery.map call.1 call.2 := by
          rw [map, map, withoutEvery, withoutEvery, NameMap.erase_upsert_of_ne _ _ every]
        rw [kept, List.filter_cons_of_pos (by simpa using every)]
        rfl

theorem DeclaredBy.spelledOut (declared : d.DeclaredBy calls) (names : List String) :
    (d.spelledOut names).DeclaredBy ((calls.filter fun call => call.1 ≠ Ivy.everyName) ++
      names.map fun name => (name, d.everyTargets)) := by
  have plain : d.withoutEvery.mappings = ((of d.selector).mapAll
      (calls.filter fun call => call.1 ≠ Ivy.everyName)).mappings := by
    have nothing : (of d.selector).withoutEvery = of d.selector := rfl
    rw [← nothing, ← withoutEvery_mapAll]
    show d.mappings.erase _ = NameMap.erase _ _
    rw [declared]
  have selector : (d.spelledOut names).selector = d.selector :=
    selector_mapAll (d := d.withoutEvery)
  rw [DeclaredBy, selector, mapAll_append]
  exact mappings_mapAll_congr plain

theorem get?_mapAll_of_not_mem (absent : source ∉ calls.map (·.1)) :
    (d.mapAll calls).mappings.get? source = d.mappings.get? source := by
  induction calls generalizing d with
  | nil => rfl
  | cons call calls ih =>
      rw [List.map_cons, List.mem_cons, not_or] at absent
      have step : d.mapAll (call :: calls) = (d.map call.1 call.2).mapAll calls := rfl
      rw [step, ih absent.2, map, NameMap.get?_upsert, if_neg absent.1]

/-- Distinct names that are mapped to the same targets get each of them once. -/
theorem get?_mapAll_each (distinct : names.Nodup) (mem : source ∈ names) :
    (d.mapAll (names.map fun name => (name, targets))).mappings.get? source =
      some (addNew ((d.mappings.get? source).getD []) targets) := by
  induction names generalizing d with
  | nil => cases mem
  | cons name names ih =>
      obtain ⟨fresh, distinct⟩ := List.nodup_cons.1 distinct
      show ((d.map name targets).mapAll _).mappings.get? source = _
      rcases List.mem_cons.1 mem with rfl | later
      · rw [get?_mapAll_of_not_mem (by simpa using fresh), map, NameMap.get?_upsert, if_pos rfl]
      · have other : source ≠ name := fun same => fresh (same ▸ later)
        rw [ih distinct later, map, NameMap.get?_upsert, if_neg other]

/-! ## Targets that are there already -/

theorem foldl_addByName_of_known {cs : List Configuration}
    (known : ∀ c ∈ cs, c.name ∈ selected.map (·.name)) : cs.foldl addByName selected = selected := by
  induction cs with
  | nil => rfl
  | cons c cs ih =>
      have there := known c List.mem_cons_self
      rw [List.foldl_cons, addByName, if_pos (Configuration.any_name_iff.2 there)]
      exact ih fun later mem => known later (List.mem_cons_of_mem _ mem)

/-- A target whose configurations are there adds nothing. -/
theorem addTarget_of_taken (taken : ∀ n, StandsFor t target n → n ∈ selected.map (·.name)) :
    addTarget r t selected target = .ok selected := by
  rw [addTarget_eq_ok_iff]
  by_cases every : target = "*"
  · refine Or.inl ⟨every, (foldl_addByName_of_known fun c mem => ?_).symm⟩
    exact taken c.name (Or.inr ⟨every, c, mem_values_iff.1 mem⟩)
  · exact Or.inr (Or.inl ⟨every, taken target (Or.inl ⟨every, rfl⟩), rfl⟩)

theorem addTargets_of_taken
    (taken : ∀ target ∈ targets, ∀ n, StandsFor t target n → n ∈ selected.map (·.name)) :
    targets.foldlM (addTarget r t) selected = .ok selected := by
  induction targets with
  | nil => rfl
  | cons target targets ih =>
      rw [List.foldlM_cons, addTarget_of_taken (taken target List.mem_cons_self)]
      exact ih fun other mem => taken other (List.mem_cons_of_mem _ mem)

/-- Targets that were visited before might as well not be visited again. -/
theorem addTargets_known (known : ∀ target ∈ further, target ∈ targets) :
    (targets ++ further).foldlM (addTarget r t) selected =
      targets.foldlM (addTarget r t) selected := by
  rw [List.foldlM_append]
  cases ok : targets.foldlM (addTarget r t) selected with
  | error failure => rfl
  | ok more =>
      apply addTargets_of_taken
      intro target mem n stands
      exact (mem_name_of_addTargets ok).2 (Or.inr ⟨target, known target mem, stands⟩)

/-- Visiting all of two lists is visiting the first one and what is new in the second, however
the targets are read. -/
theorem addTargets_addNew (read : String → String) (targets further : List String) :
    ((addNew targets further).map read).foldlM (addTarget r t) selected =
      ((targets ++ further).map read).foldlM (addTarget r t) selected := by
  induction further generalizing targets with
  | nil => rw [List.append_nil]; rfl
  | cons target further ih =>
      have step : addNew targets (target :: further) =
          addNew (if targets.contains target then targets else targets ++ [target]) further := rfl
      rw [step, ih]
      by_cases there : target ∈ targets
      · have known : ∀ x ∈ [read target], x ∈ targets.map read := by
          intro x mem
          rw [List.mem_singleton.1 mem]
          exact List.mem_map_of_mem there
        rw [if_pos (List.contains_iff_mem.2 there), List.append_cons, List.map_append,
          List.map_append, List.map_append, List.foldlM_append, List.foldlM_append]
        congr 1
        exact (addTargets_known known).symm
      · rw [if_neg (mt List.contains_iff_mem.1 there), ← List.append_cons]

theorem addTargets_flatMap_congr {f g : String → List String}
    (same : ∀ source ∈ names, ∀ selected,
      (f source).foldlM (addTarget r t) selected = (g source).foldlM (addTarget r t) selected) :
    (names.flatMap f).foldlM (addTarget r t) selected =
      (names.flatMap g).foldlM (addTarget r t) selected := by
  induction names generalizing selected with
  | nil => rfl
  | cons source names ih =>
      rw [List.flatMap_cons, List.flatMap_cons, List.foldlM_append, List.foldlM_append,
        same source List.mem_cons_self]
      congr 1
      funext more
      exact ih fun other mem => same other (List.mem_cons_of_mem _ mem)

/-! ## The selection -/

theorem everyTargets_spelledOut (mem : target ∈ (d.spelledOut names).everyTargets) :
    target ∈ d.everyTargets := by
  rw [everyTargets, spelledOut, mem_get?_mapAll] at mem
  rcases mem with kept | ⟨call, inCalls, -, mem⟩
  · rw [withoutEvery, NameMap.get?_erase, if_pos rfl] at kept
    cases kept
  · obtain ⟨name, -, rfl⟩ := List.mem_map.1 inCalls
    exact mem

/-- What one source comes to. -/
theorem addTargets_spelledOut (distinct : names.Nodup) (mem : source ∈ names) :
    ((d.spelledOut names).targetsOf source).foldlM (addTarget r t) selected =
      (d.targetsOf source).foldlM (addTarget r t) selected := by
  have declared : (d.spelledOut names).mappings.get? source =
      some (addNew ((d.withoutEvery.mappings.get? source).getD []) d.everyTargets) :=
    get?_mapAll_each distinct mem
  have known : ∀ x ∈ (d.spelledOut names).everyTargets.map (readAt source),
      x ∈ (addNew ((d.withoutEvery.mappings.get? source).getD []) d.everyTargets).map
        (readAt source) := by
    intro x mem
    obtain ⟨target, inEvery, rfl⟩ := List.mem_map.1 mem
    exact List.mem_map_of_mem (mem_addNew.2 (Or.inr (everyTargets_spelledOut inEvery)))
  rw [targetsOf_eq, declared, Option.getD_some, addTargets_known known, addTargets_addNew,
    List.map_append, targetsOf_eq]
  by_cases every : source = Ivy.everyName
  · -- a source that is itself named `*` visits the same targets twice
    have gone : d.withoutEvery.mappings.get? source = none := by
      rw [withoutEvery, NameMap.get?_erase, if_pos every]
    have own : (d.mappings.get? source).getD [] = d.everyTargets := by
      rw [every, everyTargets]
    rw [gone, own, addTargets_known fun x mem => mem]
    rfl
  · rw [withoutEvery, NameMap.get?_erase, if_neg every]

/-- **The source `*` is shorthand**: spelled out for the names of the source hierarchy, the
mappings select the same list in the same order, or fail with the same failure.  That the
shorthand is gone then is up to the hierarchy, which might hold a name `*` itself. -/
theorem selectByName_spelledOut (d : IvyDeclaration) (r : Requester) (t : Component) :
    (d.spelledOut r.configuration.hierarchy).selectByName r t = d.selectByName r t ∧
    (Ivy.everyName ∉ r.configuration.hierarchy →
      (d.spelledOut r.configuration.hierarchy).mappings.get? Ivy.everyName = none) ∧
    ∀ calls, d.DeclaredBy calls → (d.spelledOut r.configuration.hierarchy).DeclaredBy
      ((calls.filter fun call => call.1 ≠ Ivy.everyName) ++
        r.configuration.hierarchy.map fun name => (name, d.everyTargets)) := by
  refine ⟨?_, fun plain => ?_, fun calls declared => declared.spelledOut _⟩
  · have sameMapped : (d.spelledOut r.configuration.hierarchy).mapped r t = d.mapped r t :=
      addTargets_flatMap_congr fun source mem selected =>
        addTargets_spelledOut r.configuration.distinct mem
    rw [selectByName, selectByName, sameMapped]
  · rw [spelledOut, get?_mapAll_of_not_mem (by simpa using plain), withoutEvery,
      NameMap.get?_erase, if_pos rfl]

namespace Example

/-- Own targets, `@` and the targets of `*` overlap for both sources. -/
def overlapping : List (String × List String) :=
  [("test", ["runtime", "test"]), ("*", ["@", "compile", "runtime"]), ("unit", ["compile"])]

end Example

open Example Requester.Example in
theorem selectByName_spelledOut_overlapping :
    (Ivy.everyName ∉ (tests ["unit"]).configuration.hierarchy ∧
      ((declaration overlapping).spelledOut ["test", "unit"]).mappings.get? Ivy.everyName = none) ∧
    ((declaration overlapping).spelledOut ["test", "unit"]).DeclaredBy
      [("test", ["runtime", "test"]), ("unit", ["compile"]),
        ("test", ["@", "compile", "runtime"]), ("unit", ["@", "compile", "runtime"])] ∧
    ((declaration overlapping).spelledOut ["test", "unit"]).selectByName (tests ["unit"]) tested =
      .error (.configurationNotFound "com.example:app:1.0" "test" "org.example:lib:1.0" "unit") ∧
    ((declaration overlapping).spelledOut ["test"]).selectByName (tests []) tested =
      .ok [extending "compile" [], extending "runtime" ["compile"], extending "test" []] := by
  have sources : (tests ["unit"]).configuration.hierarchy = ["test", "unit"] := by cbv
  have every : (declaration overlapping).everyTargets = ["@", "compile", "runtime"] := by decide
  have plain : Ivy.everyName ∉ (tests ["unit"]).configuration.hierarchy := by
    rw [sources]
    decide
  have failed : (declaration overlapping).selectByName (tests ["unit"]) tested =
      .error (.configurationNotFound "com.example:app:1.0" "test" "org.example:lib:1.0" "unit") :=
    rfl
  have found : (declaration overlapping).mapped (tests []) tested =
      .ok [extending "runtime" ["compile"], extending "test" [], extending "compile" []] := rfl
  have expanded : (tests []).expand tested
      [extending "runtime" ["compile"], extending "test" [], extending "compile" []] =
      .ok [extending "compile" [], extending "runtime" ["compile"], extending "test" []] :=
    Requester.expand_eq_ok_iff.2 (by cbv)
  have selected : (declaration overlapping).selectByName (tests []) tested =
      .ok [extending "compile" [], extending "runtime" ["compile"], extending "test" []] :=
    bind_eq_ok_iff.2 ⟨_, found, expanded⟩
  obtain ⟨same, gone, rewritten⟩ :=
    selectByName_spelledOut (declaration overlapping) (tests ["unit"]) tested
  have calls := rewritten overlapping (declaredBy_mapAll _ overlapping)
  rw [sources] at same gone calls
  rw [every] at calls
  refine ⟨⟨plain, gone (sources ▸ plain)⟩, calls, same.trans failed, ?_⟩
  exact (selectByName_spelledOut (declaration overlapping) (tests []) tested).1.trans selected

end IvyDeclaration
end EdgeResolution
