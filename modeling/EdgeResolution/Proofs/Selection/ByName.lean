/-
# EdgeResolution.Proofs.Selection.ByName -- what a selection by name can come to

Both formats look configurations up in the target and expand what they found, so
they expand only what the target holds (`MavenDeclaration.chosen_eq_ok`,
`IvyDeclaration.holds_of_mapped`).  A selection by name that succeeds is a finished
listing of the target (`listing_of_selectByName`): held configurations, each name
once.  One that fails names a configuration that the target does not have
(`lacks_of_selectByName`).

A module descriptor may map nothing, a POM always asks for something: its selection
is never empty (`MavenDeclaration.selectByName_ne_nil`).
-/
import EdgeResolution.Declaration
import EdgeResolution.Proofs.Ancestry.Expansion

namespace EdgeResolution

set_option autoImplicit false

variable {r : Requester} {t : Component} {f : Failure} {name : String}
  {c : Configuration} {selected listed : List Configuration}

/-! ## One after the other -/

namespace Failure

variable {α β : Type} {x : Except Failure α} {g : α → Except Failure β} {h : α → β}

theorem bind_eq_ok_iff {b : β} : x >>= g = .ok b ↔ ∃ a, x = .ok a ∧ g a = .ok b := by
  cases x <;> simp [bind, Except.bind]

theorem bind_eq_error_iff :
    x >>= g = .error f ↔ x = .error f ∨ ∃ a, x = .ok a ∧ g a = .error f := by
  cases x <;> simp [bind, Except.bind]

theorem map_eq_ok_iff {b : β} : x.map h = .ok b ↔ ∃ a, x = .ok a ∧ h a = b := by
  cases x <;> simp [Except.map]

theorem map_eq_error_iff : x.map h = .error f ↔ x = .error f := by
  cases x <;> simp [Except.map]

end Failure

open Failure (bind_eq_ok_iff bind_eq_error_iff map_eq_ok_iff map_eq_error_iff)

/-! ## Looking up and expanding -/

namespace Component

theorem mem_values_iff : c ∈ t.configurations.values ↔ t.configuration? c.name = some c := by
  rw [NameMap.values, List.mem_map, configuration?, NameMap.get?_eq_some_iff]
  constructor
  · rintro ⟨⟨name, held⟩, mem, rfl⟩
    have found : t.configuration? name = some held := t.configurations.get?_eq_some_iff.2 mem
    rwa [name_of_configuration? found]
  · intro mem
    exact ⟨(c.name, c), mem, rfl⟩

theorem Holds.nil : t.Holds [] := by simp [Holds]

theorem Holds.singleton (held : t.configuration? c.name = some c) : t.Holds [c] :=
  List.forall_mem_singleton.2 held

theorem Holds.append (held : t.Holds selected) (more : t.Holds listed) :
    t.Holds (selected ++ listed) :=
  List.forall_mem_append.2 ⟨held, more⟩

end Component

theorem Configuration.any_name_iff {cs : List Configuration} :
    (cs.any fun c => c.name == name) = true ↔ name ∈ cs.map (·.name) := by
  simp only [List.any_eq_true, beq_iff_eq, List.mem_map]

namespace Requester

open Component

/-- The failure tells this requester that the target does not have some configuration. -/
def Lacks (r : Requester) (t : Component) (f : Failure) : Prop :=
  ∃ name, t.configuration? name = none ∧ f = r.missing t name

theorem find_eq_ok_iff : r.find t name = .ok c ↔ t.configuration? name = some c := by
  rw [find]
  cases t.configuration? name <;> simp

theorem lacks_of_find (failed : r.find t name = .error f) : r.Lacks t f := by
  rw [find] at failed
  split at failed
  · cases failed
  · next absent =>
      cases failed
      exact ⟨name, absent, rfl⟩

theorem held_of_find (ok : r.find t name = .ok c) : t.configuration? c.name = some c := by
  have found := find_eq_ok_iff.1 ok
  rwa [name_of_configuration? found]

theorem lacks_of_expand (held : t.Holds selected) (failed : r.expand t selected = .error f) :
    r.Lacks t f := by
  obtain ⟨name, stopped, rfl⟩ := expand_eq_error_iff.1 failed
  exact ⟨name, (missing_of_expand_eq_error held stopped).1, rfl⟩

theorem listing_of_expand (held : t.Holds selected) (ok : r.expand t selected = .ok listed) :
    t.Listing [] listed :=
  listing_of_expand_eq_ok held (expand_eq_ok_iff.1 ok)

/-- An expansion lists what was selected. -/
theorem expand_ne_nil (held : t.Holds selected) (ok : r.expand t selected = .ok listed)
    (some : selected ≠ []) : listed ≠ [] := by
  obtain ⟨c, mem⟩ := List.exists_mem_of_ne_nil selected some
  have inListed : c.name ∈ listed.map (·.name) :=
    name_mem_of_reaches held (expand_eq_ok_iff.1 ok) mem (.refl c.name)
  rintro rfl
  cases inListed

end Requester

/-! ## From a POM -/

namespace MavenDeclaration

open Component

theorem holds_master : t.Holds (master t) := by
  intro c mem
  rw [master, Option.mem_toList, Option.filter_eq_some_iff] at mem
  have found : t.configuration? "master" = some c := mem.1
  rwa [name_of_configuration? found]

theorem lacks_of_runtimeAndCompile (failed : runtimeAndCompile r t = .error f) : r.Lacks t f := by
  rw [runtimeAndCompile, bind_eq_error_iff] at failed
  rcases failed with noRuntime | ⟨runtime, found, failed⟩
  · exact Requester.lacks_of_find noRuntime
  rw [bind_eq_error_iff] at failed
  rcases failed with broken | ⟨reached, -, failed⟩
  · exact Requester.lacks_of_expand (.singleton (Requester.held_of_find found)) broken
  split at failed
  · cases failed
  · rw [bind_eq_error_iff] at failed
    rcases failed with noCompile | ⟨compile, -, impossible⟩
    · exact Requester.lacks_of_find noCompile
    · cases impossible

theorem runtimeAndCompile_eq_ok (ok : runtimeAndCompile r t = .ok selected) :
    t.Holds selected ∧ selected ≠ [] := by
  rw [runtimeAndCompile, bind_eq_ok_iff] at ok
  obtain ⟨runtime, foundRuntime, ok⟩ := ok
  have heldRuntime : t.Holds [runtime] := .singleton (Requester.held_of_find foundRuntime)
  obtain ⟨reached, -, ok⟩ := bind_eq_ok_iff.1 ok
  split at ok
  · cases ok
    exact ⟨heldRuntime, by simp⟩
  · obtain ⟨compile, foundCompile, same⟩ := bind_eq_ok_iff.1 ok
    cases same
    exact ⟨heldRuntime.append (.singleton (Requester.held_of_find foundCompile)), by simp⟩

/-- What a POM asks for, `master` apart. -/
def chosen (r : Requester) (t : Component) : Except Failure (List Configuration) :=
  if r.configuration.name == "compile" then (r.find t "compile").map fun c => [c]
  else runtimeAndCompile r t

theorem selectByName_eq :
    selectByName r t = chosen r t >>= fun selected => r.expand t (selected ++ master t) := by
  rw [selectByName, chosen]
  split <;> rfl

theorem lacks_of_chosen (failed : chosen r t = .error f) : r.Lacks t f := by
  rw [chosen] at failed
  split at failed
  · exact Requester.lacks_of_find (map_eq_error_iff.1 failed)
  · exact lacks_of_runtimeAndCompile failed

theorem chosen_eq_ok (ok : chosen r t = .ok selected) : t.Holds selected ∧ selected ≠ [] := by
  rw [chosen] at ok
  split at ok
  · obtain ⟨compile, found, rfl⟩ := map_eq_ok_iff.1 ok
    exact ⟨.singleton (Requester.held_of_find found), by simp⟩
  · exact runtimeAndCompile_eq_ok ok

theorem lacks_of_selectByName (failed : selectByName r t = .error f) : r.Lacks t f := by
  rw [selectByName_eq, bind_eq_error_iff] at failed
  rcases failed with notChosen | ⟨selected, chose, broken⟩
  · exact lacks_of_chosen notChosen
  · exact Requester.lacks_of_expand ((chosen_eq_ok chose).1.append holds_master) broken

theorem listing_of_selectByName (ok : selectByName r t = .ok listed) : t.Listing [] listed := by
  rw [selectByName_eq, bind_eq_ok_iff] at ok
  obtain ⟨selected, chose, expanded⟩ := ok
  exact Requester.listing_of_expand ((chosen_eq_ok chose).1.append holds_master) expanded

theorem selectByName_ne_nil (ok : selectByName r t = .ok listed) : listed ≠ [] := by
  rw [selectByName_eq, bind_eq_ok_iff] at ok
  obtain ⟨selected, chose, expanded⟩ := ok
  obtain ⟨held, some⟩ := chosen_eq_ok chose
  exact Requester.expand_ne_nil (held.append holds_master) expanded fun none =>
    some (List.append_eq_nil_iff.1 none).1

end MavenDeclaration

/-! ## From a module descriptor -/

namespace IvyDeclaration

open Component

variable {d : IvyDeclaration} {more : List Configuration} {target : String}
  {targets : List String}

theorem lacks_of_addTarget (failed : addTarget r t selected name = .error f) : r.Lacks t f := by
  rw [addTarget] at failed
  split at failed
  · cases failed
  · split at failed
    · cases failed
    · exact Requester.lacks_of_find (map_eq_error_iff.1 failed)

theorem mem_foldl_addByName {cs : List Configuration} :
    c ∈ cs.foldl addByName selected → c ∈ selected ∨ c ∈ cs := by
  induction cs generalizing selected with
  | nil => exact Or.inl
  | cons d cs ih =>
      intro mem
      rcases ih mem with inStep | later
      · rw [addByName] at inStep
        split at inStep
        · exact Or.inl inStep
        · rcases List.mem_append.1 inStep with old | new
          · exact Or.inl old
          · exact Or.inr (List.mem_singleton.1 new ▸ List.mem_cons_self)
      · exact Or.inr (List.mem_cons_of_mem _ later)

/-- The three things that adding a target can come to. -/
theorem addTarget_eq_ok_iff :
    addTarget r t selected target = .ok more ↔
      target = "*" ∧ more = t.configurations.values.foldl addByName selected ∨
      target ≠ "*" ∧ target ∈ selected.map (·.name) ∧ more = selected ∨
      target ≠ "*" ∧ target ∉ selected.map (·.name) ∧
        ∃ c, t.configuration? target = some c ∧ more = selected ++ [c] := by
  rw [addTarget, Ivy.everyName]
  by_cases every : target = "*"
  · simp [every, eq_comm]
  · by_cases mem : target ∈ selected.map (·.name)
    · rw [if_neg every, if_pos (Configuration.any_name_iff.2 mem)]
      simp [every, mem, eq_comm]
    · rw [if_neg every, if_neg (mt Configuration.any_name_iff.1 mem),
        map_eq_ok_iff]
      simp [every, mem, Requester.find_eq_ok_iff, @eq_comm _ more]

theorem holds_of_addTarget (held : t.Holds selected)
    (ok : addTarget r t selected target = .ok more) : t.Holds more := by
  rcases addTarget_eq_ok_iff.1 ok with ⟨rfl, rfl⟩ | ⟨-, -, rfl⟩ | ⟨-, -, c, found, rfl⟩
  · intro d mem
    rcases mem_foldl_addByName mem with old | inTarget
    · exact held d old
    · exact mem_values_iff.1 inTarget
  · exact held
  · exact held.append (.singleton (by rwa [name_of_configuration? found]))

theorem holds_of_addTargets (held : t.Holds selected)
    (ok : targets.foldlM (addTarget r t) selected = .ok more) : t.Holds more := by
  induction targets generalizing selected with
  | nil =>
      cases ok
      exact held
  | cons target targets ih =>
      rw [List.foldlM_cons, bind_eq_ok_iff] at ok
      obtain ⟨next, now, later⟩ := ok
      exact ih (holds_of_addTarget held now) later

theorem holds_of_mapped (ok : d.mapped r t = .ok selected) : t.Holds selected :=
  holds_of_addTargets .nil ok

theorem lacks_of_mapped (failed : d.mapped r t = .error f) : r.Lacks t f := by
  rw [mapped] at failed
  generalize r.configuration.hierarchy.flatMap d.targetsOf = names at failed
  generalize ([] : List Configuration) = selected at failed
  induction names generalizing selected with
  | nil => cases failed
  | cons name names ih =>
      rw [List.foldlM_cons, bind_eq_error_iff] at failed
      rcases failed with now | ⟨more, -, later⟩
      · exact lacks_of_addTarget now
      · exact ih more later

theorem lacks_of_selectByName (failed : d.selectByName r t = .error f) : r.Lacks t f := by
  rw [selectByName, bind_eq_error_iff] at failed
  rcases failed with notMapped | ⟨selected, mappedOk, broken⟩
  · exact lacks_of_mapped notMapped
  · exact Requester.lacks_of_expand (holds_of_mapped mappedOk) broken

theorem listing_of_selectByName (ok : d.selectByName r t = .ok listed) : t.Listing [] listed := by
  rw [selectByName, bind_eq_ok_iff] at ok
  obtain ⟨selected, mappedOk, expanded⟩ := ok
  exact Requester.listing_of_expand (holds_of_mapped mappedOk) expanded

end IvyDeclaration

/-! ## From either -/

namespace Declaration

variable {d : Declaration}

theorem lacks_of_selectByName (failed : d.selectByName r t = .error f) : r.Lacks t f := by
  cases d with
  | maven d => exact MavenDeclaration.lacks_of_selectByName failed
  | ivy d => exact IvyDeclaration.lacks_of_selectByName failed

theorem listing_of_selectByName (ok : d.selectByName r t = .ok listed) : t.Listing [] listed := by
  cases d with
  | maven d => exact MavenDeclaration.listing_of_selectByName ok
  | ivy d => exact IvyDeclaration.listing_of_selectByName ok

/-- Only a module descriptor can select nothing. -/
theorem exists_ivy_of_selectByName_nil (ok : d.selectByName r t = .ok []) :
    ∃ i, d = .ivy i := by
  cases d with
  | maven d => exact absurd rfl (MavenDeclaration.selectByName_ne_nil ok)
  | ivy d => exact ⟨d, rfl⟩

end Declaration
end EdgeResolution
