/-
# EdgeResolution.Proofs.Selection.Pom -- what a POM selects, without a look at `runtime`

From `compile` a POM asks for `compile`, from anywhere else for `runtime` and
`compile`, and each time for a `master` that holds anything
(`MavenDeclaration.asked`).  The selection looks first whether `runtime` reaches
`compile`, and then leaves `compile` out.  That changes nothing, round cycles or in
broken targets: a name that the walk has listed is passed over
(`Component.expand_past_listed`).

`MavenDeclaration.selectByName_without_shortcut` puts the two side by side: they
succeed for the same targets, and list the same.  Their failures may differ, where
`compile` is absent and an ancestor of `runtime` is too.
-/
import EdgeResolution.Proofs.Selection.ByName

namespace EdgeResolution

set_option autoImplicit false

namespace Component

variable {t : Component} {n : String} {names : List String} {c : Configuration}
  {first chosen chosen' listed rest : List Configuration}

/-! ## Names and what the target holds under them -/

/-- The target holds a configuration under each of the names, and these are they, in order. -/
def Found (t : Component) (names : List String) (chosen : List Configuration) : Prop :=
  names.map t.configuration? = chosen.map some

theorem found_nil_iff : t.Found [] chosen ↔ chosen = [] := by
  rw [Found, List.map_nil, eq_comm, List.map_eq_nil_iff]

theorem found_cons_iff :
    t.Found (n :: names) chosen ↔
      ∃ c rest, t.configuration? n = some c ∧ t.Found names rest ∧ chosen = c :: rest := by
  rw [Found, List.map_cons, eq_comm, List.map_eq_cons_iff]
  constructor
  · rintro ⟨c, rest, rfl, here, later⟩
    exact ⟨c, rest, here.symm, later.symm, rfl⟩
  · rintro ⟨c, rest, here, later, rfl⟩
    exact ⟨c, rest, rfl, here.symm, later.symm⟩

theorem found_singleton_iff :
    t.Found [n] chosen ↔ ∃ c, t.configuration? n = some c ∧ chosen = [c] := by
  simp only [found_cons_iff, found_nil_iff, exists_and_left, exists_eq_left]

theorem found_pair_iff {m : String} :
    t.Found [n, m] chosen ↔
      ∃ c, t.configuration? n = some c ∧ ∃ d, t.configuration? m = some d ∧ chosen = [c, d] := by
  rw [found_cons_iff]
  simp only [found_singleton_iff]
  constructor
  · rintro ⟨c, -, here, ⟨d, there, rfl⟩, rfl⟩
    exact ⟨c, here, d, there, rfl⟩
  · rintro ⟨c, here, d, there, rfl⟩
    exact ⟨c, [d], here, ⟨d, there, rfl⟩, rfl⟩

theorem found_append_iff {more : List String} :
    t.Found (names ++ more) chosen ↔
      ∃ early late, chosen = early ++ late ∧ t.Found names early ∧ t.Found more late := by
  rw [Found, List.map_append, eq_comm, List.map_eq_append_iff]
  simp only [Found, eq_comm]

theorem Found.unique (found : t.Found names chosen) (found' : t.Found names chosen') :
    chosen = chosen' :=
  (List.map_inj_right fun _ _ => Option.some.inj).1 (found.symm.trans found')

theorem Found.map_name (found : t.Found names chosen) : chosen.map (·.name) = names := by
  induction names generalizing chosen with
  | nil => rw [found_nil_iff.1 found, List.map_nil]
  | cons n names ih =>
      obtain ⟨c, rest, here, later, rfl⟩ := found_cons_iff.1 found
      rw [List.map_cons, ih later, name_of_configuration? here]

theorem Found.holds (found : t.Found names chosen) : t.Holds chosen := by
  induction names generalizing chosen with
  | nil =>
      rw [found_nil_iff.1 found]
      exact .nil
  | cons n names ih =>
      obtain ⟨c, rest, here, later, rfl⟩ := found_cons_iff.1 found
      exact List.forall_mem_cons.2 ⟨by rwa [name_of_configuration? here], ih later⟩

theorem exists_found (held : ∀ n ∈ names, ∃ c, t.configuration? n = some c) :
    ∃ chosen, t.Found names chosen := by
  induction names with
  | nil => exact ⟨[], found_nil_iff.2 rfl⟩
  | cons n names ih =>
      obtain ⟨c, here⟩ := held n List.mem_cons_self
      obtain ⟨chosen, later⟩ := ih fun m mem => held m (List.mem_cons_of_mem _ mem)
      exact ⟨c :: chosen, found_cons_iff.2 ⟨c, chosen, here, later, rfl⟩⟩

/-- What is held under some names can be expanded when nothing that they reach is absent. -/
theorem exists_found_expand_iff :
    (∃ listed chosen, t.Found names chosen ∧ t.expand chosen = .ok listed) ↔
      ∀ n ∈ names, t.Unbroken n := by
  constructor
  · rintro ⟨listed, chosen, found, ok⟩ n mem
    rw [← found.map_name] at mem
    obtain ⟨c, inChosen, rfl⟩ := List.mem_map.1 mem
    exact (exists_expand_iff found.holds).1 ⟨listed, ok⟩ c inChosen
  · intro unbroken
    obtain ⟨chosen, found⟩ := exists_found fun n mem => unbroken n mem n (.refl n)
    have whole : ∀ c ∈ chosen, t.Unbroken c.name := by
      intro c mem
      exact unbroken c.name (found.map_name ▸ List.mem_map_of_mem mem)
    obtain ⟨listed, ok⟩ := (exists_expand_iff found.holds).2 whole
    exact ⟨listed, chosen, found, ok⟩

/-! ## Asking for what is listed already -/

/-- Once `first` is expanded, a configuration that is listed adds nothing. -/
theorem expand_past_listed (ok : t.expand first = .ok listed)
    (mem : c.name ∈ listed.map (·.name)) :
    t.expand (first ++ c :: rest) = t.expand (first ++ rest) := by
  have passed : t.expandOne listed c = .ok listed := if_pos mem
  have past : (c :: rest).foldlM t.expandOne listed = rest.foldlM t.expandOne listed := by
    rw [List.foldlM_cons, passed]
    rfl
  have started : first.foldlM t.expandOne [] = .ok listed := ok
  rw [expand, expand, List.foldlM_append, List.foldlM_append, started]
  exact past

theorem exists_expand_of_append (ok : t.expand (first ++ rest) = .ok listed) :
    ∃ early, t.expand first = .ok early := by
  rw [expand, List.foldlM_append] at ok
  cases started : first.foldlM t.expandOne [] with
  | ok early => exact ⟨early, started⟩
  | error missing =>
      rw [started] at ok
      cases ok

/-- Does the target hold a `master` with artifacts or dependencies? -/
def holdsMaster (t : Component) : Bool :=
  (t.configuration? "master").any fun m => m.hasDependencies || !m.artifacts.isEmpty

end Component

namespace MavenDeclaration

open Component
open Failure (bind_eq_ok_iff map_eq_ok_iff)

variable {r : Requester} {t : Component} {names : List String}
  {selected listed : List Configuration}

/-! ## What is asked for -/

/-- The names that a POM asks for from a source configuration, in order. -/
def asked (source : String) (t : Component) : List String :=
  (if source = "compile" then ["compile"] else ["runtime", "compile"]) ++
    if t.holdsMaster then ["master"] else []

theorem found_master : t.Found (if t.holdsMaster then ["master"] else []) (master t) := by
  rw [Found, master, holdsMaster]
  cases held : t.configuration? "master" with
  | none => rfl
  | some m =>
      by_cases full : (m.hasDependencies || !m.artifacts.isEmpty) = true <;>
        simp [Option.filter, full, held]

/-- The `master` comes after what is found under the other names. -/
theorem exists_found_append_master_iff :
    (∃ chosen, t.Found (names ++ if t.holdsMaster then ["master"] else []) chosen ∧
        r.expand t chosen = .ok listed) ↔
      ∃ early, t.Found names early ∧ r.expand t (early ++ master t) = .ok listed := by
  constructor
  · rintro ⟨chosen, found, ok⟩
    obtain ⟨early, late, rfl, foundEarly, foundLate⟩ := found_append_iff.1 found
    cases foundLate.unique found_master
    exact ⟨early, foundEarly, ok⟩
  · rintro ⟨early, found, ok⟩
    exact ⟨early ++ master t, found_append_iff.2 ⟨early, master t, rfl, found, found_master⟩, ok⟩

/-! ## With and without the look at `runtime` -/

/-- With the look: `compile` is left out where `runtime` reaches it. -/
theorem runtimeAndCompile_eq_ok_iff :
    runtimeAndCompile r t = .ok selected ↔
      ∃ runtime, t.configuration? "runtime" = some runtime ∧
        ∃ reached, t.expand [runtime] = .ok reached ∧
          if "compile" ∈ reached.map (·.name) then selected = [runtime]
          else ∃ compile, t.configuration? "compile" = some compile ∧
            selected = [runtime, compile] := by
  simp only [runtimeAndCompile, bind_eq_ok_iff, Requester.find_eq_ok_iff,
    Requester.expand_eq_ok_iff]
  refine exists_congr fun runtime => and_congr_right fun _ => exists_congr fun reached =>
    and_congr_right fun _ => ?_
  by_cases mem : "compile" ∈ reached.map (·.name)
  · rw [if_pos mem, if_pos (Configuration.any_name_iff.2 mem), Except.ok.injEq, eq_comm]
  · rw [if_neg mem, if_neg (mt Configuration.any_name_iff.1 mem), bind_eq_ok_iff]
    simp only [Requester.find_eq_ok_iff, Except.ok.injEq, @eq_comm _ _ selected]

theorem selectByName_of_compile (named : r.configuration.name = "compile") :
    selectByName r t = .ok listed ↔
      ∃ early, t.Found ["compile"] early ∧ r.expand t (early ++ master t) = .ok listed := by
  have alone : ∀ selected, chosen r t = .ok selected ↔ t.Found ["compile"] selected := by
    intro selected
    rw [chosen, if_pos (by simpa using named), map_eq_ok_iff, found_singleton_iff]
    simp only [Requester.find_eq_ok_iff, @eq_comm _ _ selected]
  rw [selectByName_eq, bind_eq_ok_iff]
  simp only [alone]

/-- Without the look: `runtime` and `compile`, whatever extends what. -/
theorem selectByName_of_not_compile (elsewhere : r.configuration.name ≠ "compile") :
    selectByName r t = .ok listed ↔
      ∃ early, t.Found ["runtime", "compile"] early ∧
        r.expand t (early ++ master t) = .ok listed := by
  have both : chosen r t = runtimeAndCompile r t := by
    rw [chosen, if_neg (by simpa using elsewhere)]
  rw [selectByName_eq, both, bind_eq_ok_iff]
  simp only [Requester.expand_eq_ok_iff]
  constructor
  · rintro ⟨selected, chose, ok⟩
    obtain ⟨runtime, heldRuntime, reached, walked, rest⟩ := runtimeAndCompile_eq_ok_iff.1 chose
    by_cases mem : "compile" ∈ reached.map (·.name)
    · rw [if_pos mem] at rest
      subst rest
      obtain ⟨compile, inReached, named⟩ := List.mem_map.1 mem
      have heldCompile : t.configuration? compile.name = some compile :=
        (listing_of_expand_eq_ok (found_singleton_iff.2 ⟨runtime, heldRuntime, rfl⟩).holds
          walked).held compile inReached
      refine ⟨[runtime, compile], found_pair_iff.2 ⟨runtime, heldRuntime, compile, ?_, rfl⟩, ?_⟩
      · rw [← named, heldCompile]
      · exact (expand_past_listed walked (named ▸ mem)).trans ok
    · rw [if_neg mem] at rest
      obtain ⟨compile, heldCompile, rfl⟩ := rest
      exact ⟨_, found_pair_iff.2 ⟨runtime, heldRuntime, compile, heldCompile, rfl⟩, ok⟩
  · rintro ⟨early, found, ok⟩
    obtain ⟨runtime, heldRuntime, compile, heldCompile, rfl⟩ := found_pair_iff.1 found
    have okAppend : t.expand ([runtime] ++ compile :: master t) = .ok listed := ok
    obtain ⟨reached, walked⟩ := exists_expand_of_append okAppend
    by_cases mem : "compile" ∈ reached.map (·.name)
    · have named : compile.name = "compile" := name_of_configuration? heldCompile
      refine ⟨[runtime], runtimeAndCompile_eq_ok_iff.2 ⟨runtime, heldRuntime, reached, walked, ?_⟩,
        ?_⟩
      · rw [if_pos mem]
      · exact (expand_past_listed walked (named ▸ mem)).symm.trans ok
    · refine ⟨[runtime, compile],
        runtimeAndCompile_eq_ok_iff.2 ⟨runtime, heldRuntime, reached, walked, ?_⟩, ok⟩
      rw [if_neg mem]
      exact ⟨compile, heldCompile, rfl⟩

theorem selectByName_eq_ok_iff :
    selectByName r t = .ok listed ↔
      ∃ chosen, t.Found (asked r.configuration.name t) chosen ∧ r.expand t chosen = .ok listed := by
  rw [asked]
  by_cases named : r.configuration.name = "compile"
  · rw [if_pos named, exists_found_append_master_iff, selectByName_of_compile named]
  · rw [if_neg named, exists_found_append_master_iff, selectByName_of_not_compile named]

/-- **Selecting from a POM is the plain rule.**  It succeeds exactly when the target holds what is
asked for and whatever that reaches, and then lists the expansion of it. -/
theorem selectByName_without_shortcut (r : Requester) (t : Component) :
    ((∃ listed, selectByName r t = .ok listed) ↔
      ∀ name ∈ asked r.configuration.name t, t.Unbroken name) ∧
    (∀ listed, selectByName r t = .ok listed ↔
      ∃ chosen, t.Found (asked r.configuration.name t) chosen ∧
        r.expand t chosen = .ok listed) ∧
    (∀ listed, selectByName r t = .ok listed → listed ≠ [] ∧ (listed.map (·.name)).Nodup) := by
  refine ⟨?_, fun listed => selectByName_eq_ok_iff, ?_⟩
  · simp only [selectByName_eq_ok_iff, Requester.expand_eq_ok_iff]
    exact exists_found_expand_iff
  · intro listed ok
    exact ⟨selectByName_ne_nil ok, (listing_of_selectByName ok).distinct⟩

namespace Example

open Requester.Example

def docs : Requester := ⟨app.component, Configuration.named "docs"⟩

def fullMaster : Configuration := (extending "master" ["compile"]).withDependencies true

/-- `runtime` reaches `compile` inside a cycle. -/
def ring : Component :=
  target [extending "runtime" ["default"], extending "default" ["runtime", "compile"],
    extending "compile" ["default"], fullMaster]

/-- Nothing but `compile`, and a `master` without content. -/
def sparse : Component := target [extending "compile" [], extending "master" []]

end Example

open Example Requester.Example in
theorem selectByName_without_shortcut_ring :
    selectByName docs ring =
      .ok [extending "compile" ["default"], extending "default" ["runtime", "compile"],
        extending "runtime" ["default"], fullMaster] ∧
    selectByName app sparse = .ok [extending "compile" []] ∧
    ¬ ∃ listed, selectByName docs sparse = .ok listed := by
  refine ⟨?_, ?_, ?_⟩
  · exact ((selectByName_without_shortcut docs ring).2.1 _).2
      ⟨[extending "runtime" ["default"], extending "compile" ["default"], fullMaster], by cbv,
        Requester.expand_eq_ok_iff.2 (by cbv)⟩
  · exact ((selectByName_without_shortcut app sparse).2.1 _).2
      ⟨[extending "compile" []], by cbv, Requester.expand_eq_ok_iff.2 (by cbv)⟩
  · intro succeeds
    have unbroken := (selectByName_without_shortcut docs sparse).1.1 succeeds
    obtain ⟨c, found⟩ := unbroken "runtime" (by decide) "runtime" (.refl _)
    have absent : sparse.configuration? "runtime" = none := by cbv
    exact absurd (found.symm.trans absent) (by simp)

end MavenDeclaration
end EdgeResolution
