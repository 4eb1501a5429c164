/-
# EdgeResolution.Proofs.Ancestry.Expansion -- what an expansion answers

An expansion is the ancestor closure of the selected configurations, in
topological order:

* `Requester.expand_ancestor_closure`: it fails exactly when something that is
  reached declares a parent the target does not have, and names such a parent;
  else it lists exactly what is reached, each name once;
* `Requester.expand_topological`: a parent comes before its child unless the two
  are on a cycle, so without cycles everything comes after all of its ancestors.

The target is any component, with cycles, shared ancestors and absent parents.
-/
import EdgeResolution.Proofs.Ancestry.Listing

namespace EdgeResolution

set_option autoImplicit false

namespace Component

variable {t : Component} {selected listed : List Configuration} {d : Configuration}

/-- The target holds `d`, and `d` is reached from a selected configuration, or is one. -/
def ReachedFrom (t : Component) (selected : List Configuration) (d : Configuration) : Prop :=
  t.configuration? d.name = some d ∧ ∃ c ∈ selected, t.Reaches c.name d.name

/-- A name is on a cycle when it is reached from one of its own parents. -/
def OnCycle (t : Component) (name : String) : Prop := Relation.TransGen t.Extends name name

/-- The target holds these configurations under their names. -/
def Holds (t : Component) (cs : List Configuration) : Prop :=
  ∀ c ∈ cs, t.configuration? c.name = some c

/-! ## Expansions as walks -/

/-- To list a configuration that the target holds is to walk its name. -/
theorem expandOne_eq_walk {c : Configuration} (held : t.configuration? c.name = some c)
    (done : List Configuration) : t.expandOne done c = t.walk [] [c.name] done := by
  rw [expandOne]
  by_cases listedName : c.name ∈ done.map (·.name)
  · rw [if_pos listedName, walk_pass (Or.inr listedName) held, walk]
  · have fresh : ¬ Known [] done c.name := by simpa [Known] using listedName
    rw [if_neg listedName, walk_enter fresh held]
    cases t.walk [c.name] c.parents done with
    | error missing => rfl
    | ok ancestors =>
        show Except.ok (ancestors ++ [c]) = t.walk [] [] (ancestors ++ [c])
        rw [walk]

theorem foldlM_expandOne_eq_walk (held : t.Holds selected) (done : List Configuration) :
    selected.foldlM t.expandOne done = t.walk [] (selected.map (·.name)) done := by
  induction selected generalizing done with
  | nil => rw [List.map_nil, walk]; rfl
  | cons c rest ih =>
      obtain ⟨heldC, heldRest⟩ := List.forall_mem_cons.1 held
      rw [List.foldlM_cons, expandOne_eq_walk heldC]
      calc
        (t.walk [] [c.name] done >>= fun listed => rest.foldlM t.expandOne listed) =
            (t.walk [] [c.name] done).bind fun listed => t.walk [] (rest.map (·.name)) listed :=
          congrArg _ (funext fun listed => ih heldRest listed)
        _ = t.walk [] ([c.name] ++ rest.map (·.name)) done := walk_append.symm

theorem expand_eq_walk (held : t.Holds selected) :
    t.expand selected = t.walk [] (selected.map (·.name)) [] :=
  foldlM_expandOne_eq_walk held []

/-! ## Successful expansions -/

theorem walked_of_expand_eq_ok (held : t.Holds selected) (ok : t.expand selected = .ok listed) :
    Walked t [] (selected.map (·.name)) [] listed :=
  walk_eq_ok_iff.1 ((expand_eq_walk held).symm.trans ok)

theorem listing_of_expand_eq_ok (held : t.Holds selected) (ok : t.expand selected = .ok listed) :
    t.Listing [] listed :=
  (walked_of_expand_eq_ok held ok).listing (by simp) .empty

theorem name_mem_of_reaches (held : t.Holds selected) (ok : t.expand selected = .ok listed)
    {c : Configuration} (mem : c ∈ selected) {ancestor : String}
    (reached : t.Reaches c.name ancestor) : ancestor ∈ listed.map (·.name) := by
  have known : Known [] listed c.name :=
    (walked_of_expand_eq_ok held ok).covers (List.mem_map_of_mem mem)
  exact (listing_of_expand_eq_ok held ok).mem_of_reaches reached
    (known.resolve_left List.not_mem_nil)

theorem mem_expand_iff (held : t.Holds selected) (ok : t.expand selected = .ok listed) :
    d ∈ listed ↔ t.ReachedFrom selected d := by
  have state : t.Listing [] listed := listing_of_expand_eq_ok held ok
  constructor
  · intro mem
    rcases (walked_of_expand_eq_ok held ok).reached mem with old | ⟨n, inNames, reached⟩
    · cases old
    · obtain ⟨c, inSelected, rfl⟩ := List.mem_map.1 inNames
      exact ⟨state.held d mem, c, inSelected, reached⟩
  · rintro ⟨heldD, c, inSelected, reached⟩
    exact state.mem_of_name_mem heldD (name_mem_of_reaches held ok inSelected reached)

theorem mem_name_expand_iff (held : t.Holds selected) (ok : t.expand selected = .ok listed)
    {name : String} : name ∈ listed.map (·.name) ↔ ∃ c ∈ selected, t.Reaches c.name name := by
  constructor
  · intro mem
    obtain ⟨d, inListed, rfl⟩ := List.mem_map.1 mem
    exact ((mem_expand_iff held ok).1 inListed).2
  · rintro ⟨c, inSelected, reached⟩
    exact name_mem_of_reaches held ok inSelected reached

/-- After a successful expansion the target holds whatever is reached. -/
theorem held_of_reaches (held : t.Holds selected) (ok : t.expand selected = .ok listed)
    {c : Configuration} (mem : c ∈ selected) {ancestor : String}
    (reached : t.Reaches c.name ancestor) : t.configuration? ancestor ≠ none := by
  obtain ⟨d, inListed, rfl⟩ := List.mem_map.1 (name_mem_of_reaches held ok mem reached)
  rw [(listing_of_expand_eq_ok held ok).held d inListed]
  simp

/-! ## Failed expansions -/

/-- From held configurations an absent name is reached through the parents of a held one. -/
theorem exists_declaring_of_reaches_absent {c : Configuration} {missing : String}
    (held : t.configuration? c.name = some c) (mem : c ∈ selected)
    (reached : t.Reaches c.name missing) (absent : t.configuration? missing = none) :
    ∃ d, t.ReachedFrom selected d ∧ missing ∈ d.parents := by
  rcases Relation.ReflTransGen.cases_tail reached with
    rfl | ⟨child, reachedChild, d, found, declared⟩
  · rw [held] at absent
    cases absent
  · cases name_of_configuration? found
    exact ⟨d, ⟨found, c, mem, reachedChild⟩, declared⟩

theorem missing_of_expand_eq_error (held : t.Holds selected) {missing : String}
    (failed : t.expand selected = .error missing) :
    t.configuration? missing = none ∧ ∃ d, t.ReachedFrom selected d ∧ missing ∈ d.parents := by
  rw [expand_eq_walk held] at failed
  obtain ⟨n, inNames, reached, absent⟩ := missing_of_walk_eq_error failed
  obtain ⟨c, mem, rfl⟩ := List.mem_map.1 inNames
  exact ⟨absent, exists_declaring_of_reaches_absent (held c mem) mem reached absent⟩

/-- The target holds `name` and whatever is reached from it. -/
def Unbroken (t : Component) (name : String) : Prop :=
  ∀ ancestor, t.Reaches name ancestor → ∃ c, t.configuration? ancestor = some c

theorem exists_expand_iff (held : t.Holds selected) :
    (∃ listed, t.expand selected = .ok listed) ↔ ∀ c ∈ selected, t.Unbroken c.name := by
  constructor
  · rintro ⟨listed, ok⟩ c mem ancestor reached
    exact Option.ne_none_iff_exists'.1 (held_of_reaches held ok mem reached)
  · intro unbroken
    cases outcome : t.expand selected with
    | ok listed => exact ⟨listed, rfl⟩
    | error missing =>
        obtain ⟨absent, d, ⟨heldD, c, mem, reached⟩, declared⟩ :=
          missing_of_expand_eq_error held outcome
        obtain ⟨e, found⟩ := unbroken c mem missing (reached.tail ⟨d, heldD, declared⟩)
        exact absurd (found.symm.trans absent) (by simp)

/-! ## Order without cycles -/

/-- A rank that is lower at every parent leaves no room for a cycle. -/
theorem not_onCycle_of_rank (rank : String → Nat)
    (lower : ∀ child parent, t.Extends child parent → rank parent < rank child) (name : String) :
    ¬ t.OnCycle name := by
  have descends : ∀ ancestor, Relation.TransGen t.Extends name ancestor →
      rank ancestor < rank name := by
    intro ancestor above
    induction above with
    | single step => exact lower _ _ step
    | tail _ step ih => exact Nat.lt_trans (lower _ _ step) ih
  exact fun cycle => Nat.lt_irrefl _ (descends name cycle)

/-- Where all parents come before their children, all proper ancestors do. -/
theorem mem_before_of_parents_before
    (parentBefore : ∀ before c after, listed = before ++ c :: after →
      ∀ parent, t.Extends c.name parent → parent ∈ before.map (·.name))
    {name ancestor : String} (above : Relation.TransGen t.Extends name ancestor) :
    ∀ before c after, listed = before ++ c :: after → c.name = name →
      ancestor ∈ before.map (·.name) := by
  -- the induction goes up from the child: its parent is before it, and the rest before that parent
  induction above using Relation.TransGen.head_induction_on with
  | single step =>
      intro before c after split named
      exact parentBefore before c after split _ (named ▸ step)
  | head step _ ih =>
      intro before c after split named
      obtain ⟨d, inBefore, nameD⟩ :=
        List.mem_map.1 (parentBefore before c after split _ (named ▸ step))
      obtain ⟨front, back, rfl⟩ := List.append_of_mem inBefore
      have higher := ih front d (back ++ c :: after) (by rw [split]; simp) nameD
      rw [List.map_append]
      exact List.mem_append_left _ higher

/-- Where nothing that is reached is on a cycle, all proper ancestors come first. -/
theorem mem_before_of_transGen (held : t.Holds selected) (ok : t.expand selected = .ok listed)
    (acyclic : ∀ c ∈ selected, ∀ name, t.Reaches c.name name → ¬ t.OnCycle name)
    {name ancestor : String} (above : Relation.TransGen t.Extends name ancestor) :
    ∀ before c after, listed = before ++ c :: after → c.name = name →
      ancestor ∈ before.map (·.name) := by
  refine mem_before_of_parents_before ?_ above
  intro before c after split parent step
  have mem : c ∈ listed := by rw [split]; simp
  obtain ⟨heldC, s, inSelected, reached⟩ := (mem_expand_iff held ok).1 mem
  obtain ⟨d, found, declared⟩ := step
  cases heldC.symm.trans found
  rcases (listing_of_expand_eq_ok held ok).parentsFirst before c after split parent declared with
    first | cycle
  · exact first
  · exact absurd (Relation.TransGen.head' ⟨c, heldC, declared⟩ cycle)
      (acyclic s inSelected c.name reached)

end Component

namespace Requester

open Component

variable {r : Requester} {t : Component} {selected listed : List Configuration} {f : Failure}

theorem expand_eq_ok_iff : r.expand t selected = .ok listed ↔ t.expand selected = .ok listed := by
  rw [expand]
  cases t.expand selected with
  | error name => constructor <;> intro impossible <;> cases impossible
  | ok found =>
      constructor
      · intro same
        cases same
        rfl
      · intro same
        cases same
        rfl

theorem expand_eq_error_iff :
    r.expand t selected = .error f ↔
      ∃ name, t.expand selected = .error name ∧ f = r.missing t name := by
  rw [expand]
  cases t.expand selected with
  | error absent =>
      constructor
      · intro same
        cases same
        exact ⟨absent, rfl, rfl⟩
      · rintro ⟨name, same, rfl⟩
        cases same
        rfl
  | ok found =>
      constructor
      · intro impossible
        cases impossible
      · rintro ⟨name, impossible, -⟩
        cases impossible

/-- **An expansion is the ancestor closure.**  It fails exactly when a configuration that is
reached declares a parent the target does not have, and the failure names such a parent. -/
theorem expand_ancestor_closure (r : Requester) {t : Component} {selected : List Configuration}
    (held : ∀ c ∈ selected, t.configuration? c.name = some c) :
    ((∃ f, r.expand t selected = .error f) ↔
      ∃ d, t.ReachedFrom selected d ∧ ∃ parent ∈ d.parents, t.configuration? parent = none) ∧
    (∀ f, r.expand t selected = .error f →
      ∃ d, t.ReachedFrom selected d ∧ ∃ parent ∈ d.parents, t.configuration? parent = none ∧
        f = .configurationNotFound r.component.text r.configuration.name t.id.text parent) ∧
    (∀ listed, r.expand t selected = .ok listed →
      (∀ d, d ∈ listed ↔ t.ReachedFrom selected d) ∧
      (∀ d ∈ listed, t.configuration? d.name = some d) ∧
      (listed.map (·.name)).Nodup) := by
  have named : ∀ f, r.expand t selected = .error f →
      ∃ d, t.ReachedFrom selected d ∧ ∃ parent ∈ d.parents, t.configuration? parent = none ∧
        f = .configurationNotFound r.component.text r.configuration.name t.id.text parent := by
    intro f failed
    obtain ⟨name, stopped, rfl⟩ := expand_eq_error_iff.1 failed
    obtain ⟨absent, d, reached, declared⟩ := missing_of_expand_eq_error held stopped
    exact ⟨d, reached, name, declared, absent, rfl⟩
  refine ⟨⟨?_, ?_⟩, named, ?_⟩
  · rintro ⟨f, failed⟩
    obtain ⟨d, reached, parent, declared, absent, -⟩ := named f failed
    exact ⟨d, reached, parent, declared, absent⟩
  · rintro ⟨d, ⟨heldD, c, inSelected, reached⟩, parent, declared, absent⟩
    cases outcome : r.expand t selected with
    | error f => exact ⟨f, rfl⟩
    | ok listed =>
        have reachedParent : t.Reaches c.name parent := reached.tail ⟨d, heldD, declared⟩
        exact absurd absent
          (held_of_reaches held (expand_eq_ok_iff.1 outcome) inSelected reachedParent)
  · intro listed ok
    have expanded := expand_eq_ok_iff.1 ok
    have state := listing_of_expand_eq_ok held expanded
    exact ⟨fun d => mem_expand_iff held expanded, state.held, state.distinct⟩

/-- **An expansion is in topological order.** -/
theorem expand_topological (r : Requester) {t : Component} {selected listed : List Configuration}
    (held : ∀ c ∈ selected, t.configuration? c.name = some c)
    (ok : r.expand t selected = .ok listed) :
    (∀ before c after, listed = before ++ c :: after →
      ∀ parent ∈ c.parents, parent ∈ before.map (·.name) ∨ t.Reaches parent c.name) ∧
    ((∀ c ∈ selected, ∀ name, t.Reaches c.name name → ¬ t.OnCycle name) →
      ∀ before c after, listed = before ++ c :: after →
        ∀ ancestor, Relation.TransGen t.Extends c.name ancestor →
          ancestor ∈ before.map (·.name)) := by
  have expanded := expand_eq_ok_iff.1 ok
  refine ⟨(listing_of_expand_eq_ok held expanded).parentsFirst, ?_⟩
  intro acyclic before c after split ancestor above
  exact mem_before_of_transGen held expanded acyclic above before c after split rfl

/-! ## Poles -/

namespace Example

def extending (name : String) (parents : List String) : Configuration :=
  (Configuration.named name).extend parents

def target (cs : List Configuration) : Component :=
  Component.ofEntries (.module ⟨"org.example", "lib", "1.0"⟩) .external (cs.map .configuration)

def app : Requester := ⟨⟨"com.example", "app", "1.0"⟩, Configuration.named "compile"⟩

/-- `a` and `b` extend each other, and share the ancestor `d` with `c`. -/
def knot : Component :=
  target [extending "a" ["b", "c"], extending "b" ["a", "d"], extending "c" ["d"], extending "d" []]

/-- The ancestor that `a` reaches round the cycle is absent. -/
def broken : Component := target [extending "a" ["b"], extending "b" ["a", "d"]]

/-- No cycle, and the nearest parent is declared last. -/
def ladder : Component :=
  target [extending "compile" [], extending "runtime" ["compile"],
    extending "default" ["compile", "runtime"]]

end Example

open Example in
theorem expand_ancestor_closure_knot :
    (∀ d, d ∈ [extending "d" [], extending "b" ["a", "d"], extending "c" ["d"],
        extending "a" ["b", "c"]] ↔ knot.ReachedFrom [extending "a" ["b", "c"]] d) ∧
    ∃ d, broken.ReachedFrom [extending "a" ["b"]] d ∧
      ∃ parent ∈ d.parents, broken.configuration? parent = none := by
  have heldKnot : ∀ c ∈ [extending "a" ["b", "c"]], knot.configuration? c.name = some c := by
    intro c mem
    cases List.mem_singleton.1 mem
    cbv
  have heldBroken : ∀ c ∈ [extending "a" ["b"]], broken.configuration? c.name = some c := by
    intro c mem
    cases List.mem_singleton.1 mem
    cbv
  have listed : app.expand knot [extending "a" ["b", "c"]] =
      .ok [extending "d" [], extending "b" ["a", "d"], extending "c" ["d"],
        extending "a" ["b", "c"]] := expand_eq_ok_iff.2 (by cbv)
  have failed : app.expand broken [extending "a" ["b"]] =
      .error (.configurationNotFound "com.example:app:1.0" "compile" "org.example:lib:1.0" "d") :=
    expand_eq_error_iff.2 ⟨"d", by cbv, by cbv⟩
  exact ⟨((expand_ancestor_closure app heldKnot).2.2 _ listed).1,
    (expand_ancestor_closure app heldBroken).1.1 ⟨_, failed⟩⟩

open Example in
theorem expand_topological_ladder :
    app.expand ladder [extending "default" ["compile", "runtime"]] =
      .ok [extending "compile" [], extending "runtime" ["compile"],
        extending "default" ["compile", "runtime"]] ∧
    ∀ ancestor, Relation.TransGen ladder.Extends "runtime" ancestor →
      ancestor ∈ ["compile"] := by
  have listed : app.expand ladder [extending "default" ["compile", "runtime"]] =
      .ok [extending "compile" [], extending "runtime" ["compile"],
        extending "default" ["compile", "runtime"]] := expand_eq_ok_iff.2 (by cbv)
  have entries : ladder.configurations.entries =
      [("compile", extending "compile" []),
        ("default", extending "default" ["compile", "runtime"]),
        ("runtime", extending "runtime" ["compile"])] := by cbv
  let rank (name : String) : Nat :=
    if name = "default" then 2 else if name = "runtime" then 1 else 0
  have lower : ∀ child parent, ladder.Extends child parent → rank parent < rank child := by
    rintro child parent ⟨c, found, declared⟩
    have mem := NameMap.Entries.mem_of_get? found
    rw [entries] at mem
    simp only [List.mem_cons, Prod.mk.injEq, List.not_mem_nil, or_false] at mem
    rcases mem with ⟨rfl, rfl⟩ | ⟨rfl, rfl⟩ | ⟨rfl, rfl⟩
    · cases declared
    · have parents : (extending "default" ["compile", "runtime"]).parents =
          ["compile", "runtime"] := by cbv
      rw [parents, List.mem_cons, List.mem_singleton] at declared
      rcases declared with rfl | rfl <;> decide
    · have parents : (extending "runtime" ["compile"]).parents = ["compile"] := by cbv
      rw [parents, List.mem_singleton] at declared
      subst declared
      decide
  have held : ∀ c ∈ [extending "default" ["compile", "runtime"]],
      ladder.configuration? c.name = some c := List.forall_mem_singleton.2 (by cbv)
  refine ⟨listed, ?_⟩
  exact (expand_topological app held listed).2
    (fun _ _ name _ => not_onCycle_of_rank rank lower name)
    [extending "compile" []] (extending "runtime" ["compile"])
    [extending "default" ["compile", "runtime"]] rfl

end Requester
end EdgeResolution
