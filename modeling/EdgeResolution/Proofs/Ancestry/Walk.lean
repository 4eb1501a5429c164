/-
# EdgeResolution.Proofs.Ancestry.Walk -- the walk over extensions, run by run

`Component.Walked` is the walk as a relation: one rule for each thing the walk can
do with the next name.  `walk_eq_ok_iff` says that it is the graph of `walk`, so
what holds of every listing is proved by induction on `Walked`, and the function
is opened here only.

* `Walked.appends`, `Walked.mem_of_mem`: the walk only adds to what is listed, at the end;
* `Walked.covers`: it leaves no name of its list aside;
* `Walked.reached`: it lists nothing that is not reached from these names;
* `missing_of_walk_eq_error`: what it fails at is reached from them, and not held.
-/
import EdgeResolution.Requester
import Mathlib.Logic.Relation

namespace EdgeResolution.Component

set_option autoImplicit false

/-! ## Extension -/

/-- The configuration that the target holds as `child` declares that it extends `parent`. -/
def Extends (t : Component) (child parent : String) : Prop :=
  ∃ c, t.configuration? child = some c ∧ parent ∈ c.parents

/-- `ancestor` is `name` itself, or is reached from it through declared parents. -/
def Reaches (t : Component) (name ancestor : String) : Prop :=
  Relation.ReflTransGen t.Extends name ancestor

variable {t : Component} {opened todo rest more : List String} {name missing : String}
  {c : Configuration} {done ancestors listed : List Configuration}

theorem Reaches.refl (name : String) : t.Reaches name name := Relation.ReflTransGen.refl

theorem Reaches.of_parent (held : t.configuration? name = some c) {parent ancestor : String}
    (declared : parent ∈ c.parents) (reached : t.Reaches parent ancestor) :
    t.Reaches name ancestor :=
  Relation.ReflTransGen.head ⟨c, held, declared⟩ reached

/-! ## The walk as a relation -/

/-- Nothing is to be done for a name that is open or listed. -/
def Known (opened : List String) (done : List Configuration) (name : String) : Prop :=
  name ∈ opened ∨ name ∈ done.map (·.name)

/-- A walk over `todo` that ends: it has listed `done` before, and `listed` afterwards. -/
inductive Walked (t : Component) :
    List String → List String → List Configuration → List Configuration → Prop
  | finish {opened : List String} {done : List Configuration} : Walked t opened [] done done
  | pass {opened rest : List String} {name : String} {c : Configuration}
      {done listed : List Configuration} (known : Known opened done name)
      (held : t.configuration? name = some c) (after : Walked t opened rest done listed) :
      Walked t opened (name :: rest) done listed
  | enter {opened rest : List String} {name : String} {c : Configuration}
      {done ancestors listed : List Configuration}
      (fresh : ¬ Known opened done name) (held : t.configuration? name = some c)
      (inside : Walked t (name :: opened) c.parents done ancestors)
      (after : Walked t opened rest (ancestors ++ [c]) listed) :
      Walked t opened (name :: rest) done listed

theorem walk_absent (absent : t.configuration? name = none) :
    t.walk opened (name :: rest) done = .error name := by
  rw [walk]
  split
  · rfl
  · next d found => exact absurd (absent.symm.trans found) (by simp)

theorem walk_pass (known : Known opened done name) (held : t.configuration? name = some c) :
    t.walk opened (name :: rest) done = t.walk opened rest done := by
  rw [walk]
  split
  · next absent => exact absurd (held.symm.trans absent) (by simp)
  · exact dif_pos known

theorem walk_enter (fresh : ¬ Known opened done name) (held : t.configuration? name = some c) :
    t.walk opened (name :: rest) done =
      (t.walk (name :: opened) c.parents done).bind fun ancestors =>
        t.walk opened rest (ancestors ++ [c]) := by
  rw [walk]
  split
  · next absent => exact absurd (held.symm.trans absent) (by simp)
  · next d found =>
      cases held.symm.trans found
      exact dif_neg fresh

/-- To walk two lists is to walk the second one on top of what the first one has listed. -/
theorem walk_append :
    t.walk opened (todo ++ more) done =
      (t.walk opened todo done).bind fun listed => t.walk opened more listed := by
  fun_induction walk t opened todo done with
  | case1 => rfl
  | case2 opened done name rest absent => exact walk_absent absent
  | case3 opened done name rest c held known ih =>
      rw [List.cons_append, walk_pass known held, ih]
  | case4 opened done name rest c held fresh _ _ ihAfter =>
      rw [List.cons_append, walk_enter fresh held]
      cases inside : t.walk (name :: opened) c.parents done with
      | error missing => rfl
      | ok ancestors => exact ihAfter ancestors

theorem walk_eq_ok_iff :
    t.walk opened todo done = .ok listed ↔ Walked t opened todo done listed := by
  constructor
  · intro run
    fun_induction walk t opened todo done generalizing listed with
    | case1 opened done =>
        cases run
        exact .finish
    | case2 => cases run
    | case3 opened done name rest c held known ih => exact .pass known held (ih run)
    | case4 opened done name rest c held fresh _ ihInside ihAfter =>
        cases inside : t.walk (name :: opened) c.parents done with
        | error missing =>
            rw [inside] at run
            cases run
        | ok ancestors =>
            rw [inside] at run
            exact .enter fresh held (ihInside inside) (ihAfter ancestors run)
  · intro run
    induction run with
    | finish => rw [walk]
    | pass known held _ ih => rw [walk_pass known held, ih]
    | enter fresh held _ _ ihInside ihAfter =>
        rw [walk_enter fresh held, ihInside]
        exact ihAfter

/-- A walk that fails names something that is reached from its names and is not held. -/
theorem missing_of_walk_eq_error (run : t.walk opened todo done = .error missing) :
    ∃ name ∈ todo, t.Reaches name missing ∧ t.configuration? missing = none := by
  fun_induction walk t opened todo done with
  | case1 => cases run
  | case2 opened done name rest absent =>
      cases run
      exact ⟨missing, List.mem_cons_self, .refl missing, absent⟩
  | case3 opened done name rest c held known ih =>
      obtain ⟨start, mem, reached, absent⟩ := ih run
      exact ⟨start, List.mem_cons_of_mem _ mem, reached, absent⟩
  | case4 opened done name rest c held fresh _ ihInside ihAfter =>
      cases inside : t.walk (name :: opened) c.parents done with
      | error lost =>
          rw [inside] at run
          cases run
          obtain ⟨parent, declared, reached, absent⟩ := ihInside inside
          exact ⟨name, List.mem_cons_self, .of_parent held declared reached, absent⟩
      | ok ancestors =>
          rw [inside] at run
          obtain ⟨start, mem, reached, absent⟩ := ihAfter ancestors run
          exact ⟨start, List.mem_cons_of_mem _ mem, reached, absent⟩

namespace Walked

/-- What is listed stays where it is; the rest comes after it. -/
theorem appends (run : Walked t opened todo done listed) : ∃ more, listed = done ++ more := by
  induction run with
  | finish => exact ⟨[], (List.append_nil _).symm⟩
  | pass _ _ _ ih => exact ih
  | @enter _ _ _ c _ _ _ _ _ _ _ ihInside ihAfter =>
      obtain ⟨above, rfl⟩ := ihInside
      obtain ⟨more, rfl⟩ := ihAfter
      exact ⟨above ++ c :: more, by simp⟩

/-- Nothing that is listed is ever taken back. -/
theorem mem_of_mem (run : Walked t opened todo done listed) {d : Configuration} (mem : d ∈ done) :
    d ∈ listed := by
  induction run with
  | finish => exact mem
  | pass _ _ _ ih => exact ih mem
  | enter _ _ _ _ ihInside ihAfter => exact ihAfter (List.mem_append_left _ (ihInside mem))

theorem name_mem_of_mem (run : Walked t opened todo done listed) {n : String}
    (mem : n ∈ done.map (·.name)) : n ∈ listed.map (·.name) := by
  obtain ⟨d, inDone, rfl⟩ := List.mem_map.1 mem
  exact List.mem_map_of_mem (run.mem_of_mem inDone)

/-- Every name that was to be walked is open or listed in the end. -/
theorem covers (run : Walked t opened todo done listed) {n : String} (mem : n ∈ todo) :
    Known opened listed n := by
  induction run with
  | finish => cases mem
  | pass known _ after ih =>
      rcases List.mem_cons.1 mem with rfl | mem
      · exact known.imp_right after.name_mem_of_mem
      · exact ih mem
  | @enter opened rest name c done ancestors listed fresh held inside after _ ihAfter =>
      rcases List.mem_cons.1 mem with rfl | mem
      · refine Or.inr (after.name_mem_of_mem ?_)
        simp [name_of_configuration? held]
      · exact ihAfter mem

/-- What the walk adds is reached from the names it was given. -/
theorem reached (run : Walked t opened todo done listed) {d : Configuration} (mem : d ∈ listed) :
    d ∈ done ∨ ∃ n ∈ todo, t.Reaches n d.name := by
  induction run with
  | finish => exact Or.inl mem
  | pass _ _ _ ih =>
      rcases ih mem with old | ⟨n, inRest, reached⟩
      · exact Or.inl old
      · exact Or.inr ⟨n, List.mem_cons_of_mem _ inRest, reached⟩
  | @enter opened rest name c done ancestors listed fresh held inside after ihInside ihAfter =>
      rcases ihAfter mem with inMiddle | ⟨n, inRest, reached⟩
      · rcases List.mem_append.1 inMiddle with inAncestors | last
        · rcases ihInside inAncestors with old | ⟨parent, declared, reached⟩
          · exact Or.inl old
          · exact Or.inr ⟨name, List.mem_cons_self, .of_parent held declared reached⟩
        · cases List.mem_singleton.1 last
          refine Or.inr ⟨name, List.mem_cons_self, ?_⟩
          rw [name_of_configuration? held]
          exact .refl name
      · exact Or.inr ⟨n, List.mem_cons_of_mem _ inRest, reached⟩

end Walked

end EdgeResolution.Component
