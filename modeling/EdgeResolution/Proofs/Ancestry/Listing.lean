/-
# EdgeResolution.Proofs.Ancestry.Listing -- the invariant of the walk over extensions

`Component.Listing` is about what is listed while the names `opened` have an open
walk:

* every listed configuration is the one that the target holds, no name is listed
  twice, and no open name is listed (`held`, `distinct`, `apart`);
* the parents of what is listed are listed too, or still open (`closed`);
* a parent is listed before its child, or it reaches the child (`parentsFirst`).

Opening a name keeps it (`Listing.enter`), and so does listing that name once its
parents are done (`Listing.leave`).  The second needs that every open name reaches
the names that are walked: a parent that is still open is on a cycle with its child.
`Walked.listing` is the run of these two steps.
-/
import EdgeResolution.Proofs.Ancestry.Walk

namespace EdgeResolution.Component

set_option autoImplicit false

variable {t : Component} {opened todo : List String} {name : String} {c : Configuration}
  {done listed : List Configuration}

/-! ## Parents before children -/

/-- Each parent of a listed configuration is listed before it, or reaches it in turn. -/
def ParentsFirst (t : Component) (listed : List Configuration) : Prop :=
  ∀ before c after, listed = before ++ c :: after →
    ∀ parent ∈ c.parents, parent ∈ before.map (·.name) ∨ t.Reaches parent c.name

theorem ParentsFirst.nil : t.ParentsFirst [] := by
  intro before c after split
  simp at split

/-- What holds at every place of a list, of what is before it and what stands there, holds with
one more at the end if it holds there too. -/
theorem forall_split_concat {holds : List Configuration → Configuration → Prop}
    (all : ∀ before d after, listed = before ++ d :: after → holds before d)
    (last : holds listed c) :
    ∀ before d after, listed ++ [c] = before ++ d :: after → holds before d := by
  intro before d after split
  rcases List.eq_nil_or_concat after with rfl | ⟨front, e, rfl⟩
  · obtain ⟨rfl, same⟩ := List.append_inj' split rfl
    cases same
    exact last
  · rw [List.concat_eq_append, ← List.cons_append, ← List.append_assoc] at split
    exact all before d front (List.append_inj' split rfl).1

theorem ParentsFirst.concat (first : t.ParentsFirst listed)
    (last : ∀ parent ∈ c.parents, parent ∈ listed.map (·.name) ∨ t.Reaches parent c.name) :
    t.ParentsFirst (listed ++ [c]) :=
  forall_split_concat first last

/-! ## The invariant -/

structure Listing (t : Component) (opened : List String) (listed : List Configuration) : Prop where
  held : ∀ c ∈ listed, t.configuration? c.name = some c
  distinct : (listed.map (·.name)).Nodup
  apart : ∀ name ∈ opened, name ∉ listed.map (·.name)
  closed : ∀ c ∈ listed, ∀ parent ∈ c.parents, Known opened listed parent
  parentsFirst : t.ParentsFirst listed

namespace Listing

theorem empty : t.Listing [] [] where
  held := by simp
  distinct := by simp
  apart := by simp
  closed := by simp
  parentsFirst := .nil

theorem enter (state : t.Listing opened listed) (fresh : ¬ Known opened listed name) :
    t.Listing (name :: opened) listed where
  held := state.held
  distinct := state.distinct
  apart := by
    intro n mem
    rcases List.mem_cons.1 mem with rfl | mem
    · exact fun inListed => fresh (Or.inr inListed)
    · exact state.apart n mem
  closed := by
    intro c mem parent declared
    exact (state.closed c mem parent declared).imp_left (List.mem_cons_of_mem _)
  parentsFirst := state.parentsFirst

/-- A name that is open together with `name`, or listed before it, is open or listed once
`name` is listed. -/
theorem known_concat {n : String} (named : c.name = name)
    (known : Known (name :: opened) listed n) : Known opened (listed ++ [c]) n := by
  rcases known with stillOpen | inListed
  · rcases List.mem_cons.1 stillOpen with rfl | inOpened
    · exact Or.inr (by simp [named])
    · exact Or.inl inOpened
  · exact Or.inr (by rw [List.map_append]; exact List.mem_append_left _ inListed)

theorem leave (state : t.Listing (name :: opened) listed) (fresh : name ∉ opened)
    (found : t.configuration? name = some c)
    (covered : ∀ parent ∈ c.parents, Known (name :: opened) listed parent)
    (leads : ∀ o ∈ opened, t.Reaches o name) : t.Listing opened (listed ++ [c]) := by
  have named : c.name = name := name_of_configuration? found
  have unlisted : name ∉ listed.map (·.name) := state.apart name List.mem_cons_self
  refine ⟨?_, ?_, ?_, ?_, ?_⟩
  · intro d mem
    rcases List.mem_append.1 mem with old | last
    · exact state.held d old
    · cases List.mem_singleton.1 last
      rw [named, found]
  · rw [List.map_append, List.nodup_append]
    refine ⟨state.distinct, by simp, ?_⟩
    intro n old m last same
    rw [List.map_singleton, List.mem_singleton, named] at last
    exact unlisted (last ▸ same ▸ old)
  · intro n inOpened mem
    rw [List.map_append, List.map_singleton, named, List.mem_append, List.mem_singleton] at mem
    rcases mem with old | rfl
    · exact state.apart n (List.mem_cons_of_mem _ inOpened) old
    · exact fresh inOpened
  · intro d mem parent declared
    rcases List.mem_append.1 mem with old | last
    · exact known_concat named (state.closed d old parent declared)
    · cases List.mem_singleton.1 last
      exact known_concat named (covered parent declared)
  · -- a parent that is not listed yet has an open walk, so `c` was reached from it
    refine state.parentsFirst.concat fun parent declared => ?_
    rcases covered parent declared with stillOpen | inListed
    · refine Or.inr ?_
      rcases List.mem_cons.1 stillOpen with rfl | inOpened
      · rw [named]
        exact .refl _
      · rw [named]
        exact leads parent inOpened
    · exact Or.inl inListed

/-! ## Finished walks -/

/-- With no walk open, whatever is reached from a listed name is listed. -/
theorem mem_of_reaches (state : t.Listing [] listed) {ancestor : String}
    (reached : t.Reaches name ancestor) (mem : name ∈ listed.map (·.name)) :
    ancestor ∈ listed.map (·.name) := by
  induction reached with
  | refl => exact mem
  | tail _ step ih =>
      obtain ⟨c, found, declared⟩ := step
      obtain ⟨d, inListed, rfl⟩ := List.mem_map.1 ih
      cases found.symm.trans (state.held d inListed)
      exact (state.closed c inListed _ declared).resolve_left List.not_mem_nil

/-- A listed name stands for the configuration that the target holds under it. -/
theorem mem_of_name_mem (state : t.Listing opened listed)
    (found : t.configuration? c.name = some c) (mem : c.name ∈ listed.map (·.name)) :
    c ∈ listed := by
  obtain ⟨d, inListed, same⟩ := List.mem_map.1 mem
  have heldD : t.configuration? d.name = some d := state.held d inListed
  rw [same, found] at heldD
  cases heldD
  exact inListed

end Listing

/-! ## Whole walks -/

/-- What one name does to the invariant, over a whole walk. -/
theorem Walked.listing (run : Walked t opened todo done listed)
    (leads : ∀ o ∈ opened, ∀ n ∈ todo, t.Reaches o n) (state : t.Listing opened done) :
    t.Listing opened listed := by
  induction run with
  | finish => exact state
  | pass _ _ _ ih =>
      exact ih (fun o inOpened n mem => leads o inOpened n (List.mem_cons_of_mem _ mem)) state
  | @enter opened rest name c done ancestors listed fresh held inside _ ihInside ihAfter =>
      have leadsName : ∀ o ∈ opened, t.Reaches o name :=
        fun o inOpened => leads o inOpened name List.mem_cons_self
      have leadsParents : ∀ o ∈ name :: opened, ∀ parent ∈ c.parents, t.Reaches o parent := by
        intro o inOpened parent declared
        have step : t.Extends name parent := ⟨c, held, declared⟩
        rcases List.mem_cons.1 inOpened with rfl | inOpened
        · exact Relation.ReflTransGen.single step
        · exact (leadsName o inOpened).tail step
      have ancestorsListed : t.Listing (name :: opened) ancestors :=
        ihInside leadsParents (state.enter fresh)
      refine ihAfter (fun o inOpened n mem => leads o inOpened n (List.mem_cons_of_mem _ mem)) ?_
      exact ancestorsListed.leave (fun inOpened => fresh (Or.inl inOpened)) held
        (fun parent declared => inside.covers declared) leadsName

end EdgeResolution.Component
