/-
# EdgeResolution.Proofs.Ancestry.Settled -- lists that an expansion leaves as they are

A list of configurations is `Settled` when no name is on it twice and every parent
that one of them declares stands before it.  Of the lists of held configurations an
expansion leaves exactly these as they are (`expand_eq_self_iff`): a walk that comes
to a name whose parents are listed has only this name to add, and one that comes to
it too early puts a parent in front of it.

A second expansion of what the first has listed therefore changes nothing if and
only if nothing that is reached is on a cycle (`expand_again_iff`).  On a cycle some
parent always comes too late, and the next walk enters there.

`Requester.expand_leaves_settled` says both of a requester's expansions.
-/
import EdgeResolution.Proofs.Ancestry.Composition
import Mathlib.Data.List.Nodup

namespace EdgeResolution

set_option autoImplicit false

namespace Component

variable {t : Component} {todo done selected listed : List Configuration} {c : Configuration}

theorem not_mem_of_nodup_split (distinct : ((done ++ c :: todo).map (·.name)).Nodup) :
    c.name ∉ (done ++ todo).map (·.name) := by
  rw [List.map_append, List.map_cons, List.nodup_middle, ← List.map_append] at distinct
  exact (List.nodup_cons.1 distinct).1

theorem not_mem_before_of_nodup (distinct : ((done ++ c :: todo).map (·.name)).Nodup) :
    c.name ∉ done.map (·.name) := by
  have elsewhere := not_mem_of_nodup_split distinct
  rw [List.map_append] at elsewhere
  exact fun mem => elsewhere (List.mem_append_left _ mem)

/-! ## Settled lists -/

structure Settled (listed : List Configuration) : Prop where
  distinct : (listed.map (·.name)).Nodup
  parentsBefore : ∀ before c after, listed = before ++ c :: after →
    ∀ parent ∈ c.parents, parent ∈ before.map (·.name)

namespace Settled

theorem nil : Settled [] where
  distinct := List.nodup_nil
  parentsBefore := by
    intro before c after split
    simp at split

theorem concat (settled : Settled listed) (fresh : c.name ∉ listed.map (·.name))
    (parents : ∀ parent ∈ c.parents, parent ∈ listed.map (·.name)) :
    Settled (listed ++ [c]) where
  distinct := by
    rw [List.map_append, List.map_singleton, ← List.concat_eq_append]
    exact settled.distinct.concat fresh
  parentsBefore := forall_split_concat settled.parentsBefore parents

/-- In a settled list of held configurations nothing is its own ancestor. -/
theorem not_onCycle (settled : Settled listed)
    (held : ∀ c ∈ listed, t.configuration? c.name = some c) {name : String}
    (mem : name ∈ listed.map (·.name)) : ¬ t.OnCycle name := by
  obtain ⟨c, inListed, rfl⟩ := List.mem_map.1 mem
  obtain ⟨before, after, rfl⟩ := List.append_of_mem inListed
  have parentBefore : ∀ front d back, before ++ c :: after = front ++ d :: back →
      ∀ parent, t.Extends d.name parent → parent ∈ front.map (·.name) := by
    rintro front d back split parent ⟨e, found, declared⟩
    have heldD : t.configuration? d.name = some d := held d (by rw [split]; simp)
    cases heldD.symm.trans found
    exact settled.parentsBefore front d back split parent declared
  intro cycle
  exact not_mem_before_of_nodup settled.distinct
    (mem_before_of_parents_before parentBefore cycle before c after rfl rfl)

/-- A walk that has listed the first part of a settled list goes on to list the rest. -/
theorem walk_eq_ok (settled : Settled (done ++ todo))
    (held : ∀ c ∈ done ++ todo, t.configuration? c.name = some c) :
    t.walk [] (todo.map (·.name)) done = .ok (done ++ todo) := by
  induction todo generalizing done with
  | nil => rw [List.map_nil, walk, List.append_nil]
  | cons c rest ih =>
      have fresh : ¬ Known [] done c.name :=
        fun known => not_mem_before_of_nodup settled.distinct (known.resolve_left List.not_mem_nil)
      have parentsListed : t.walk [c.name] c.parents done = .ok done := by
        refine walk_of_known fun parent declared => ?_
        have listed := settled.parentsBefore done c rest rfl parent declared
        obtain ⟨p, mem, rfl⟩ := List.mem_map.1 listed
        exact ⟨Or.inr listed, p, held p (List.mem_append_left _ mem)⟩
      rw [List.map_cons, walk_enter fresh (held c (by simp)), parentsListed]
      rw [List.append_cons] at settled held ⊢
      exact ih settled held

end Settled

/-! ## Walks that change nothing -/

/-- A walk that lists just what it was given, in that order, had all parents before it. -/
theorem Walked.settled (run : Walked t [] (todo.map (·.name)) done (done ++ todo))
    (held : ∀ c ∈ todo, t.configuration? c.name = some c)
    (distinct : ((done ++ todo).map (·.name)).Nodup) (settled : Settled done) :
    Settled (done ++ todo) := by
  induction todo generalizing done with
  | nil => rwa [List.append_nil]
  | cons c rest ih =>
      have unlisted : c.name ∉ done.map (·.name) := not_mem_before_of_nodup distinct
      cases run with
      | pass known _ _ => exact absurd (known.resolve_left List.not_mem_nil) unlisted
      | @enter _ _ _ d _ ancestors _ fresh found inside after =>
          cases (held c List.mem_cons_self).symm.trans found
          obtain ⟨above, rfl⟩ := inside.appends
          obtain ⟨more, split⟩ := after.appends
          -- whatever the parents had added would stand between `done` and `c`
          obtain rfl : above = [] := by
            cases above with
            | nil => rfl
            | cons first above =>
                obtain ⟨rfl, rfl⟩ : c = first ∧ rest = above ++ c :: more := by simpa using split
                exact absurd (List.mem_map_of_mem (by simp)) (not_mem_of_nodup_split distinct)
          rw [List.append_nil] at inside after
          have parents : ∀ parent ∈ c.parents, parent ∈ done.map (·.name) := by
            intro parent declared
            rcases inside.covers declared with own | inDone
            · cases List.mem_singleton.1 own
              exact absurd declared (List.nodup_cons.1 c.distinct).1
            · exact inDone
          rw [List.append_cons] at distinct ⊢
          rw [List.append_cons done c rest] at after
          exact ih after (fun e mem => held e (List.mem_cons_of_mem _ mem)) distinct
            (settled.concat unlisted parents)

theorem expand_eq_self_iff (held : t.Holds listed) :
    t.expand listed = .ok listed ↔ Settled listed := by
  constructor
  · intro same
    have distinct := (listing_of_expand_eq_ok held same).distinct
    have whole : Settled ([] ++ listed) :=
      Walked.settled (walked_of_expand_eq_ok held same) held distinct .nil
    exact whole
  · intro settled
    have whole : Settled ([] ++ listed) := settled
    rw [expand_eq_walk held]
    exact whole.walk_eq_ok held

theorem expand_again_iff (held : t.Holds selected) (ok : t.expand selected = .ok listed) :
    t.expand listed = .ok listed ↔
      ∀ c ∈ selected, ∀ name, t.Reaches c.name name → ¬ t.OnCycle name := by
  have state : t.Listing [] listed := listing_of_expand_eq_ok held ok
  rw [expand_eq_self_iff state.held]
  constructor
  · intro settled c mem name reached
    exact settled.not_onCycle state.held (name_mem_of_reaches held ok mem reached)
  · intro acyclic
    refine ⟨state.distinct, fun before c after split parent declared => ?_⟩
    have heldC : t.configuration? c.name = some c := state.held c (by rw [split]; simp)
    have above : Relation.TransGen t.Extends c.name parent := .single ⟨c, heldC, declared⟩
    exact mem_before_of_transGen held ok acyclic above before c after split rfl

end Component

namespace Requester

open Component

/-- **Settled lists are what an expansion leaves as it is**, and without cycles every expansion
is settled. -/
theorem expand_leaves_settled (r : Requester) (t : Component) :
    (∀ listed, (∀ c ∈ listed, t.configuration? c.name = some c) →
      (r.expand t listed = .ok listed ↔ Settled listed)) ∧
    (∀ selected listed, (∀ c ∈ selected, t.configuration? c.name = some c) →
      r.expand t selected = .ok listed →
      (r.expand t listed = .ok listed ↔
        ∀ c ∈ selected, ∀ name, t.Reaches c.name name → ¬ t.OnCycle name)) := by
  constructor
  · intro listed held
    rw [expand_eq_ok_iff]
    exact expand_eq_self_iff held
  · intro selected listed held ok
    rw [expand_eq_ok_iff]
    exact expand_again_iff held (expand_eq_ok_iff.1 ok)

open Example in
/-- Round the knot, what was listed last is listed earlier the next time. -/
theorem expand_leaves_settled_ladder :
    app.expand ladder [extending "compile" [], extending "runtime" ["compile"],
        extending "default" ["compile", "runtime"]] =
      .ok [extending "compile" [], extending "runtime" ["compile"],
        extending "default" ["compile", "runtime"]] ∧
    ¬∀ c ∈ [extending "a" ["b", "c"]], ∀ name, knot.Reaches c.name name →
      ¬knot.OnCycle name := by
  have held : ∀ c ∈ [extending "compile" [], extending "runtime" ["compile"],
      extending "default" ["compile", "runtime"]], ladder.configuration? c.name = some c := by
    refine List.forall_mem_cons.2 ⟨by cbv, List.forall_mem_cons.2 ⟨by cbv, ?_⟩⟩
    exact List.forall_mem_singleton.2 (by cbv)
  have settled : Settled [extending "compile" [], extending "runtime" ["compile"],
      extending "default" ["compile", "runtime"]] :=
    ((Settled.nil.concat (by decide) (by decide)).concat (by decide) (by decide)).concat
      (by decide) (by decide)
  have once : app.expand knot [extending "a" ["b", "c"]] =
      .ok [extending "d" [], extending "b" ["a", "d"], extending "c" ["d"],
        extending "a" ["b", "c"]] := expand_eq_ok_iff.2 (by cbv)
  have again : knot.expand [extending "d" [], extending "b" ["a", "d"], extending "c" ["d"],
      extending "a" ["b", "c"]] = .ok [extending "d" [], extending "c" ["d"],
        extending "a" ["b", "c"], extending "b" ["a", "d"]] := by cbv
  have heldKnot : ∀ c ∈ [extending "a" ["b", "c"]], knot.configuration? c.name = some c :=
    List.forall_mem_singleton.2 (by cbv)
  refine ⟨((expand_leaves_settled app ladder).1 _ held).2 settled, fun acyclic => ?_⟩
  have same := ((expand_leaves_settled app knot).2 _ _ heldKnot once).2 acyclic
  have moved := again.symm.trans (expand_eq_ok_iff.1 same)
  revert moved
  decide

end Requester
end EdgeResolution
