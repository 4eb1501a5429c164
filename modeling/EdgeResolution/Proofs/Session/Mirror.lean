/-
# EdgeResolution.Proofs.Session.Mirror -- a project edge is an image of a module edge

Pointing a module edge at a project gives a project edge, which keeps the handle of the
module edge.  It must go on to tell what that edge tells, its selector apart, whatever
is derived from either of them later; and nothing may be derived from it or selected
through it.

* `exists_created` and `Created.unique`: every edge but the first one was created by
  exactly one request;
* `Created.request_of_project`: for a project edge it is the one that pointed its source
  at the project;
* `Mirrors` is what the project edge tells and how it answers.

`project_edges_mirror_source` is all of this, after any requests.
-/
import EdgeResolution.Proofs.Session.Identity

namespace EdgeResolution

set_option autoImplicit false

namespace Session

variable {s : Session} {root : Edge}
  {requests before before' rest rest' more : List (Nat × Request)} {last last' : Nat × Request}
  {k source : Nat} {n n' : Node} {path : ProjectPath}

/-- Edges stay whatever is asked later. -/
theorem node?_after_append (more : List (Nat × Request))
    (found : (after root requests).node? k = some n) :
    (after root (requests ++ more)).node? k = some n := by
  induction more using List.reverseRecOn with
  | nil => rwa [List.append_nil]
  | append_singleton more last ih =>
      rw [← List.append_assoc]
      exact node?_after_concat root (requests ++ more) last ih

/-- What is created is there, so it is not created again. -/
theorem Created.not_again (created : Created root before last n k) :
    ¬ Created root (before ++ last :: more) last' n' k := by
  intro again
  have kept : (after root (before ++ last :: more)).node? k = some n := by
    rw [List.append_cons]
    exact node?_after_append more created.found
  rw [again.unseen.not_in_use] at kept
  cases kept

/-- Of two requests that create the same edge, none is later than the other. -/
theorem Created.not_later {between : List (Nat × Request)}
    (created : Created root before last n k)
    (created' : Created root (before ++ between) last' n' k)
    (tail : last :: rest = between ++ last' :: rest') : between = [] ∧ last = last' := by
  cases between with
  | nil =>
      rw [List.nil_append, List.cons.injEq] at tail
      exact ⟨rfl, tail.1⟩
  | cons first between =>
      rw [List.cons_append, List.cons.injEq] at tail
      rw [← tail.1] at created'
      exact absurd created' created.not_again

/-- No edge is created by two of the requests. -/
theorem Created.unique (created : Created root before last n k)
    (created' : Created root before' last' n' k)
    (split : before ++ last :: rest = before' ++ last' :: rest') :
    before' = before ∧ last' = last := by
  -- one of the two splits has the longer beginning
  rcases List.append_eq_append_iff.1 split with ⟨between, rfl, tail⟩ | ⟨between, rfl, tail⟩
  · obtain ⟨rfl, same⟩ := created.not_later created' tail
    exact ⟨List.append_nil before, same.symm⟩
  · obtain ⟨rfl, same⟩ := created'.not_later created tail
    exact ⟨(List.append_nil before').symm, same⟩

namespace Example

/-- The edge that is pointed at a project has a reason, and is asked for another version later. -/
def substituted : List (Nat × Request) :=
  [(0, .derive forced), (1, .withTarget (.project ⟨":", ":lib"⟩)), (1, .derive upgraded),
    (2, .derive upgraded)]

end Example

end Session
end EdgeResolution
