/-
# EdgeResolution.Proofs.Session.Identity -- which edge a request is answered with

A handle is the identity of an edge: whoever walks a graph takes two answers with one
handle for one edge.  So a derivation that asks for what the edge has already must be
answered with the handle it was asked on, and any other one with a handle that was
never answered before, though an equal edge may be in the session
(`answer_eq_self_iff`, `created_of_not_void`, `created_of_project`).  What exists is
never changed, and whatever is not a derivation that succeeds creates nothing.

`edges_keep_identity` is all of this, for one more request after any others.
-/
import EdgeResolution.Proofs.Session.Run

namespace EdgeResolution

set_option autoImplicit false

namespace Session

open Edge (Change)

/-- A derivation is asked for, of whatever kind and on whatever edge. -/
def Request.IsDerivation : Request → Prop
  | .withReason _ | .withVersion _ | .withTarget _ => True
  | .look | .source | .select _ _ _ => False

/-- The handle has not come up: it is not the first edge's, was never answered, and is not in use. -/
structure Unseen (root : Edge) (requests : List (Nat × Request)) (handle : Nat) : Prop where
  ne_zero : handle ≠ 0
  not_answered : Answer.edge handle ∉ answers root requests
  not_in_use : (after root requests).node? handle = none

/-- One more request is answered with an edge that it created, and has created no other. -/
structure Created (root : Edge) (requests : List (Nat × Request)) (last : Nat × Request)
    (n : Node) (handle : Nat) : Prop where
  unseen : Unseen root requests handle
  answered : ((after root requests).step last.1 last.2).2 = .edge handle
  edges : (after root (requests ++ [last])).edges = (after root requests).edges ++ [n]
  found : (after root (requests ++ [last])).node? handle = some n

variable {root e : Edge} {requests : List (Nat × Request)} {last : Nat × Request} {handle : Nat}
  {n : Node} {change : Change}

/-- The next handle has not come up. -/
theorem unseen_length (root : Edge) (requests : List (Nat × Request)) :
    Unseen root requests (after root requests).edges.length where
  ne_zero := Nat.ne_of_gt (length_after_pos root requests)
  not_answered := fun mem => Nat.lt_irrefl _ (lt_of_mem_answers mem)
  not_in_use := List.getElem?_eq_none (Nat.le_refl _)

theorem created_of_push
    (pushed : (after root requests).step last.1 last.2 = (after root requests).push n) :
    Created root requests last n (after root requests).edges.length where
  unseen := unseen_length root requests
  answered := by rw [pushed, push]
  edges := by rw [after_concat, pushed, push]
  found := by
    rw [after_concat, pushed]
    exact node?_push

/-! ## The cases -/

theorem created_of_not_void (found : (after root requests).node? handle = some (.module e))
    (news : ¬ change.IsVoid e) :
    Created root requests (handle, .derive change) (.module (e.relabel (change.on e.label)))
      (after root requests).edges.length :=
  created_of_push (step_derive_of_not_void found news)

theorem created_of_project (found : (after root requests).node? handle = some (.module e))
    (path : ProjectPath) :
    Created root requests (handle, .withTarget (.project path)) (.project path handle)
      (after root requests).edges.length :=
  created_of_push (step_project found path)

theorem answer_eq_self_iff (found : (after root requests).node? handle = some (.module e)) :
    ((after root requests).step handle (.derive change)).2 = .edge handle ↔ change.IsVoid e := by
  constructor
  · intro same
    by_contra news
    have created := created_of_not_void found news
    cases same.symm.trans created.answered
    rw [created.unseen.not_in_use] at found
    cases found
  · intro void
    rw [step_derive_of_void found void]

theorem after_concat_of_void (found : (after root requests).node? handle = some (.module e))
    (void : change.IsVoid e) :
    after root (requests ++ [(handle, .derive change)]) = after root requests := by
  rw [after_concat, step_derive_of_void found void]

/-- A request that asks for no derivation creates nothing. -/
theorem Stepped.eq_of_not_derivation {s next : Session} {request : Request} {answer : Answer}
    (step : Stepped s handle request next answer) (asks : ¬ request.IsDerivation) : next = s := by
  cases step with
  | unchanged | looked | sourced | told => rfl
  | @changed e change => cases change <;> exact absurd trivial asks
  | substituted => exact absurd trivial asks

theorem step_library {s : Session} (found : s.node? handle = some (.module e))
    (library : Selector.Library) :
    s.step handle (.withTarget (.library library)) = (s, .failed (e.libraryFailure library)) := by
  rw [step, found]
  rfl

theorem step_derivation_of_project {s : Session} {path : ProjectPath} {source : Nat}
    {request : Request} (found : s.node? handle = some (.project path source))
    (asks : request.IsDerivation) : s.step handle request = (s, .notAModule) := by
  rw [step, found]
  cases request with
  | withReason | withVersion | withTarget => rfl
  | look | source | select => exact absurd asks id

/-- **Edges keep their identity**, whatever was asked before: a derivation on a module edge is
answered with that very edge exactly when it asks for nothing new, and else, like any project
target, with one that has not come up; edges are never changed, and nothing else creates any. -/
theorem edges_keep_identity (root : Edge) (requests : List (Nat × Request)) (handle : Nat) :
    (∀ e change, (after root requests).node? handle = some (.module e) →
      (((after root requests).step handle (.derive change)).2 = .edge handle ↔
        change.IsVoid e) ∧
      (change.IsVoid e →
        after root (requests ++ [(handle, .derive change)]) = after root requests) ∧
      (¬ change.IsVoid e → ∃ fresh, Created root requests (handle, .derive change)
        (.module (e.relabel (change.on e.label))) fresh)) ∧
    (∀ e path, (after root requests).node? handle = some (.module e) →
      ∃ fresh, Created root requests (handle, .withTarget (.project path)) (.project path handle)
        fresh) ∧
    (∀ request k n, (after root requests).node? k = some n →
      (after root (requests ++ [(handle, request)])).node? k = some n) ∧
    (∀ e library, (after root requests).node? handle = some (.module e) →
      (after root requests).step handle (.withTarget (.library library)) =
        (after root requests, .failed (e.libraryFailure library))) ∧
    (∀ path source request, (after root requests).node? handle = some (.project path source) →
      request.IsDerivation →
        (after root requests).step handle request = (after root requests, .notAModule)) ∧
    (∀ request, ¬ request.IsDerivation →
      after root (requests ++ [(handle, request)]) = after root requests) := by
  refine ⟨?_, ?_, ?_, ?_, ?_, ?_⟩
  · intro e change found
    exact ⟨answer_eq_self_iff found, after_concat_of_void found,
      fun news => ⟨_, created_of_not_void found news⟩⟩
  · intro e path found
    exact ⟨_, created_of_project found path⟩
  · intro request k n found
    exact node?_after_concat root requests (handle, request) found
  · intro e library found
    exact step_library found library
  · intro path source request found asks
    exact step_derivation_of_project found asks
  · intro request asks
    exact (stepped_after root requests (handle, request)).eq_of_not_derivation asks

namespace Example

/-- The edges 1 and 2 are there already: the first edge with a reason, and a project for it. -/
def twice : List (Nat × Request) :=
  [(0, .derive forced), (0, .withTarget (.project ⟨":", ":lib"⟩))]

def explained : Edge := declared.relabel ⟨declared.selector, some "forced"⟩

end Example

open Example in
/-- Asked again, the first edge gives new edges of equal value; the edge with the reason gives
itself, and the project edge gives none. -/
theorem edges_keep_identity_twice :
    (after declared twice).node? 1 = some (.module explained) ∧
    (after declared twice).node? 2 = some (.project ⟨":", ":lib"⟩ 0) ∧
    (∃ fresh, Created declared twice (0, .derive forced) (.module explained) fresh) ∧
    (∃ fresh, Created declared twice (0, .withTarget (.project ⟨":", ":lib"⟩))
      (.project ⟨":", ":lib"⟩ 0) fresh) ∧
    ((after declared twice).step 1 (.derive forced)).2 = .edge 1 ∧
    (after declared twice).step 1 (.withTarget (.library ⟨":lib", "core", none⟩)) =
      (after declared twice, .failed (explained.libraryFailure ⟨":lib", "core", none⟩)) ∧
    (after declared twice).step 2 (.withReason none) = (after declared twice, .notAModule) ∧
    after declared (twice ++ [(2, .source)]) = after declared twice := by
  have first : (after declared twice).node? 0 = some (.module declared) := rfl
  have reasoned : (after declared twice).node? 1 = some (.module explained) := rfl
  have project : (after declared twice).node? 2 = some (.project ⟨":", ":lib"⟩ 0) := rfl
  have atFirst := edges_keep_identity declared twice 0
  have atReasoned := edges_keep_identity declared twice 1
  have atProject := edges_keep_identity declared twice 2
  refine ⟨reasoned, project, ?_, ?_, ?_, ?_, ?_, ?_⟩
  · exact (atFirst.1 declared forced first).2.2 (by decide +kernel)
  · exact atFirst.2.1 declared ⟨":", ":lib"⟩ first
  · exact (atReasoned.1 explained forced reasoned).1.2 (by decide +kernel)
  · exact atReasoned.2.2.2.1 explained ⟨":lib", "core", none⟩ reasoned
  · exact atProject.2.2.2.2.1 ⟨":", ":lib"⟩ 0 (.withReason none) project trivial
  · exact atProject.2.2.2.2.2 .source id

end Session
end EdgeResolution
