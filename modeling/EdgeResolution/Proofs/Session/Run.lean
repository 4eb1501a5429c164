/-
# EdgeResolution.Proofs.Session.Run -- one request, and many

`Session.Stepped` is one request as a relation: one rule for each way in which it can
end.  Whatever a request does to a session is read off it (`stepped_step`), and what
holds of a session that was started with one edge is proved over the requests, the
last one last (`after_concat`):

* `node?_after_concat`: every edge stays at its handle as it is;
* `Sourced`: a project edge stands for a module edge that was there before it;
* `lt_of_mem_answers`: a handle that was ever answered is in use.
-/
import EdgeResolution.Session
import EdgeResolution.Proofs.Edge.Derivation
import Mathlib.Data.List.Induction

namespace EdgeResolution

set_option autoImplicit false

namespace Session

/-! ## Requests for derivations -/

/-- The request for a derivation that gives a module edge. -/
def Request.derive : Edge.Change → Request
  | .withSelector selector => .withTarget (.module selector)
  | .withVersion version => .withVersion version
  | .withReason reason => .withReason reason

variable {s next : Session} {handle k : Nat} {n : Node} {e f : Edge} {request : Request}
  {answer : Answer}

theorem step_derive (found : s.node? handle = some (.module e)) (change : Edge.Change) :
    s.step handle (.derive change) = s.keep handle (e.derive change) := by
  rw [step, found]
  cases change <;> rfl

theorem step_derive_of_void {change : Edge.Change} (found : s.node? handle = some (.module e))
    (void : change.IsVoid e) : s.step handle (.derive change) = (s, .edge handle) := by
  rw [step_derive found, (e.derive_eq_same_iff change).2 void]
  rfl

theorem step_derive_of_not_void {change : Edge.Change}
    (found : s.node? handle = some (.module e)) (news : ¬ change.IsVoid e) :
    s.step handle (.derive change) = s.push (.module (e.relabel (change.on e.label))) := by
  rw [step_derive found, (e.derive_eq_changed_iff change).2 ⟨news, rfl⟩]
  rfl

theorem step_project (found : s.node? handle = some (.module e)) (path : ProjectPath) :
    s.step handle (.withTarget (.project path)) = s.push (.project path handle) := by
  rw [step, found]
  rfl

/-! ## One request -/

/-- The session with one more edge. -/
def extended (s : Session) (n : Node) : Session := (s.push n).1

theorem node?_extended : (s.extended n).node? k =
    if k = s.edges.length then some n else s.node? k := by
  rw [node?, node?, extended, push, List.getElem?_append]
  rcases Nat.lt_trichotomy k s.edges.length with lt | rfl | gt
  · rw [if_pos lt, if_neg (Nat.ne_of_lt lt)]
  · simp
  · rw [if_neg (Nat.lt_asymm gt), if_neg (Nat.ne_of_gt gt), List.getElem?_eq_none (Nat.le_of_lt gt)]
    exact List.getElem?_eq_none (by simp; omega)

theorem node?_push : (s.push n).1.node? s.edges.length = some n := by
  change (s.extended n).node? _ = _
  rw [node?_extended, if_pos rfl]

theorem lt_of_node? (found : s.node? k = some n) : k < s.edges.length :=
  (List.getElem?_eq_some_iff.1 found).1

theorem node?_extended_of_node? {m : Node} (found : s.node? k = some n) :
    (s.extended m).node? k = some n := by
  rw [node?_extended, if_neg (Nat.ne_of_lt (lt_of_node? found)), found]

/-- What one request comes to: the session after it, and the answer. -/
inductive Stepped (s : Session) (handle : Nat) : Request → Session → Answer → Prop
  | unchanged {e : Edge} {change : Edge.Change} (found : s.node? handle = some (.module e))
      (void : change.IsVoid e) : Stepped s handle (.derive change) s (.edge handle)
  | changed {e : Edge} {change : Edge.Change} (found : s.node? handle = some (.module e))
      (news : ¬ change.IsVoid e) :
      Stepped s handle (.derive change)
        (s.extended (.module (e.relabel (change.on e.label)))) (.edge s.edges.length)
  | substituted {e : Edge} {path : ProjectPath} (found : s.node? handle = some (.module e)) :
      Stepped s handle (.withTarget (.project path)) (s.extended (.project path handle))
        (.edge s.edges.length)
  | looked {n : Node} (found : s.node? handle = some n) : Stepped s handle .look s (.edge handle)
  | sourced {path : ProjectPath} {source : Nat}
      (found : s.node? handle = some (.project path source)) :
      Stepped s handle .source s (.edge source)
  | told {request : Request} {answer : Answer} (noEdge : ∀ k, answer ≠ .edge k) :
      Stepped s handle request s answer

theorem stepped_derive (found : s.node? handle = some (.module e)) (change : Edge.Change) :
    Stepped s handle (.derive change) (s.step handle (.derive change)).1
      (s.step handle (.derive change)).2 := by
  by_cases void : change.IsVoid e
  · rw [step_derive_of_void found void]
    exact .unchanged found void
  · rw [step_derive_of_not_void found void]
    exact .changed found void

theorem stepped_step (s : Session) (handle : Nat) (request : Request) :
    Stepped s handle request (s.step handle request).1 (s.step handle request).2 := by
  cases found : s.node? handle with
  | none =>
      rw [step, found]
      exact .told (by simp)
  | some n =>
      cases n with
      | module e =>
          cases request with
          | look =>
              rw [step, found]
              exact .looked found
          | source =>
              rw [step, found]
              exact .told (by simp [stepModule])
          | withReason reason => exact stepped_derive found (.withReason reason)
          | withVersion version => exact stepped_derive found (.withVersion version)
          | withTarget target =>
              cases target with
              | module selector => exact stepped_derive found (.withSelector selector)
              | project path =>
                  rw [step_project found]
                  exact .substituted found
              | library library =>
                  rw [step, found]
                  exact .told (by simp [stepModule])
          | select consumer target schema =>
              rw [step, found]
              cases selected : e.select consumer target schema with
              | ok configurations =>
                  simp only [stepModule, selected]
                  exact .told (by simp)
              | error failure =>
                  simp only [stepModule, selected]
                  exact .told (by simp)
      | project path source =>
          rw [step, found]
          cases request with
          | look => exact .looked found
          | source => exact .sourced found
          | _ => exact .told (by simp [stepProject])

namespace Stepped

/-- A request leaves every edge at its handle, as it is. -/
theorem node? (step : Stepped s handle request next answer) (found : s.node? k = some n) :
    next.node? k = some n := by
  cases step with
  | unchanged | looked | sourced | told => exact found
  | changed | substituted => exact node?_extended_of_node? found

theorem length_le (step : Stepped s handle request next answer) :
    s.edges.length ≤ next.edges.length := by
  cases step with
  | unchanged | looked | sourced | told => exact Nat.le_refl _
  | changed | substituted => simp [extended, push]

end Stepped

/-! ## Project edges -/

/-- Every project edge stands for a module edge that was there before it. -/
def Sourced (s : Session) : Prop :=
  ∀ k path source, s.node? k = some (.project path source) →
    source < k ∧ ∃ e, s.node? source = some (.module e)

theorem sourced_start (root : Edge) : (start root).Sourced := by
  intro k path source found
  rw [start, Session.node?, List.getElem?_singleton] at found
  split at found <;> cases found

theorem Sourced.extended (sourced : s.Sourced)
    (source : ∀ path source, n = .project path source → ∃ e, s.node? source = some (.module e)) :
    (s.extended n).Sourced := by
  intro k path h found
  rw [node?_extended] at found
  split at found
  · next last =>
      cases found
      obtain ⟨e, foundSource⟩ := source path h rfl
      exact ⟨last ▸ lt_of_node? foundSource, e, node?_extended_of_node? foundSource⟩
  · obtain ⟨lt, e, foundSource⟩ := sourced k path h found
    exact ⟨lt, e, node?_extended_of_node? foundSource⟩

theorem Stepped.sourced_next (step : Stepped s handle request next answer)
    (sourced : s.Sourced) : next.Sourced := by
  cases step with
  | unchanged | looked | sourced | told => exact sourced
  | changed => exact sourced.extended (by simp)
  | @substituted e path found =>
      refine sourced.extended fun _ source same => ?_
      cases same
      exact ⟨e, found⟩

/-- A handle that is answered is in use. -/
theorem Stepped.lt_of_edge (step : Stepped s handle request next (.edge k))
    (sourced : s.Sourced) : k < next.edges.length := by
  cases step with
  | unchanged found | looked found => exact lt_of_node? found
  | changed | substituted => simp [Session.extended, push]
  | sourced found =>
      obtain ⟨-, e, foundSource⟩ := sourced _ _ _ found
      exact lt_of_node? foundSource
  | told noEdge => exact absurd rfl (noEdge k)

/-! ## Many requests -/

/-- The session that was started with an edge, after these requests. -/
def after (root : Edge) (requests : List (Nat × Request)) : Session :=
  ((start root).run requests).1

/-- What it has answered to them, in order. -/
def answers (root : Edge) (requests : List (Nat × Request)) : List Answer :=
  ((start root).run requests).2

theorem run_concat (s : Session) (requests : List (Nat × Request)) (last : Nat × Request) :
    s.run (requests ++ [last]) =
      (((s.run requests).1.step last.1 last.2).1,
        (s.run requests).2 ++ [((s.run requests).1.step last.1 last.2).2]) := by
  induction requests generalizing s with
  | nil => rfl
  | cons first rest ih =>
      obtain ⟨handle, request⟩ := first
      simp only [List.cons_append, run, ih]

variable (root : Edge) (requests : List (Nat × Request)) (last : Nat × Request)

theorem after_nil : after root [] = start root := rfl

theorem after_concat :
    after root (requests ++ [last]) = ((after root requests).step last.1 last.2).1 := by
  rw [after, run_concat, after]

theorem answers_concat :
    answers root (requests ++ [last]) =
      answers root requests ++ [((after root requests).step last.1 last.2).2] := by
  rw [answers, run_concat, answers, after]

theorem stepped_after :
    Stepped (after root requests) last.1 last.2 (after root (requests ++ [last]))
      ((after root requests).step last.1 last.2).2 := by
  rw [after_concat]
  exact stepped_step _ _ _

theorem node?_after_concat (found : (after root requests).node? k = some n) :
    (after root (requests ++ [last])).node? k = some n :=
  (stepped_after root requests last).node? found

theorem node?_start : (start root).node? 0 = some (.module root) := rfl

theorem length_after_pos : 0 < (after root requests).edges.length := by
  induction requests using List.reverseRecOn with
  | nil => exact Nat.one_pos
  | append_singleton requests last ih =>
      exact Nat.lt_of_lt_of_le ih (stepped_after root requests last).length_le

theorem sourced_after : (after root requests).Sourced := by
  induction requests using List.reverseRecOn with
  | nil => exact sourced_start root
  | append_singleton requests last ih => exact (stepped_after root requests last).sourced_next ih

variable {root requests}

theorem lt_of_mem_answers (mem : Answer.edge k ∈ answers root requests) :
    k < (after root requests).edges.length := by
  induction requests using List.reverseRecOn with
  | nil => cases mem
  | append_singleton requests last ih =>
      have step := stepped_after root requests last
      rw [answers_concat, List.mem_append, List.mem_singleton] at mem
      rcases mem with before | now
      · exact Nat.lt_of_lt_of_le (ih before) step.length_le
      · rw [← now] at step
        exact step.lt_of_edge (sourced_after root requests)

namespace Example

/-- Declared in a module descriptor: `compile` takes the target's `default`. -/
def declared : Edge where
  requester := ⟨⟨"com.example", "app", "1.0"⟩, Configuration.named "compile"⟩
  declaration := .ivy ((IvyDeclaration.of
    ⟨"org.example", "lib", Version.Constraint.requiring "1.0"⟩).map "compile" ["default"])
  reason := none

def forced : Edge.Change := .withReason (some "forced")

def upgraded : Edge.Change := .withVersion (Version.Constraint.strictlyAt "2.0")

end Example

end Session
end EdgeResolution
