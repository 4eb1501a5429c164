/-
# EdgeResolution.Proofs.Session.Lineage -- what an edge is tells how it came about

`Session.Lineage` follows one edge of a session back to the edge the session was
started with: the changes asked for on the way, the first one first.  Other requests
may come between them, on this edge or on any other.

* `Lineage.node?`: at the end of a lineage is the first edge under the label that the
  changes make of its own;
* `exists_lineage`: every module edge of a session has a lineage;
* `derivations_compose`: so the changes compose on selector and reason, and touch
  nothing else;
* `selection_survives_derivation`: and every module edge selects what the first one
  selects.
-/
import EdgeResolution.Proofs.Session.Run

namespace EdgeResolution

set_option autoImplicit false

namespace Session

open Edge (Change)

/-- The edge at a handle came about from the first one by these changes. -/
inductive Lineage (root : Edge) : List (Nat × Request) → Nat → List Change → Prop
  | root : Lineage root [] 0 []
  | meanwhile {requests : List (Nat × Request)} {handle : Nat} {changes : List Change}
      (other : Nat × Request) (known : Lineage root requests handle changes) :
      Lineage root (requests ++ [other]) handle changes
  | derived {requests : List (Nat × Request)} {handle derived : Nat} {changes : List Change}
      {change : Change} (known : Lineage root requests handle changes)
      (answered : ((after root requests).step handle (.derive change)).2 = .edge derived) :
      Lineage root (requests ++ [(handle, .derive change)]) derived (changes ++ [change])

variable {root e : Edge} {requests : List (Nat × Request)} {handle derived : Nat}
  {changes : List Change} {change : Change}

/-- A derivation on a module edge is answered with the edge that it asks for. -/
theorem node?_of_derive (found : (after root requests).node? handle = some (.module e))
    (change : Change) :
    ∃ derived, ((after root requests).step handle (.derive change)).2 = .edge derived ∧
      (after root (requests ++ [(handle, .derive change)])).node? derived =
        some (.module (e.relabel (change.on e.label))) := by
  rw [after_concat]
  by_cases void : change.IsVoid e
  · rw [step_derive_of_void found void, Edge.Change.isVoid_iff.1 void, Edge.relabel_label]
    exact ⟨handle, rfl, found⟩
  · rw [step_derive_of_not_void found void]
    exact ⟨(after root requests).edges.length, rfl, node?_push⟩

theorem Lineage.node? (known : Lineage root requests handle changes) :
    (after root requests).node? handle =
      some (.module (root.relabel (Change.onAll changes root.label))) := by
  induction known with
  | root =>
      rw [Change.onAll_nil, Edge.relabel_label]
      exact node?_start root
  | meanwhile other _ ih => exact node?_after_concat _ _ other ih
  | @derived requests handle derived changes change _ answered ih =>
      obtain ⟨k, answeredK, found⟩ := node?_of_derive ih change
      cases answered.symm.trans answeredK
      rw [found, Edge.label_relabel, Edge.relabel_relabel, Change.onAll_concat]

/-- Every module edge came about from the first one. -/
theorem exists_lineage (found : (after root requests).node? handle = some (.module e)) :
    ∃ changes, Lineage root requests handle changes := by
  induction requests using List.reverseRecOn generalizing handle e with
  | nil =>
      cases handle with
      | zero => exact ⟨[], .root⟩
      | succ k => simp [after_nil, start, Session.node?] at found
  | append_singleton requests last ih =>
      obtain ⟨asked, request⟩ := last
      by_cases old : ∃ e', (after root requests).node? handle = some (.module e')
      · obtain ⟨e', foundOld⟩ := old
        obtain ⟨changes, known⟩ := ih foundOld
        exact ⟨changes, known.meanwhile _⟩
      · -- the edge is new, so the last request was a derivation that changed something
        have step := stepped_after root requests (asked, request)
        generalize answered : ((after root requests).step asked request).2 = answer at step
        generalize after root (requests ++ [(asked, request)]) = next at found step
        cases step with
        | unchanged | looked | sourced | told => exact absurd ⟨e, found⟩ old
        | substituted =>
            rw [node?_extended] at found
            split at found
            · cases found
            · exact absurd ⟨e, found⟩ old
        | changed foundAsked =>
            rw [node?_extended] at found
            split at found
            · next last =>
                obtain ⟨changes, known⟩ := ih foundAsked
                exact ⟨changes ++ [_], known.derived (last ▸ answered)⟩
            · exact absurd ⟨e, found⟩ old

/-- Every module edge is the first one under another label. -/
theorem exists_relabel (found : (after root requests).node? handle = some (.module e)) :
    ∃ l, e = root.relabel l := by
  obtain ⟨changes, known⟩ := exists_lineage found
  cases found.symm.trans known.node?
  exact ⟨_, rfl⟩

/-- **Derivations compose on selector and reason, and touch nothing else.** -/
theorem derivations_compose (root : Edge) :
    (∀ requests handle e, (after root requests).node? handle = some (.module e) →
      ∃ changes, Lineage root requests handle changes) ∧
    (∀ requests handle changes change, Lineage root requests handle changes →
      ∃ derived, ((after root requests).step handle (.derive change)).2 = .edge derived ∧
        Lineage root (requests ++ [(handle, .derive change)]) derived (changes ++ [change])) ∧
    (∀ requests handle changes, Lineage root requests handle changes →
      ∃ e, (after root requests).node? handle = some (.module e) ∧
        e.view = { root.view with
          selector := (Change.onAll changes ⟨root.selector, root.reason⟩).selector
          reason := (Change.onAll changes ⟨root.selector, root.reason⟩).reason }) ∧
    (∀ requests handle changes requests' handle' changes',
      Lineage root requests handle changes → Lineage root requests' handle' changes' →
      Change.onAll changes ⟨root.selector, root.reason⟩ =
        Change.onAll changes' ⟨root.selector, root.reason⟩ →
      (after root requests).node? handle = (after root requests').node? handle') := by
  refine ⟨?_, ?_, ?_, ?_⟩
  · intro requests handle e found
    exact exists_lineage found
  · intro requests handle changes change known
    obtain ⟨derived, answered, -⟩ := node?_of_derive known.node? change
    exact ⟨derived, answered, known.derived answered⟩
  · intro requests handle changes known
    exact ⟨_, known.node?, Edge.view_relabel _ _⟩
  · intro requests handle changes requests' handle' changes' known known' same
    have sameLabel : Change.onAll changes root.label = Change.onAll changes' root.label := same
    rw [known.node?, known'.node?, sameLabel]

namespace Example

/-- The reason and the version are changed in both orders. -/
def crossed : List (Nat × Request) :=
  [(0, .derive forced), (0, .derive upgraded), (1, .derive upgraded), (2, .derive forced)]

theorem lineage_three : Lineage declared crossed 3 [forced, upgraded] := by
  have one : Lineage declared [(0, .derive forced)] 1 [forced] :=
    Lineage.derived .root rfl
  have two : Lineage declared [(0, .derive forced), (0, .derive upgraded)] 1 [forced] :=
    one.meanwhile _
  have three : Lineage declared
      [(0, .derive forced), (0, .derive upgraded), (1, .derive upgraded)] 3 [forced, upgraded] :=
    two.derived rfl
  exact three.meanwhile _

theorem lineage_four : Lineage declared crossed 4 [upgraded, forced] := by
  have first : Lineage declared [(0, .derive forced)] 0 [] := Lineage.root.meanwhile _
  have two : Lineage declared [(0, .derive forced), (0, .derive upgraded)] 2 [upgraded] :=
    first.derived rfl
  have three : Lineage declared
      [(0, .derive forced), (0, .derive upgraded), (1, .derive upgraded)] 2 [upgraded] :=
    two.meanwhile _
  exact three.derived rfl

end Example

open Example in
theorem derivations_compose_crossed :
    (∃ changes, Lineage declared crossed 4 changes) ∧
    (∃ derived, ((after declared crossed).step 3 (.derive forced)).2 = .edge derived ∧
      Lineage declared (crossed ++ [(3, .derive forced)]) derived [forced, upgraded, forced]) ∧
    (∃ e, (after declared crossed).node? 3 = some (.module e) ∧
      e.view = { declared.view with
        selector := ⟨"org.example", "lib", Version.Constraint.strictlyAt "2.0"⟩
        reason := some "forced" }) ∧
    (after declared crossed).node? 3 = (after declared crossed).node? 4 := by
  obtain ⟨complete, progress, seen, equal⟩ := derivations_compose declared
  refine ⟨complete crossed 4 _ lineage_four.node?, ?_, ?_, ?_⟩
  · exact progress crossed 3 [forced, upgraded] forced lineage_three
  · obtain ⟨e, found, view⟩ := seen crossed 3 [forced, upgraded] lineage_three
    exact ⟨e, found, view.trans rfl⟩
  · exact equal _ _ _ _ _ _ lineage_three lineage_four rfl

/-- **Derivations never change what an edge selects**: every module edge answers every selection
as the first one does. -/
theorem selection_survives_derivation {root e : Edge} {requests : List (Nat × Request)}
    {handle : Nat} (found : (after root requests).node? handle = some (.module e))
    (consumer : Attributes) (target : Component) (schema : Schema) :
    e.select consumer target schema = root.select consumer target schema ∧
    ((after root requests).step handle (.select consumer target schema)).2 =
      ((start root).step 0 (.select consumer target schema)).2 := by
  obtain ⟨l, rfl⟩ := exists_relabel found
  have same : (root.relabel l).select = root.select := root.select_relabel l
  rw [same, step, found, step, node?_start]
  simp only [stepModule, same]
  exact ⟨trivial, by cases root.select consumer target schema <;> rfl⟩

namespace Example

/-- `default` extends `runtime`, which the target has. -/
def library : Component :=
  Component.ofEntries (.module ⟨"org.example", "lib", "1.0"⟩) .external
    [.configuration (Configuration.named "runtime"),
      .configuration ((Configuration.named "default").extend ["runtime"])]

end Example

open Example in
theorem selection_survives_derivation_crossed :
    ∃ e, (after declared crossed).node? 3 = some (.module e) ∧ e.selector ≠ declared.selector ∧
      e.select NameMap.empty library NameMap.empty =
        .ok [Configuration.named "runtime", (Configuration.named "default").extend ["runtime"]] := by
  refine ⟨_, lineage_three.node?, by decide +kernel, ?_⟩
  have same := (selection_survives_derivation lineage_three.node? NameMap.empty library
    NameMap.empty).1
  exact same.trans (by cbv)

end Session
end EdgeResolution
