/-
# EdgeResolution.Proofs.Edge.Derivation -- a derivation changes the label of an edge

The label of an edge is its selector and its reason.  A `Change` is one derivation
asked of a module edge, and `Change.on` what it is meant to do to a label:

* `derive_eq`: a derivation notices whether that label differs from the edge's own, and
  puts it on the edge if so;
* `derive_eq_same_iff`: it finds nothing to do exactly when the change asks for what
  the edge has already, part by part (`Change.IsVoid`).

`relabel` puts a label on an edge.  `view_relabel` and `select_relabel` are what it
leaves alone: everything that an edge tells besides its label, and what it selects.
-/
import EdgeResolution.Edge

namespace EdgeResolution

set_option autoImplicit false

/-! ## Retargeting a declaration -/

namespace Declaration

variable (selector other : Selector.Module) (d : Declaration)

@[simp] theorem selector_retarget : (d.retarget selector).selector = selector := by
  cases d <;> rfl

@[simp] theorem retarget_retarget : (d.retarget selector).retarget other = d.retarget other := by
  cases d <;> rfl

@[simp] theorem retarget_selector : d.retarget d.selector = d := by
  cases d <;> rfl

@[simp] theorem artifactsFor_retarget (hierarchy : List String) :
    (d.retarget selector).artifactsFor hierarchy = d.artifactsFor hierarchy := by
  cases d <;> rfl

@[simp] theorem exclusionsFor_retarget (hierarchy : List String) :
    (d.retarget selector).exclusionsFor hierarchy = d.exclusionsFor hierarchy := by
  cases d <;> rfl

@[simp] theorem isChanging_retarget : (d.retarget selector).isChanging = d.isChanging := by
  cases d <;> rfl

@[simp] theorem isTransitive_retarget :
    (d.retarget selector).isTransitive = d.isTransitive := by
  cases d <;> rfl

@[simp] theorem isOptional_retarget : (d.retarget selector).isOptional = d.isOptional := by
  cases d <;> rfl

/-- The selector has no part in what a format selects by name. -/
@[simp] theorem selectByName_retarget :
    (d.retarget selector).selectByName = d.selectByName := by
  cases d <;> rfl

end Declaration

namespace Edge

/-! ## Labels and changes -/

/-- What derivations change of an edge. -/
structure Label where
  selector : Selector.Module
  reason : Option String
  deriving DecidableEq

def label (e : Edge) : Label := ⟨e.selector, e.reason⟩

/-- One derivation of a module edge that gives a module edge again. -/
inductive Change where
  | withSelector (selector : Selector.Module)
  | withVersion (version : Version.Constraint)
  | withReason (reason : Option String)
  deriving DecidableEq

namespace Change

/-- What a change does to a label: it replaces the selector, only its version, or the reason. -/
def on : Change → Label → Label
  | .withSelector selector, l => { l with selector := selector }
  | .withVersion version, l => { l with selector := { l.selector with version := version } }
  | .withReason reason, l => { l with reason := reason }

/-- The label after several changes, the first one first. -/
def onAll (changes : List Change) (l : Label) : Label := changes.foldl (fun l c => c.on l) l

/-- The constraints agree in all that they may name. -/
def SameConstraint (v w : Version.Constraint) : Prop :=
  v.require = w.require ∧ v.prefer = w.prefer ∧ v.strictly = w.strictly ∧
    v.reject = w.reject ∧ v.branch = w.branch

/-- The change asks for what the edge has already. -/
def IsVoid (e : Edge) : Change → Prop
  | .withSelector s =>
      s.group = e.selector.group ∧ s.module = e.selector.module ∧
        SameConstraint s.version e.selector.version
  | .withVersion v => SameConstraint v e.selector.version
  | .withReason reason => reason = e.reason

theorem sameConstraint_iff {v w : Version.Constraint} : SameConstraint v w ↔ v = w := by
  cases v
  cases w
  simp [SameConstraint]

theorem isVoid_iff {e : Edge} {c : Change} : c.IsVoid e ↔ c.on e.label = e.label := by
  cases c with
  | withSelector s =>
      obtain ⟨group, name, version⟩ := s
      cases own : e.selector
      simp [IsVoid, on, label, own, sameConstraint_iff]
  | withVersion v =>
      cases own : e.selector
      simp [IsVoid, on, label, own, sameConstraint_iff]
  | withReason reason => simp [IsVoid, on, label]

instance (e : Edge) (c : Change) : Decidable (c.IsVoid e) := decidable_of_iff _ isVoid_iff.symm

@[simp] theorem onAll_nil (l : Label) : onAll [] l = l := rfl

@[simp] theorem onAll_concat (changes : List Change) (c : Change) (l : Label) :
    onAll (changes ++ [c]) l = c.on (onAll changes l) := by
  simp [onAll]

end Change

/-- The derivation that a change asks for. -/
def derive (e : Edge) : Change → Derived
  | .withSelector selector => e.withSelector selector
  | .withVersion version => e.withVersion version
  | .withReason reason => e.withReason reason

/-! ## Edges under another label -/

/-- The edge with this selector and reason, and all else as it was. -/
def relabel (e : Edge) (l : Label) : Edge :=
  { e with declaration := e.declaration.retarget l.selector, reason := l.reason }

variable (e : Edge) (l : Label) (c : Change)

@[simp] theorem label_relabel : (e.relabel l).label = l := by
  simp [relabel, label, selector]

@[simp] theorem relabel_label : e.relabel e.label = e := by
  simp [relabel, label, selector]

@[simp] theorem relabel_relabel (k : Label) : (e.relabel l).relabel k = e.relabel k := by
  simp [relabel]

theorem derive_eq : e.derive c = if c.on e.label = e.label then .same
    else .changed (e.relabel (c.on e.label)) := by
  cases c with
  | withSelector s => simp [derive, withSelector, Change.on, label, relabel]
  | withVersion v =>
      cases own : e.selector
      simp [derive, withVersion, Change.on, label, relabel, own, Selector.Module.withVersion]
  | withReason reason =>
      have kept : e.declaration.retarget e.selector = e.declaration := e.declaration.retarget_selector
      simp [derive, withReason, Change.on, label, relabel, kept]

theorem derive_eq_same_iff : e.derive c = .same ↔ c.IsVoid e := by
  rw [derive_eq, Change.isVoid_iff]
  split
  · next void => simp [void]
  · next news => simp [news]

theorem derive_eq_changed_iff {f : Edge} :
    e.derive c = .changed f ↔ ¬ c.IsVoid e ∧ f = e.relabel (c.on e.label) := by
  rw [derive_eq, Change.isVoid_iff]
  split
  · next void => simp [void]
  · next news =>
      rw [Derived.changed.injEq]
      exact ⟨fun same => ⟨news, same.symm⟩, fun same => same.2.symm⟩

/-! ## What a label has no part in -/

/-- All that can be asked of a module edge, a selection apart. -/
structure View where
  selector : Selector.Module
  reason : Option String
  configuration : Configuration
  component : ModuleId
  artifacts : List Artifact
  exclusions : List Exclusion
  isChanging : Bool
  isTransitive : Bool
  isPending : Bool
  deriving DecidableEq

def view (e : Edge) : View where
  selector := e.selector
  reason := e.reason
  configuration := e.requester.configuration
  component := e.requester.component
  artifacts := e.artifacts
  exclusions := e.exclusions
  isChanging := e.isChanging
  isTransitive := e.isTransitive
  isPending := e.isPending

theorem view_relabel :
    (e.relabel l).view = { e.view with selector := l.selector, reason := l.reason } := by
  simp [view, relabel, selector, artifacts, exclusions, isChanging, isTransitive, isPending]

/-- What an edge selects, and how its failures are told, does not depend on its label. -/
theorem select_relabel : (e.relabel l).select = e.select := by
  funext consumer target schema
  simp [select, relabel]

end Edge
end EdgeResolution
