/-
# EdgeResolution.Edge -- a dependency bound to the configuration that declares it

An edge is a declaration together with its requester and, once something forced a
change, the reason for it.  It selects the configurations of a target either by
attribute matching or by name.  A derivation changes the selector or the reason of
an edge and nothing else; one that would change nothing says so (`Derived.same`),
so that whoever keeps edges can recognise the one it already has.
-/
import EdgeResolution.Declaration
import EdgeResolution.Matching
import EdgeResolution.Strategy

namespace EdgeResolution

set_option autoImplicit false

structure Edge where
  requester : Requester
  declaration : Declaration
  reason : Option String
  deriving DecidableEq

namespace Edge

def selector (e : Edge) : Selector.Module := e.declaration.selector

def text (e : Edge) : String := e.requester.text ++ " -> " ++ e.selector.text

def artifacts (e : Edge) : List Artifact :=
  e.declaration.artifactsFor e.requester.configuration.hierarchy

def exclusions (e : Edge) : List Exclusion :=
  e.declaration.exclusionsFor e.requester.configuration.hierarchy

def isChanging (e : Edge) : Bool := e.declaration.isChanging

def isTransitive (e : Edge) : Bool := e.declaration.isTransitive

/-- An optional dependency waits until something else asks for its module. -/
def isPending (e : Edge) : Bool := e.declaration.isOptional

/-! ## Selection -/

/-- A failed match, attributed to the requester. -/
def mismatch (r : Requester) (consumer : Attributes) (target : Component) : Mismatch → Failure
  | .noneCompatible => .noMatchingVariant r.text target.id.text consumer.text
  | .tie names => .ambiguousVariant r.text target.id.text names

/-- Selection by name that came to nothing is a failure. -/
def requireSome (r : Requester) (target : Component) :
    List Configuration → Except Failure (List Configuration)
  | [] => .error (.nothingSelected r.text target.id.text)
  | selected => .ok selected

/-- The configurations of the target that satisfy the edge. -/
def select (e : Edge) (consumer : Attributes) (target : Component) (schema : Schema) :
    Except Failure (List Configuration) :=
  match Strategy.forTarget consumer target with
  | .byAttributes =>
      match Matching.select schema consumer target.variants with
      | .ok v => .ok [v]
      | .error m => .error (mismatch e.requester consumer target m)
  | .byName => do
      requireSome e.requester target (← e.declaration.selectByName e.requester target)

/-! ## Derivation -/

/-- What a derivation comes to. -/
inductive Derived where
  | same
  | changed (e : Edge)
  deriving DecidableEq

def withSelector (e : Edge) (selector : Selector.Module) : Derived :=
  if selector = e.selector then .same
  else .changed { e with declaration := e.declaration.retarget selector }

def withVersion (e : Edge) (version : Version.Constraint) : Derived :=
  if version = e.selector.version then .same
  else .changed { e with declaration := e.declaration.retarget (e.selector.withVersion version) }

def withReason (e : Edge) (reason : Option String) : Derived :=
  if reason = e.reason then .same else .changed { e with reason := reason }

/-- The failure of pointing a module edge at a library binary. -/
def libraryFailure (e : Edge) (library : Selector.Library) : Failure :=
  .invalidSelector ("unexpected selector provided for " ++ e.text ++ ": " ++ library.text)

end Edge
end EdgeResolution
