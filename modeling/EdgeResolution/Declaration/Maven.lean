/-
# EdgeResolution.Declaration.Maven -- dependencies declared in a POM

Selected by name, a dependency declared in `compile` takes the target's `compile`.
Declared anywhere else it takes `runtime`, and `compile` too unless `runtime`
extends it.  A `master` that holds anything is added to either.  Exclusions are not
limited to configurations, and nothing declared in a POM is changing.
-/
import EdgeResolution.Requester
import EdgeResolution.Selector

namespace EdgeResolution

set_option autoImplicit false

structure MavenDeclaration where
  selector : Selector.Module
  isOptional : Bool
  artifact : Option Artifact
  exclusions : List Exclusion
  deriving DecidableEq

namespace MavenDeclaration

def of (selector : Selector.Module) : MavenDeclaration := ⟨selector, false, none, []⟩

def retarget (d : MavenDeclaration) (selector : Selector.Module) : MavenDeclaration :=
  { d with selector := selector }

/-- The target's `master`, if it has artifacts or dependencies. -/
def master (target : Component) : List Configuration :=
  let holdsAnything (c : Configuration) := c.hasDependencies || !c.artifacts.isEmpty
  ((target.configuration? "master").filter holdsAnything).toList

/-- The `runtime`, and `compile` where `runtime` does not reach it. -/
def runtimeAndCompile (r : Requester) (target : Component) :
    Except Failure (List Configuration) := do
  let runtime ← r.find target "runtime"
  let reached ← r.expand target [runtime]
  if reached.any fun c => c.name == "compile" then .ok [runtime]
  else
    let compile ← r.find target "compile"
    .ok [runtime, compile]

def selectByName (r : Requester) (target : Component) : Except Failure (List Configuration) := do
  let chosen ←
    if r.configuration.name == "compile" then (r.find target "compile").map fun c => [c]
    else runtimeAndCompile r target
  r.expand target (chosen ++ master target)

end MavenDeclaration
end EdgeResolution
