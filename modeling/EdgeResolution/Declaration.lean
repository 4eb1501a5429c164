/-
# EdgeResolution.Declaration -- a declared dependency, whatever its format

The two formats differ in how they select configurations by name and in what they
limit to configurations.  Retargeting replaces the selector and keeps the rest.
-/
import EdgeResolution.Declaration.Ivy
import EdgeResolution.Declaration.Maven

namespace EdgeResolution

set_option autoImplicit false

inductive Declaration where
  | maven (d : MavenDeclaration)
  | ivy (d : IvyDeclaration)
  deriving DecidableEq

namespace Declaration

def selector : Declaration → Selector.Module
  | .maven d => d.selector
  | .ivy d => d.selector

def retarget (selector : Selector.Module) : Declaration → Declaration
  | .maven d => .maven (d.retarget selector)
  | .ivy d => .ivy (d.retarget selector)

/-- The configurations of the target that the format selects by name. -/
def selectByName : Declaration → Requester → Component → Except Failure (List Configuration)
  | .maven _, r, target => MavenDeclaration.selectByName r target
  | .ivy d, r, target => d.selectByName r target

/-- The artifacts asked for explicitly by a source configuration with this hierarchy. -/
def artifactsFor (hierarchy : List String) : Declaration → List Artifact
  | .maven d => d.artifact.toList
  | .ivy d => d.artifactsFor hierarchy

/-- The exclusions active for a source configuration with this hierarchy. -/
def exclusionsFor (hierarchy : List String) : Declaration → List Exclusion
  | .maven d => d.exclusions
  | .ivy d => d.exclusionsFor hierarchy

def isChanging : Declaration → Bool
  | .maven _ => false
  | .ivy d => d.isChanging

def isTransitive : Declaration → Bool
  | .maven _ => true
  | .ivy d => d.isTransitive

def isOptional : Declaration → Bool
  | .maven d => d.isOptional
  | .ivy d => d.isOptional

end Declaration
end EdgeResolution
