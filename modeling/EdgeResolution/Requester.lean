/-
# EdgeResolution.Requester -- who declares a dependency

A dependency is declared by a module, in one of its configurations.  Which
configurations of the target it reaches by name depends on both, and failures are
attributed to both.
-/
import EdgeResolution.Ancestry
import EdgeResolution.Failure

namespace EdgeResolution

set_option autoImplicit false

structure Requester where
  component : ModuleId
  configuration : Configuration
  deriving DecidableEq

namespace Requester

def text (r : Requester) : String := r.component.text ++ " (" ++ r.configuration.name ++ ")"

/-- The failure that a configuration asked for by this requester is missing. -/
def missing (r : Requester) (target : Component) (name : String) : Failure :=
  .configurationNotFound r.component.text r.configuration.name target.id.text name

/-- A configuration of the target that the requester depends on. -/
def find (r : Requester) (target : Component) (name : String) : Except Failure Configuration :=
  match target.configuration? name with
  | some c => .ok c
  | none => .error (r.missing target name)

/-- Configurations of the target with all their ancestors, ancestors first. -/
def expand (r : Requester) (target : Component) (selected : List Configuration) :
    Except Failure (List Configuration) :=
  (target.expand selected).mapError (r.missing target)

end Requester
end EdgeResolution
