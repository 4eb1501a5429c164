/-
# EdgeResolution.Artifact -- published files, and what is left out of a graph

An `Artifact` is one file that a component publishes.  An `Exclusion` leaves
modules out of what a dependency brings along: a part that it does not name
matches anything, and it may be limited to some source configurations.
-/

namespace EdgeResolution

set_option autoImplicit false

structure Artifact where
  name : String
  kind : String
  extension : Option String
  classifier : Option String
  deriving DecidableEq, Repr

namespace Artifact

/-- The archive that a module of this name publishes by default. -/
def jar (name : String) : Artifact := ⟨name, "jar", some "jar", none⟩

def withClassifier (a : Artifact) (classifier : String) : Artifact :=
  { a with classifier := some classifier }

/-- The name under which the file is published; its kind stands in for an absent extension. -/
def fileName (a : Artifact) : String :=
  a.name ++ (match a.classifier with | some c => "-" ++ c | none => "") ++ "." ++
    a.extension.getD a.kind

end Artifact

structure Exclusion where
  group : Option String
  module : Option String
  artifact : Option String
  configurations : List String
  deriving DecidableEq, Repr

namespace Exclusion

/-- Leaves out a group, or one module of it. -/
def ofGroup (group : String) (module : Option String) : Exclusion := ⟨some group, module, none, []⟩

def inConfigurations (rule : Exclusion) (names : List String) : Exclusion :=
  { rule with configurations := names }

/-- Is the rule active for a source configuration with this hierarchy? -/
def appliesTo (rule : Exclusion) (hierarchy : List String) : Bool :=
  rule.configurations.isEmpty || rule.configurations.any hierarchy.contains

def covers (rule : Exclusion) (group module : String) : Bool :=
  rule.group.all (· == group) && rule.module.all (· == module)

end Exclusion
end EdgeResolution
