/-
# EdgeResolution.Declaration.Ivy -- dependencies declared in a module descriptor

A declaration maps source configurations to target configurations.  On the source
side `*` stands for every configuration; on the target side it stands for every
configuration of the target, and `@` for the one named like the source.  Selection
by name goes through the source hierarchy in order: for each name first its own
targets, then those of `*`, each target once.

Artifacts and exclusions may be limited to source configurations; without a limit,
or with `*` among an artifact's, they hold in all.
-/
import EdgeResolution.Requester
import EdgeResolution.Selector

namespace EdgeResolution

set_option autoImplicit false

/-- The name that stands for every configuration, as a source and as a target. -/
def Ivy.everyName : String := "*"

/-- As a target, the configuration named like the source. -/
def Ivy.sameName : String := "@"

/-- An artifact and the source configurations that ask for it; with none, all do. -/
structure ScopedArtifact where
  artifact : Artifact
  configurations : List String
  deriving DecidableEq, Repr

/-- Does a source configuration with this hierarchy ask for the artifact? -/
def ScopedArtifact.appliesTo (a : ScopedArtifact) (hierarchy : List String) : Bool :=
  a.configurations.isEmpty ||
    a.configurations.any fun name => name == Ivy.everyName || hierarchy.contains name

structure IvyDeclaration where
  selector : Selector.Module
  mappings : NameMap (List String)
  artifacts : List ScopedArtifact
  exclusions : List Exclusion
  isChanging : Bool
  isTransitive : Bool
  isOptional : Bool
  deriving DecidableEq

namespace IvyDeclaration

def of (selector : Selector.Module) : IvyDeclaration :=
  ⟨selector, NameMap.empty, [], [], false, true, false⟩

def retarget (d : IvyDeclaration) (selector : Selector.Module) : IvyDeclaration :=
  { d with selector := selector }

/-- Append the items that are not there yet, in order. -/
def addNew {α : Type} [BEq α] (items more : List α) : List α :=
  more.foldl (fun acc x => if acc.contains x then acc else acc ++ [x]) items

/-- Map one more source configuration, or map it to more targets. -/
def map (d : IvyDeclaration) (source : String) (targets : List String) : IvyDeclaration :=
  { d with mappings := d.mappings.upsert source fun present => addNew (present.getD []) targets }

def addArtifact (d : IvyDeclaration) (artifact : Artifact) (configurations : List String) :
    IvyDeclaration :=
  { d with artifacts := d.artifacts ++ [⟨artifact, configurations⟩] }

/-! ## Selection by name -/

/-- The targets that are mapped from one source name, `@` read as that name. -/
def targetsOf (d : IvyDeclaration) (source : String) : List String :=
  ((d.mappings.get? source).getD [] ++ (d.mappings.get? Ivy.everyName).getD []).map fun target =>
    if target = Ivy.sameName then source else target

/-- Add a configuration unless one of its name is there. -/
def addByName (selected : List Configuration) (c : Configuration) : List Configuration :=
  if selected.any fun s => s.name == c.name then selected else selected ++ [c]

/-- Add what one mapped target stands for. -/
def addTarget (r : Requester) (target : Component) (selected : List Configuration) (name : String) :
    Except Failure (List Configuration) :=
  if name = Ivy.everyName then .ok (target.configurations.values.foldl addByName selected)
  else if selected.any fun s => s.name == name then .ok selected
  else (r.find target name).map fun c => selected ++ [c]

/-- The mapped configurations, before their ancestors are added. -/
def mapped (d : IvyDeclaration) (r : Requester) (target : Component) :
    Except Failure (List Configuration) :=
  (r.configuration.hierarchy.flatMap d.targetsOf).foldlM (addTarget r target) []

def selectByName (d : IvyDeclaration) (r : Requester) (target : Component) :
    Except Failure (List Configuration) := do
  r.expand target (← d.mapped r target)

/-! ## Artifacts and exclusions -/

def artifactsFor (d : IvyDeclaration) (hierarchy : List String) : List Artifact :=
  addNew [] ((d.artifacts.filter (·.appliesTo hierarchy)).map (·.artifact))

def exclusionsFor (d : IvyDeclaration) (hierarchy : List String) : List Exclusion :=
  d.exclusions.filter (·.appliesTo hierarchy)

end IvyDeclaration
end EdgeResolution
