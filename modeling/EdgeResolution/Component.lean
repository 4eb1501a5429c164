/-
# EdgeResolution.Component -- components, their configurations and their variants

A `Configuration` is a named group of artifacts that may extend others; its
hierarchy is its own name followed by the names it declares to extend, each once.
A `Component` holds configurations by name, and a list of variants: the
configurations that take part in attribute matching.  Every configuration is held
under its own name (`Component.held_name`); a later one replaces an earlier one of
the same name, but never a variant.
-/
import EdgeResolution.Artifact
import EdgeResolution.Attributes

namespace EdgeResolution

set_option autoImplicit false

/-! ## Identifiers -/

/-- A published module at one version. -/
structure ModuleId where
  group : String
  module : String
  version : String
  deriving DecidableEq, Repr

def ModuleId.text (id : ModuleId) : String := id.group ++ ":" ++ id.module ++ ":" ++ id.version

/-- A project, by its path and the path of the build it belongs to. -/
structure ProjectPath where
  build : String
  project : String
  deriving DecidableEq, Repr

namespace ProjectPath

/-- The path of the build that is being resolved. -/
def rootBuild : String := ":"

/-- A project of the root build is named by its path alone. -/
def text (p : ProjectPath) : String :=
  "project " ++ (if p.build = rootBuild then "" else p.build) ++ p.project

end ProjectPath

inductive ComponentId where
  | module (id : ModuleId)
  | project (path : ProjectPath)
  deriving DecidableEq, Repr

def ComponentId.text : ComponentId → String
  | .module id => id.text
  | .project path => path.text

/-! ## Configurations -/

structure Configuration where
  name : String
  /-- The configurations it directly extends, in the order in which they were declared. -/
  parents : List String
  attributes : Attributes
  artifacts : List Artifact
  hasDependencies : Bool
  distinct : (name :: parents).Nodup
  deriving DecidableEq

namespace Configuration

/-- The configuration's own name, then the names it extends. -/
def hierarchy (c : Configuration) : List String := c.name :: c.parents

def named (name : String) : Configuration :=
  ⟨name, [], NameMap.empty, [], false, by simp⟩

/-- Extend one more configuration; a name already in the hierarchy adds nothing. -/
def addParent (c : Configuration) (parent : String) : Configuration :=
  if fresh : parent ∈ c.name :: c.parents then c
  else
    { c with
      parents := c.parents ++ [parent]
      distinct := by
        rw [← List.cons_append, List.nodup_append]
        refine ⟨c.distinct, by simp, fun name mem other same => ?_⟩
        rw [List.mem_singleton.1 same]
        exact fun h => fresh (h ▸ mem) }

def extend (c : Configuration) (parents : List String) : Configuration :=
  parents.foldl addParent c

def withAttributes (c : Configuration) (attributes : Attributes) : Configuration :=
  { c with attributes := attributes }

def addArtifact (c : Configuration) (artifact : Artifact) : Configuration :=
  { c with artifacts := c.artifacts ++ [artifact] }

def withDependencies (c : Configuration) (has : Bool) : Configuration :=
  { c with hasDependencies := has }

end Configuration

/-! ## Components -/

/-- Where the metadata of a component comes from: a repository, or a project of the build. -/
inductive Origin where
  | external
  | project
  deriving DecidableEq, Repr

structure Component where
  id : ComponentId
  origin : Origin
  configurations : NameMap Configuration
  /-- The configurations that take part in attribute matching, in order of declaration. -/
  variants : List Configuration
  held_name : ∀ name c, configurations.get? name = some c → c.name = name
  deriving DecidableEq

namespace Component

def empty (id : ComponentId) (origin : Origin) : Component :=
  ⟨id, origin, NameMap.empty, [], by simp⟩

/-- Hold a configuration, reachable by its name. -/
def addConfiguration (t : Component) (c : Configuration) : Component :=
  { t with
    configurations := t.configurations.insert c.name c
    held_name := by
      intro name d found
      rw [NameMap.get?_insert] at found
      split at found
      · next same => cases found; exact same.symm
      · exact t.held_name name d found }

/-- Hold a variant: a configuration that also takes part in attribute matching. -/
def addVariant (t : Component) (v : Configuration) : Component :=
  let held := t.addConfiguration v
  { held with variants := held.variants ++ [v] }

/-- One declaration of a component. -/
inductive Entry where
  | configuration (c : Configuration)
  | variant (v : Configuration)
  deriving DecidableEq

def add (t : Component) : Entry → Component
  | .configuration c => t.addConfiguration c
  | .variant v => t.addVariant v

/-- The component with these declarations, in order. -/
def ofEntries (id : ComponentId) (origin : Origin) (entries : List Entry) : Component :=
  entries.foldl add (empty id origin)

def configuration? (t : Component) (name : String) : Option Configuration :=
  t.configurations.get? name

theorem name_of_configuration? {t : Component} {name : String} {c : Configuration}
    (found : t.configuration? name = some c) : c.name = name :=
  t.held_name name c found

end Component
end EdgeResolution
