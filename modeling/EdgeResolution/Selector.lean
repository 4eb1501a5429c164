/-
# EdgeResolution.Selector -- what a dependency can point at

A selector names a module and a constraint on its version, a project, or a library
binary of a project.  `Selector.read` reads the notations `group:module`,
`group:module:version` and `project :path`; libraries have no notation.
-/
import EdgeResolution.Component
import EdgeResolution.Version.Constraint

namespace EdgeResolution

set_option autoImplicit false

namespace Selector

structure Module where
  group : String
  module : String
  version : Version.Constraint
  deriving DecidableEq, Repr

namespace Module

def withVersion (s : Module) (version : Version.Constraint) : Module :=
  { s with version := version }

/-- The module without its version. -/
def key (s : Module) : String := s.group ++ ":" ++ s.module

def text (s : Module) : String :=
  s.key ++ (if s.version.isEmpty then "" else ":" ++ s.version.text)

/-- Is this the selected module, at a version that the selector accepts? -/
def selects (s : Module) (id : ModuleId) : Bool :=
  s.group == id.group && s.module == id.module && s.version.accepts id.version

end Module

/-- A project of the root build. -/
def inRootBuild (project : String) : ProjectPath := ⟨ProjectPath.rootBuild, project⟩

structure Library where
  project : String
  library : String
  variant : Option String
  deriving DecidableEq, Repr

def Library.text (s : Library) : String :=
  "library " ++ s.project ++ ":" ++ s.library ++
    (match s.variant with | some v => " (" ++ v ++ ")" | none => "")

end Selector

inductive Selector where
  | module (s : Selector.Module)
  | project (path : ProjectPath)
  | library (s : Selector.Library)
  deriving DecidableEq, Repr

namespace Selector

def text : Selector → String
  | .module s => s.text
  | .project path => path.text
  | .library s => s.text

/-! ## Notation -/

/-- Why a text is not a selector. -/
inductive Fault where
  | relativeProject (text : String)
  | notASelector (text : String)
  deriving DecidableEq, Repr

def Fault.message : Fault → String
  | .relativeProject text => "project path must start with ':' in '" ++ text ++ "'"
  | .notASelector text => "cannot parse '" ++ text ++ "' as a component selector"

def projectMark : List Char := "project ".toList

/-- The text after `project `, if it begins so. -/
def afterProjectMark? (cs : List Char) : Option (List Char) :=
  if projectMark.isPrefixOf cs then some (cs.drop projectMark.length) else none

/-- A module in its notation of two or three parts, none of them empty. -/
def moduleOfParts? : List (List Char) → Option Module
  | [group, name] =>
      if group.isEmpty || name.isEmpty then none
      else some ⟨String.ofList group, String.ofList name, Version.Constraint.free⟩
  | [group, name, version] =>
      if group.isEmpty || name.isEmpty || version.isEmpty then none
      else some ⟨String.ofList group, String.ofList name,
        Version.Constraint.requiring (String.ofList version)⟩
  | _ => none

def read (text : String) : Except Fault Selector :=
  let cs := Text.trimChars text.toList
  match afterProjectMark? cs with
  | some rest =>
      let path := Text.trimChars rest
      if path.head? = some ':' then .ok (.project (inRootBuild (String.ofList path)))
      else .error (.relativeProject text)
  | none =>
      match moduleOfParts? (cs.splitOn ':') with
      | some s => .ok (.module s)
      | none => .error (.notASelector text)

end Selector
end EdgeResolution
