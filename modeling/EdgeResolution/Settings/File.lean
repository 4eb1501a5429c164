/-
# EdgeResolution.Settings.File -- settings as they are kept in a file

Settings are written in TOML.  `read` takes them from a text, `File.load` from what
is found at a path, and `File.loadOrDefault` falls back on the default settings when
nothing usable is there.
-/
import EdgeResolution.Stored
import EdgeResolution.Toml.Document

namespace EdgeResolution.Settings

set_option autoImplicit false

/-- Why settings cannot be used. -/
inductive Fault where
  | noFile
  | notAFile
  | notText
  | notToml
  | notSettings
  deriving DecidableEq, Repr

def Fault.message : Fault → String
  | .noFile => "Failed to read resolution config: there is no such file"
  | .notAFile => "Failed to read resolution config: it is a directory"
  | .notText => "Failed to read resolution config: it is not UTF-8 text"
  | .notToml => "Failed to parse resolution config: it is not a TOML document"
  | .notSettings => "Failed to parse resolution config: its values are not settings"

def Fault.failure (f : Fault) : Failure := .unusableSettings f.message

/-- The settings that a text gives. -/
def read (text : String) : Except Fault Settings :=
  match Toml.read? text with
  | none => .error .notToml
  | some d =>
      match Stored.read? .ignored d with
      | some s => .ok s
      | none => .error .notSettings

/-- What is found at a path. -/
inductive File where
  | missing
  | directory
  | content (bytes : ByteArray)

namespace File

def load : File → Except Fault Settings
  | .missing => .error .noFile
  | .directory => .error .notAFile
  | .content bytes =>
      match String.fromUTF8? bytes with
      | none => .error .notText
      | some text => read text

def loadOrDefault (f : File) : Settings :=
  match f.load with
  | .ok s => s
  | .error _ => default

end File
end EdgeResolution.Settings
