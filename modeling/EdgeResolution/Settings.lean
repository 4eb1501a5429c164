/-
# EdgeResolution.Settings -- what a build sets once for all its dependencies

Settings give the attributes that every consumer asks for unless it overrides them,
and the schema on which variants are matched.
-/
import EdgeResolution.Attributes
import EdgeResolution.Failure
import EdgeResolution.Schema

namespace EdgeResolution

set_option autoImplicit false

structure Settings where
  attributes : Attributes
  schema : Schema
  deriving DecidableEq

namespace Settings

def default : Settings := ⟨NameMap.empty, NameMap.empty⟩

/-- What a consumer effectively asks for. -/
def consumerAttributes (s : Settings) (overrides : Attributes) : Attributes :=
  s.attributes.merged overrides

end Settings
end EdgeResolution
