/-
# EdgeResolution.Strategy -- by attributes or by name

A target without variants is selected from by configuration name.  One with
variants is matched by attributes when the consumer asks for any, or when the
target was published: a published component has no default configuration to fall
back on.
-/
import EdgeResolution.Component

namespace EdgeResolution

set_option autoImplicit false

inductive Strategy where
  | byAttributes
  | byName
  deriving DecidableEq, Repr

namespace Strategy

def choose (hasVariants hasAttributes : Bool) (origin : Origin) : Strategy :=
  if hasVariants && (hasAttributes || origin == .external) then .byAttributes else .byName

def forTarget (consumer : Attributes) (target : Component) : Strategy :=
  choose (!target.variants.isEmpty) (!consumer.isEmpty) target.origin

end Strategy
end EdgeResolution
