/-
# EdgeResolution.Schema -- rules on the values of attributes

For each attribute a schema may list pairs of a consumer value and a producer value
that go together though they differ, and producer values in order of preference.
Declarations for one attribute do not touch another's.
-/
import EdgeResolution.NameMap

namespace EdgeResolution

set_option autoImplicit false

/-- The rules on one attribute. -/
structure AttributeRule where
  /-- Consumer value and producer value, accepted besides equal ones. -/
  compatible : List (String × String)
  /-- Producer values, the most wanted first. -/
  prefer : List String
  deriving DecidableEq, Repr

def AttributeRule.empty : AttributeRule := ⟨[], []⟩

abbrev Schema := NameMap AttributeRule

namespace Schema

/-- Accept `producer` where a consumer asks for `consumer`. -/
def allow (s : Schema) (name consumer producer : String) : Schema :=
  s.upsert name fun rule =>
    let rule := rule.getD .empty
    { rule with compatible := rule.compatible ++ [(consumer, producer)] }

/-- Prefer `value` to all values that are declared after it, or not at all. -/
def favour (s : Schema) (name value : String) : Schema :=
  s.upsert name fun rule =>
    let rule := rule.getD .empty
    { rule with prefer := rule.prefer ++ [value] }

def accepts (s : Schema) (name consumer producer : String) : Bool :=
  consumer == producer ||
    (s.get? name).any fun rule => rule.compatible.contains (consumer, producer)

/-- Place of a value among the preferred ones of its attribute; the lower, the better. -/
def rank? (s : Schema) (name value : String) : Option Nat :=
  (s.get? name).bind fun rule => rule.prefer.idxOf? value

/-- The attributes that have preferences, in ascending order. -/
def preferred (s : Schema) : List String :=
  (s.entries.filter fun e => !e.2.prefer.isEmpty).map (·.1)

end Schema
end EdgeResolution
