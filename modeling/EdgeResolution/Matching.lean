/-
# EdgeResolution.Matching -- the one variant that fits a consumer best

A variant is compatible when every attribute that it shares with the consumer has
values that go together under the schema.  Of the compatible variants those stay
that match most attributes exactly, and then, attribute by attribute, those with
the most preferred value.  A preference counts only where some variant left has a
preferred value.  The choice succeeds when exactly one variant is left in the end.
-/
import EdgeResolution.Component
import EdgeResolution.Schema

namespace EdgeResolution

set_option autoImplicit false

/-- Why no single variant could be chosen. -/
inductive Mismatch where
  | noneCompatible
  | tie (names : List String)
  deriving DecidableEq, Repr

def Mismatch.message : Mismatch → String
  | .noneCompatible => "no compatible variant"
  | .tie names => "several variants match equally well: " ++ String.intercalate ", " names

namespace Matching

variable (schema : Schema) (consumer : Attributes)

def isCompatible (offered : Attributes) : Bool :=
  consumer.entries.all fun e => (offered.get? e.1).all (schema.accepts e.1 e.2)

/-- How many attributes of the consumer are offered with the very value it asks for. -/
def exactCount (offered : Attributes) : Nat :=
  consumer.entries.countP fun e => offered.get? e.1 == some e.2

/-- Place of the value that a variant offers among the preferred values of an attribute. -/
def rank? (name : String) (v : Configuration) : Option Nat :=
  (v.attributes.get? name).bind (schema.rank? name)

def keepMostExact (variants : List Configuration) : List Configuration :=
  let count (v : Configuration) := exactCount consumer v.attributes
  let most := (variants.map count).max?.getD 0
  variants.filter fun v => count v == most

def keepMostPreferred (variants : List Configuration) (name : String) : List Configuration :=
  match (variants.filterMap (rank? schema name)).min? with
  | none => variants
  | some best => variants.filter fun v => rank? schema name v == some best

/-- Attribute by attribute, until a single variant is left. -/
def narrow : List String → List Configuration → List Configuration
  | [], variants => variants
  | name :: names, variants =>
      if variants.length = 1 then variants
      else narrow names (keepMostPreferred schema variants name)

/-- The choice among several compatible variants. -/
def disambiguate (variants : List Configuration) : Except Mismatch Configuration :=
  match narrow schema schema.preferred (keepMostExact consumer variants) with
  | [v] => .ok v
  | tied => .error (.tie (tied.map (·.name)))

def select (variants : List Configuration) : Except Mismatch Configuration :=
  match variants.filter fun v => isCompatible schema consumer v.attributes with
  | [] => .error .noneCompatible
  | [v] => .ok v
  | several => disambiguate schema consumer several

end Matching
end EdgeResolution
