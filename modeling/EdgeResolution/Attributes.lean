/-
# EdgeResolution.Attributes -- what a consumer asks for and what a variant offers

An attribute set gives each of finitely many names one value.  Sets are laid over
each other with `NameMap.merged`; their text lists the names in ascending order.
-/
import EdgeResolution.NameMap

namespace EdgeResolution

set_option autoImplicit false

abbrev Attributes := NameMap String

/-- The set in braces, `name=value` by `name=value`. -/
def Attributes.text (a : Attributes) : String :=
  "\x7b" ++ String.intercalate ", " (a.entries.map fun e => e.1 ++ "=" ++ e.2) ++ "\x7d"

example : Attributes.text (NameMap.ofList [("usage", "api"), ("kind", "jar"), ("usage", "run")]) =
    "\x7bkind=jar, usage=run\x7d" := by decide

end EdgeResolution
