/-
# EdgeResolution.Version.Pattern -- the notations for a choice of versions

One text chooses versions in one of four ways: any version at all (an empty text,
`+`, or `latest.` and a status), those whose text starts alike (`1.+`), those of a
range, or those equal to one version in the order of versions.
-/
import EdgeResolution.Version.Range

namespace EdgeResolution.Version

set_option autoImplicit false

inductive Pattern where
  | any
  | startingWith (text : String)
  | within (range : Range)
  | exactly (version : String)
  deriving DecidableEq, Repr

namespace Pattern

/-- What stands before a final plus sign. -/
def beforePlus? (cs : List Char) : Option (List Char) :=
  if cs.getLast? = some '+' then some cs.dropLast else none

def latestMark : List Char := ['l', 'a', 't', 'e', 's', 't', '.']

def isAny (cs : List Char) : Bool :=
  cs.isEmpty || cs == ['+'] || latestMark.isPrefixOf cs

/-- Every text is a pattern: what is neither of the other three is one version. -/
def read (text : String) : Pattern :=
  let cs := Text.trimChars text.toList
  if isAny cs then .any
  else
    match beforePlus? cs with
    | some start => .startingWith (String.ofList start)
    | none =>
        match Range.read? text with
        | some range => .within range
        | none => .exactly (String.ofList cs)

def accepts : Pattern → String → Bool
  | .any, _ => true
  | .startingWith text, candidate => text.toList.isPrefixOf candidate.toList
  | .within range, candidate => range.contains candidate
  | .exactly version, candidate => compare version candidate == .eq

end Pattern
end EdgeResolution.Version
