/-
# EdgeResolution.Version.Order -- which of two versions is later

Versions are compared token by token (`Token.compare`), from the left, until two
tokens differ.  When one version has run out of tokens, what is left of the other
decides by itself (`Token.compareAbsent`): a number as against zero, a qualifier
as against a release, and a word makes its version the earlier one.  So trailing
zeros do not count.

Among unlike tokens a number is the latest.  A word lies below `release` and above
the qualifiers before it; two words are compared in lower case.
-/
import EdgeResolution.Version.Token

namespace EdgeResolution.Version

set_option autoImplicit false

namespace Token

/-- A token against one at the same place of the other version. -/
def compare : Token → Token → Ordering
  | .number m, .number n => Ord.compare m n
  | .number _, _ => .gt
  | _, .number _ => .lt
  | .qualifier p, .qualifier q => Ord.compare p.rank q.rank
  | .word v, .word w => Ord.compare (Text.lower v) (Text.lower w)
  | .qualifier q, .word _ => if q.atLeastRelease then .gt else .lt
  | .word _, .qualifier q => if q.atLeastRelease then .lt else .gt

/-- A token where the other version has none left. -/
def compareAbsent : Token → Ordering
  | .number n => Ord.compare n 0
  | .qualifier q => Ord.compare q.rank Qualifier.release.rank
  | .word _ => .lt

end Token

/-- The tokens of a version that goes on where the other has ended. -/
def compareRest : List Token → Ordering
  | [] => .eq
  | x :: xs => x.compareAbsent.then (compareRest xs)

def compareTokens : List Token → List Token → Ordering
  | [], ys => (compareRest ys).swap
  | x :: xs, [] => compareRest (x :: xs)
  | x :: xs, y :: ys => (x.compare y).then (compareTokens xs ys)

/-- The order of versions. -/
def compare (a b : String) : Ordering := compareTokens (tokens a) (tokens b)

example : compare "1.0" "1.0.0" = .eq := by decide +kernel

example : compare "1.0-SNAPSHOT" "1.0" = .lt := by decide +kernel

example : compare "31.0-jre" "31.0-Android" = .gt := by decide +kernel

end EdgeResolution.Version
