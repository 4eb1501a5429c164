/-
# EdgeResolution.Text.CharClass -- classes of characters given by ranges of code points

The properties of the character standard are long unions of intervals.  A
`CharClass` lists the intervals, both ends included.
-/

namespace EdgeResolution.Text

set_option autoImplicit false

abbrev CharClass := List (Nat × Nat)

def CharClass.holds (k : CharClass) (c : Char) : Bool :=
  k.any fun range => decide (range.1 ≤ c.toNat) && decide (c.toNat ≤ range.2)

end EdgeResolution.Text
