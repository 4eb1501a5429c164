/-
# EdgeResolution.Version.Range -- intervals of versions

A range is written in brackets: `[1.0,2.0)` from 1.0 on and before 2.0, `(,2.0]`
without a lower end, `[1.5]` for 1.5 alone.  A square bracket includes its end, a
round one leaves it out.  Only the first comma separates; blanks around the whole
and around each end do not count.
-/
import EdgeResolution.Text.Blank
import EdgeResolution.Version.Order

namespace EdgeResolution.Version

set_option autoImplicit false

/-- One end of a range. -/
structure Bound where
  version : String
  inclusive : Bool
  deriving DecidableEq, Repr

/-- An interval; an end that is absent does not limit it. -/
structure Range where
  lower : Option Bound
  upper : Option Bound
  deriving DecidableEq, Repr

namespace Bound

/-- The end written as `text`; a blank text is no end. -/
def read? (text : List Char) (inclusive : Bool) : Option Bound :=
  match Text.trimChars text with
  | [] => none
  | cs => some ⟨String.ofList cs, inclusive⟩

def admitsFromBelow (b : Bound) (candidate : String) : Bool :=
  match compare candidate b.version with
  | .lt => false
  | .eq => b.inclusive
  | .gt => true

def admitsFromAbove (b : Bound) (candidate : String) : Bool :=
  match compare candidate b.version with
  | .lt => true
  | .eq => b.inclusive
  | .gt => false

end Bound

namespace Range

/-- Does this opening bracket include its end?  `none` for another character. -/
def opening? : Char → Option Bool
  | '[' => some true
  | '(' => some false
  | _ => none

/-- Does this closing bracket include its end?  `none` for another character. -/
def closing? : Char → Option Bool
  | ']' => some true
  | ')' => some false
  | _ => none

/-- What stands before and after the first comma, if there is one. -/
def splitComma (cs : List Char) : Option (List Char × List Char) :=
  match cs.dropWhile (· != ',') with
  | [] => none
  | _ :: after => some (cs.takeWhile (· != ','), after)

/-- The range with this text between its brackets.  Without a comma the text names
both ends, and both are included whatever the brackets. -/
def ofInner? (inner : List Char) (lowerIn upperIn : Bool) : Option Range :=
  match splitComma inner with
  | some (before, after) => some ⟨Bound.read? before lowerIn, Bound.read? after upperIn⟩
  | none => (Bound.read? inner true).map fun b => ⟨some b, some b⟩

/-- Reads a bracketed range; `none` for any other text. -/
def read? (spec : String) : Option Range :=
  match Text.trimChars spec.toList with
  | [] => none
  | first :: rest => do
      let lowerIn ← opening? first
      let last ← rest.getLast?
      let upperIn ← closing? last
      ofInner? rest.dropLast lowerIn upperIn

def contains (r : Range) (candidate : String) : Bool :=
  r.lower.all (·.admitsFromBelow candidate) && r.upper.all (·.admitsFromAbove candidate)

example : read? " [1.0 , 2.0)" = some ⟨some ⟨"1.0", true⟩, some ⟨"2.0", false⟩⟩ := by
  decide +kernel

example : read? "(1.5)" = some ⟨some ⟨"1.5", true⟩, some ⟨"1.5", true⟩⟩ := by decide +kernel

end Range
end EdgeResolution.Version
