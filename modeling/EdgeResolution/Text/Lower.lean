/-
# EdgeResolution.Text.Lower -- lower-casing a text

Each character goes to its lower-case partner, with the two exceptions of the
standard's full mapping: the capital I with a dot becomes an `i` followed by the
combining dot, and a capital sigma takes its final form at the end of a word.
A sigma ends a word when, looking through case-ignorable characters, a cased
character stands before it and none after it.
-/
import EdgeResolution.Text.Letter

namespace EdgeResolution.Text

set_option autoImplicit false

def capitalSigma : Char := '\u03A3'

def capitalDottedI : Char := '\u0130'

/-- Is the nearest character that is not case-ignorable a cased one? -/
def nearestIsCased (cs : List Char) : Bool :=
  match cs.dropWhile isCaseIgnorable with
  | [] => false
  | c :: _ => isCased c

/-- The lower-case form of one character, given what stands before it (nearest
first) and after it. -/
def lowerAt (before : List Char) (c : Char) (after : List Char) : List Char :=
  if c = capitalSigma then
    if nearestIsCased before && !nearestIsCased after then ['\u03C2'] else ['\u03C3']
  else if c = capitalDottedI then ['i', '\u0307']
  else [lowerPartner c]

def lowerFrom : List Char → List Char → List Char
  | _, [] => []
  | before, c :: after => lowerAt before c after ++ lowerFrom (c :: before) after

/-- The text in lower case. -/
def lower (s : String) : String := String.ofList (lowerFrom [] s.toList)

example : lower "ΟΔΟΣ" = "οδος" := by decide +kernel

example : lower "ΣΑΣ.Σ" = "σασ.ς" := by decide +kernel

end EdgeResolution.Text
