/-
# EdgeResolution.Text.Blank -- blank characters, and what is left without them

A character is blank when the standard's `White_Space` property holds of it: the
ASCII blanks, the next-line and no-break spaces, and the spaces and separators of
the general punctuation block.  The zero-width space and the byte order mark are
not blank.  `trim` removes the blanks at both ends of a text and nothing else.
-/
import EdgeResolution.Text.CharClass

namespace EdgeResolution.Text

set_option autoImplicit false

def blanks : CharClass :=
  [(0x09, 0x0D), (0x20, 0x20), (0x85, 0x85), (0xA0, 0xA0), (0x1680, 0x1680), (0x2000, 0x200A),
   (0x2028, 0x2029), (0x202F, 0x202F), (0x205F, 0x205F), (0x3000, 0x3000)]

def isBlank (c : Char) : Bool := blanks.holds c

def trimLeft (cs : List Char) : List Char := cs.dropWhile isBlank

def trimRight (cs : List Char) : List Char := (cs.reverse.dropWhile isBlank).reverse

def trimChars (cs : List Char) : List Char := trimRight (trimLeft cs)

/-- The text without the blanks at its ends. -/
def trim (s : String) : String := String.ofList (trimChars s.toList)

end EdgeResolution.Text
