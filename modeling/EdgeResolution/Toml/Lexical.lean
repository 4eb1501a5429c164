/-
# EdgeResolution.Toml.Lexical -- blanks, line ends, comments and keys

Within a line only spaces and tabs separate.  A line ends with a line feed, alone
or after a carriage return; a carriage return is nothing by itself.  A comment runs
to the end of its line and holds no control character but the tab.
-/
import EdgeResolution.Toml.Reader

namespace EdgeResolution.Toml

set_option autoImplicit false

open Reader

/-! ## Classes of characters -/

def commentChars : Text.CharClass := [(0x09, 0x09), (0x20, 0x7E), (0x80, 0x10FFFF)]

/-- What stands for itself between double quotes: no quote, no backslash. -/
def basicChars : Text.CharClass :=
  [(0x09, 0x09), (0x20, 0x21), (0x23, 0x5B), (0x5D, 0x7E), (0x80, 0x10FFFF)]

/-- What stands for itself between single quotes. -/
def literalChars : Text.CharClass := [(0x09, 0x09), (0x20, 0x26), (0x28, 0x7E), (0x80, 0x10FFFF)]

def isSpace (c : Char) : Bool := c == ' ' || c == '\t'

/-! ## Blanks and lines -/

def spaces : Reader Unit := discard (run isSpace)

def newline : Reader Unit := char '\n' <|> literal ['\r', '\n']

def comment : Reader Unit := do
  char '#'
  discard (run commentChars.holds)

def lineEnd : Reader Unit := newline <|> atEnd

/-- What may follow an item on its line. -/
def trailing : Reader Unit := do
  spaces
  discard (skip comment)
  lineEnd

/-- Spaces, lines and comments, as they may stand between the items of an array. -/
def fillers : Reader Unit :=
  discard (many (discard (one isSpace) <|> newline <|> comment))

/-! ## Digits -/

/-- Digits of a class, single underscores between them allowed. -/
def digits (isDigit : Char → Bool) : Reader (List Char) := do
  let first ← one isDigit
  let more ← many (do discard (skip (char '_')); one isDigit)
  return first :: more

/-- The value of a hexadecimal digit. -/
def hexValue? (c : Char) : Option Nat :=
  if c.isDigit then some (c.toNat - '0'.toNat)
  else if 'a' ≤ c ∧ c ≤ 'f' then some (c.toNat - 'a'.toNat + 10)
  else if 'A' ≤ c ∧ c ≤ 'F' then some (c.toNat - 'A'.toNat + 10)
  else none

def isHexDigit (c : Char) : Bool := (hexValue? c).isSome

/-- The number that digits of a base write, the most significant first. -/
def valueIn (base : Nat) (cs : List Char) : Nat :=
  cs.foldl (fun value c => value * base + (hexValue? c).getD 0) 0

end EdgeResolution.Toml
