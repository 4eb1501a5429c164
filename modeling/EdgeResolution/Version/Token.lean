/-
# EdgeResolution.Version.Token -- the pieces of a version

A version is read as the sequence of its pieces between `.` and `-`; empty pieces
do not count.  A piece is one of three kinds:

* a number: ASCII digits, an optional `+` before them, of at most 64 bits;
* a qualifier: one of the fixed spellings of `Qualifier.spellings`, whatever the
  case of its ASCII letters;
* a word: anything else, longer numbers and other scripts' digits included.
-/
import EdgeResolution.Text.Lower

namespace EdgeResolution.Version

set_option autoImplicit false

/-! ## Qualifiers -/

/-- The qualifiers that have a place of their own in the order of versions. -/
inductive Qualifier where
  | alpha
  | beta
  | milestone
  | candidate
  | snapshot
  | release
  | servicePack
  deriving DecidableEq, Repr

namespace Qualifier

def all : List Qualifier :=
  [.alpha, .beta, .milestone, .candidate, .snapshot, .release, .servicePack]

/-- How a qualifier is written, in lower case. -/
def spellings : Qualifier → List String
  | .alpha => ["alpha", "a"]
  | .beta => ["beta", "b"]
  | .milestone => ["milestone", "m"]
  | .candidate => ["rc", "cr"]
  | .snapshot => ["snapshot"]
  | .release => ["ga", "final", "release"]
  | .servicePack => ["sp"]

/-- Place in the order of qualifiers, from the earliest to the latest. -/
def rank : Qualifier → Nat
  | .alpha => 0
  | .beta => 1
  | .milestone => 2
  | .candidate => 3
  | .snapshot => 4
  | .release => 5
  | .servicePack => 6

/-- A qualifier that is not before the release it qualifies. -/
def atLeastRelease (q : Qualifier) : Bool := decide (release.rank ≤ q.rank)

/-- The qualifier that a piece spells, ASCII case aside. -/
def read? (piece : List Char) : Option Qualifier :=
  all.find? fun q => q.spellings.contains (String.ofList (piece.map Char.toLower))

theorem mem_all (q : Qualifier) : q ∈ all := by cases q <;> decide

end Qualifier

/-! ## Numbers -/

/-- Numbers of a version have 64 bits; `numberLimit` is the first that has more. -/
def numberLimit : Nat := 18446744073709551616

/-- The number written by decimal digits, the most significant first. -/
def digitsValue (digits : List Char) : Nat :=
  digits.foldl (fun value d => value * 10 + (d.toNat - '0'.toNat)) 0

/-- The piece without one leading plus sign. -/
def unsigned : List Char → List Char
  | '+' :: rest => rest
  | piece => piece

def readNumber? (piece : List Char) : Option Nat :=
  let digits := unsigned piece
  if digits ≠ [] ∧ digits.all Char.isDigit ∧ digitsValue digits < numberLimit then
    some (digitsValue digits)
  else none

/-! ## Tokens -/

inductive Token where
  | number (value : Nat)
  | qualifier (q : Qualifier)
  | word (text : String)
  deriving DecidableEq, Repr

def Token.read (piece : List Char) : Token :=
  match readNumber? piece with
  | some n => .number n
  | none =>
      match Qualifier.read? piece with
      | some q => .qualifier q
      | none => .word (String.ofList piece)

def isSeparator (c : Char) : Bool := c == '.' || c == '-'

/-- The pieces of a version that hold something, in order. -/
def pieces (version : String) : List (List Char) :=
  (version.toList.splitOnP isSeparator).filter fun piece => !piece.isEmpty

def tokens (version : String) : List Token := (pieces version).map Token.read

example : tokens "1.0-RC.x" = [.number 1, .number 0, .qualifier .candidate, .word "x"] := by
  decide +kernel

/-- The largest number, and its successor, which is a word. -/
example : tokens "+18446744073709551615-18446744073709551616" =
    [.number 18446744073709551615, .word "18446744073709551616"] := by decide +kernel

end EdgeResolution.Version
