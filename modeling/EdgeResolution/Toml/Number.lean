/-
# EdgeResolution.Toml.Number -- numbers

An integer has 64 bits and a sign; in base 16, 8 or 2 it is written without one.  A
float is decimal digits with a fraction, an exponent or both, and has to be less
than what rounds to infinity; `inf` and `nan` are floats too.  Neither has leading
zeros.  A number is kept as its literal: no setting holds one.
-/
import EdgeResolution.Toml.Lexical

namespace EdgeResolution.Toml

set_option autoImplicit false

open Reader

/-- A decimal integer: whether a minus sign stands before it, and its digits. -/
def decimal : Reader (Bool × List Char) := do
  let sign ← optional (one fun c => c == '+' || c == '-')
  let ds ← (do char '0'; return ['0']) <|> digits Char.isDigit
  return (sign == some '-', ds)

/-! ## Integers -/

/-- The first positive integer that 64 bits with a sign do not hold. -/
def integerLimit : Nat := 9223372036854775808

def decimalInteger : Reader Unit := do
  let (negative, ds) ← decimal
  let n := valueIn 10 ds
  if n < integerLimit ∨ (negative ∧ n = integerLimit) then return () else failure

def radixInteger (mark : Char) (base : Nat) : Reader Unit := do
  literal ['0', mark]
  let ds ← digits fun c => (hexValue? c).any (· < base)
  if valueIn base ds < integerLimit then return () else failure

def integer : Reader Unit :=
  radixInteger 'x' 16 <|> radixInteger 'o' 8 <|> radixInteger 'b' 2 <|> decimalInteger

/-! ## Floats -/

def fraction : Reader (List Char) := do
  char '.'
  digits Char.isDigit

/-- An exponent of ten. -/
def exponent : Reader Int := do
  discard (one fun c => c == 'e' || c == 'E')
  let sign ← optional (one fun c => c == '+' || c == '-')
  let n := valueIn 10 (← digits Char.isDigit)
  return if sign == some '-' then -(n : Int) else n

/-- From here on a double precision float rounds to infinity. -/
def infinityThreshold : Nat := Nat.pow 2 1024 - Nat.pow 2 970

/-- Is `mantissa · 10 ^ exponent` less than `infinityThreshold`?  The count of digits
decides far from the threshold, so that no huge power is computed. -/
def isFinite (mantissa : List Char) (exponent : Int) : Bool :=
  let significant := mantissa.dropWhile (· == '0')
  let magnitude : Int := significant.length + exponent
  if significant.isEmpty || decide (magnitude < 300) then true
  else if 320 < magnitude then false
  else
    decide (valueIn 10 significant * Nat.pow 10 exponent.toNat <
      infinityThreshold * Nat.pow 10 (-exponent).toNat)

def decimalFloat : Reader Unit := do
  let (negative, whole) ← decimal
  let part ← optional fraction
  let power ← optional exponent
  if part.isNone ∧ power.isNone then failure
  let part := part.getD []
  if negative || isFinite (whole ++ part) (power.getD 0 - part.length) then return () else failure

def specialFloat : Reader Unit := do
  discard (optional (one fun c => c == '+' || c == '-'))
  literal ['i', 'n', 'f'] <|> literal ['n', 'a', 'n']

def float : Reader Unit := decimalFloat <|> specialFloat

end EdgeResolution.Toml
