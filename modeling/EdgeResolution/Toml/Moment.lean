/-
# EdgeResolution.Toml.Moment -- dates and times

A moment is a date, a time of day, or a date and a time, the last with or without
an offset from universal time.  Dates are those of the calendar; a minute may have
a leap second.  Of a fraction of a second nine digits count.
-/
import EdgeResolution.Toml.Lexical

namespace EdgeResolution.Toml

set_option autoImplicit false

open Reader

structure Date where
  year : Nat
  month : Nat
  day : Nat
  deriving DecidableEq, Repr

structure Time where
  hour : Nat
  minute : Nat
  second : Nat
  /-- The digits of the fraction that count, without zeros at the end. -/
  fraction : List Char
  deriving DecidableEq, Repr

inductive Offset where
  | universal
  | shifted (west : Bool) (hours minutes : Nat)
  deriving DecidableEq, Repr

inductive Moment where
  | date (d : Date)
  | time (t : Time)
  | dateTime (d : Date) (t : Time) (offset : Option Offset)
  deriving DecidableEq, Repr

/-! ## The calendar -/

def isLeapYear (year : Nat) : Bool := year % 4 == 0 && (year % 100 != 0 || year % 400 == 0)

def daysIn (year month : Nat) : Nat :=
  if month = 2 then if isLeapYear year then 29 else 28
  else if month = 4 ∨ month = 6 ∨ month = 9 ∨ month = 11 then 30
  else 31

/-! ## Reading -/

/-- A number of a fixed count of digits, within bounds. -/
def field (count low high : Nat) : Reader Nat := do
  let ds ← (List.replicate count (one Char.isDigit)).mapM id
  let n := valueIn 10 ds
  if low ≤ n ∧ n ≤ high then return n else failure

def date : Reader Date := do
  let year ← field 4 0 9999
  char '-'
  let month ← field 2 1 12
  char '-'
  let day ← field 2 1 (daysIn year month)
  return ⟨year, month, day⟩

def withoutFinalZeros (ds : List Char) : List Char := (ds.reverse.dropWhile (· == '0')).reverse

def secondFraction : Reader (List Char) := do
  char '.'
  let first ← one Char.isDigit
  let more ← run Char.isDigit
  return withoutFinalZeros ((first :: more).take 9)

def time : Reader Time := do
  let hour ← field 2 0 23
  char ':'
  let minute ← field 2 0 59
  char ':'
  let second ← field 2 0 60
  let fraction ← optional secondFraction
  return ⟨hour, minute, second, fraction.getD []⟩

def offset : Reader Offset :=
  (do discard (one fun c => c == 'Z' || c == 'z'); return .universal) <|> do
    let sign ← one fun c => c == '+' || c == '-'
    let hours ← field 2 0 23
    char ':'
    let minutes ← field 2 0 59
    return .shifted (sign == '-') hours minutes

def timeAfterDate : Reader (Time × Option Offset) := do
  discard (one fun c => c == 'T' || c == 't' || c == ' ')
  let t ← time
  return (t, ← optional offset)

def dateMoment : Reader Moment := do
  let d ← date
  match ← optional timeAfterDate with
  | some (t, off) => return .dateTime d t off
  | none => return .date d

def moment : Reader Moment := dateMoment <|> Moment.time <$> time

/-! ## Text -/

/-- A number with zeros before it up to a count of digits. -/
def padded (count n : Nat) : String :=
  let ds := Nat.toDigits 10 n
  String.ofList (List.replicate (count - ds.length) '0' ++ ds)

def Date.text (d : Date) : String :=
  padded 4 d.year ++ "-" ++ padded 2 d.month ++ "-" ++ padded 2 d.day

def Time.text (t : Time) : String :=
  padded 2 t.hour ++ ":" ++ padded 2 t.minute ++ ":" ++ padded 2 t.second ++
    (if t.fraction.isEmpty then "" else "." ++ String.ofList t.fraction)

/-- No shift at all is written as one to the east. -/
def Offset.text : Offset → String
  | .universal => "Z"
  | .shifted west hours minutes =>
      (if west && !(hours == 0 && minutes == 0) then "-" else "+") ++ padded 2 hours ++ ":" ++
        padded 2 minutes

def Moment.text : Moment → String
  | .date d => d.text
  | .time t => t.text
  | .dateTime d t off => d.text ++ "T" ++ t.text ++ (off.map Offset.text).getD ""

end EdgeResolution.Toml
