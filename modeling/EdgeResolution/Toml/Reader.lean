/-
# EdgeResolution.Toml.Reader -- readers of a text, and how they are put together

A reader takes what it reads from the front of the text and leaves the rest, or
fails; a reader that fails has taken nothing.  `many` repeats a reader until it
fails or takes nothing, so it ends with the text.
-/
import EdgeResolution.Text.CharClass

namespace EdgeResolution.Toml

set_option autoImplicit false

abbrev Reader (α : Type) := StateT (List Char) Option α

namespace Reader

variable {α : Type}

/-- The first character, which stays. -/
def peek : Reader Char := fun
  | [] => none
  | c :: rest => some (c, c :: rest)

/-- One character of a class. -/
def one (p : Char → Bool) : Reader Char := fun
  | [] => none
  | c :: rest => if p c then some (c, rest) else none

def char (c : Char) : Reader Unit := discard (one (· == c))

/-- All characters of a class, up to the first of another. -/
def run (p : Char → Bool) : Reader (List Char) := fun cs =>
  some (cs.takeWhile p, cs.dropWhile p)

/-- Exactly this text. -/
def literal (text : List Char) : Reader Unit := fun cs =>
  if text.isPrefixOf cs then some ((), cs.drop text.length) else none

def atEnd : Reader Unit := fun
  | [] => some ((), [])
  | _ => none

/-- Whether `r` took something; it is passed over if it fails. -/
def skip (r : Reader α) : Reader Bool := (do discard r; pure true) <|> pure false

def manyFrom (r : Reader α) (cs : List Char) : List α × List Char :=
  match r cs with
  | none => ([], cs)
  | some (a, rest) =>
      if rest.length < cs.length then
        let more := manyFrom r rest
        (a :: more.1, more.2)
      else ([a], rest)
  termination_by cs.length

/-- As many as there are, none included. -/
def many (r : Reader α) : Reader (List α) := fun cs => some (manyFrom r cs)

/-- One or more, with a separator between each two. -/
def separated (separator : Reader Unit) (r : Reader α) : Reader (List α) := do
  let first ← r
  let more ← many (do separator; r)
  return first :: more

end Reader
end EdgeResolution.Toml
