/-
# EdgeResolution.Toml.Quoted -- the four kinds of quoted text

Between double quotes a backslash begins an escape, between single quotes nothing
does.  Three quotes open a text of several lines: a line end right after them does
not count, a carriage return before a line feed is dropped, and one or two quotes
may stand anywhere, also right before the three that close.  Between double quotes
a backslash at the end of a line joins it to the next text.
-/
import EdgeResolution.Toml.Lexical

namespace EdgeResolution.Toml

set_option autoImplicit false

open Reader

/-- The character with this code point, if there is one. -/
def scalar? (n : Nat) : Option Char :=
  if valid : n.isValidChar then some (Char.ofNatAux n valid) else none

/-- A code point written with a fixed count of hexadecimal digits. -/
def codePoint (count : Nat) : Reader Char := do
  let hex ← (List.replicate count (one isHexDigit)).mapM id
  StateT.lift (scalar? (valueIn 16 hex))

def escape : Reader Char := do
  char '\\'
  match ← one fun _ => true with
  | 'b' => return '\x08'
  | 't' => return '\t'
  | 'n' => return '\n'
  | 'f' => return '\x0c'
  | 'r' => return '\r'
  | '"' => return '"'
  | '\\' => return '\\'
  | 'u' => codePoint 4
  | 'U' => codePoint 8
  | _ => failure

def basicText : Reader (List Char) := do
  char '"'
  let content ← many (one basicChars.holds <|> escape)
  char '"'
  return content

def literalText : Reader (List Char) := do
  char '\''
  let content ← run literalChars.holds
  char '\''
  return content

/-! ## Several lines -/

/-- One or two quotes that do not close. -/
def innerQuotes (quote : Char) : Reader (List Char) := do
  let quotes ← run (· == quote)
  if quotes.length < 3 ∧ quotes ≠ [] then return quotes else failure

/-- The three quotes that close, and up to two before them that belong to the text. -/
def closingQuotes (quote : Char) : Reader (List Char) := do
  literal [quote, quote, quote]
  let first ← skip (char quote)
  let second ← skip (char quote)
  return (if first then [quote] else []) ++ (if second then [quote] else [])

/-- A backslash at the end of a line, with all blanks up to the next text. -/
def joinedLines : Reader (List Char) := do
  char '\\'
  spaces
  newline
  discard (many (discard (one isSpace) <|> newline))
  return []

def lines (quote : Char) (piece : Reader (List Char)) : Reader (List Char) := do
  literal [quote, quote, quote]
  discard (skip newline)
  let pieces ← many (piece <|> (do newline; return ['\n']) <|> innerQuotes quote)
  let last ← closingQuotes quote
  return pieces.flatten ++ last

def basicLines : Reader (List Char) :=
  lines '"' (List.singleton <$> one basicChars.holds <|> joinedLines <|> List.singleton <$> escape)

def literalLines : Reader (List Char) := lines '\'' (List.singleton <$> one literalChars.holds)

/-- A quoted text of any kind; three quotes always open several lines. -/
def quoted : Reader String := fun cs =>
  match cs with
  | '"' :: '"' :: '"' :: _ => (String.ofList <$> basicLines) cs
  | '\'' :: '\'' :: '\'' :: _ => (String.ofList <$> literalLines) cs
  | '"' :: _ => (String.ofList <$> basicText) cs
  | '\'' :: _ => (String.ofList <$> literalText) cs
  | _ => none

/-! ## Keys -/

def isBareKeyChar (c : Char) : Bool := c.isAlphanum || c == '-' || c == '_'

/-- One part of a key: quoted on one line, or bare. -/
def keyPart : Reader String := do
  match ← peek with
  | '"' => String.ofList <$> basicText
  | '\'' => String.ofList <$> literalText
  | _ =>
      let bare ← run isBareKeyChar
      if bare.isEmpty then failure else return String.ofList bare

/-- Keys have fewer parts than this. -/
def keyPartLimit : Nat := 80

/-- A key with its parts between dots. -/
def key : Reader (List String) := do
  let parts ← separated (char '.') (do spaces; let part ← keyPart; spaces; return part)
  if parts.length < keyPartLimit then return parts else failure

end EdgeResolution.Toml
