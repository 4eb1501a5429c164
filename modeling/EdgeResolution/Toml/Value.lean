/-
# EdgeResolution.Toml.Value -- values

A value is a quoted text, a boolean, a number, a moment, an array or a table in
braces.  An array may run over lines and end with a comma, a table in braces may
not; both may be nested up to a depth.
-/
import EdgeResolution.Toml.Moment
import EdgeResolution.Toml.Number
import EdgeResolution.Toml.Quoted
import EdgeResolution.Toml.Table

namespace EdgeResolution.Toml

set_option autoImplicit false

open Reader

/-- The field under which a date or time is held, as a record of its own. -/
def momentField : String := "$__toml_private_datetime"

def momentDatum (m : Moment) : Datum := .record [(momentField, .text m.text)]

/-- The part of the text that a reader takes, as a number's literal. -/
def numberLiteral (r : Reader Unit) : Reader Datum := fun cs => do
  let ((), rest) ← r cs
  return (.number (String.ofList (cs.take (cs.length - rest.length))), rest)

def boolean : Reader Datum :=
  (do literal "true".toList; return .boolean true) <|>
    (do literal "false".toList; return .boolean false)

def array (item : Reader Datum) : Reader Datum := do
  char '['
  let items ← optional (separated (char ',') (do fillers; let v ← item; fillers; return v))
  if items.isSome then discard (skip (char ','))
  fillers
  char ']'
  return .list (items.getD [])

/-- A key, an equals sign and a value. -/
def assignment (item : Reader Datum) : Reader (List String × Datum) := do
  let path ← key
  char '='
  spaces
  let v ← item
  return (path, v)

def bracedTable (item : Reader Datum) : Reader Datum := do
  char '\x7b'
  let entries ← optional (separated (char ',') (do let e ← assignment item; spaces; return e))
  spaces
  char '\x7d'
  let enter (fields : Fields) (e : List String × Datum) := Fields.assign? fields e.1 e.2 .byHeader
  let fields ← StateT.lift ((entries.getD []).foldlM enter [])
  return .record (Fields.data fields)

/-- A value with at most `depth` arrays and braced tables inside one another. -/
def value (depth : Nat) : Reader Datum := do
  let first ← peek
  if first == '"' || first == '\'' then Datum.text <$> quoted
  else if first == '[' then
    match depth with
    | 0 => failure
    | depth + 1 => array (value depth)
  else if first == '\x7b' then
    match depth with
    | 0 => failure
    | depth + 1 => bracedTable (value depth)
  else
    momentDatum <$> moment <|> numberLiteral (float <|> integer) <|> boolean

end EdgeResolution.Toml
