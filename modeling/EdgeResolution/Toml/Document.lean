/-
# EdgeResolution.Toml.Document -- documents

A document is a sequence of assignments and headers, one a line.  A header opens a
table, or one more table of a list, and the assignments after it belong there; those
before the first header belong to the document itself.
-/
import EdgeResolution.Toml.Value

namespace EdgeResolution.Toml

set_option autoImplicit false

open Reader

inductive Statement where
  | assign (path : List String) (v : Datum)
  | table (path : List String)
  | tableOfList (path : List String)

/-! ## Reading the lines -/

/-- Arrays and braced tables are nested less than this many times. -/
def nestingLimit : Nat := 80

def assignLine : Reader Statement := do
  let (path, v) ← assignment (value (nestingLimit - 1))
  trailing
  return .assign path v

def tableLine : Reader Statement := do
  char '['
  let path ← key
  char ']'
  trailing
  return .table path

def tableOfListLine : Reader Statement := do
  literal ['[', '[']
  let path ← key
  literal [']', ']']
  trailing
  return .tableOfList path

/-- The next statement, or a line without one. -/
def line : Reader (Option Statement) := do
  match ← peek with
  | '#' => comment; lineEnd; return none
  | '\n' | '\r' => newline; return none
  | '[' => some <$> (tableOfListLine <|> tableLine)
  | _ => some <$> assignLine

/-- All statements of a document; a byte order mark may come first. -/
def statements : Reader (List Statement) := do
  discard (skip (char '\ufeff'))
  spaces
  let found ← many (do let s ← line; spaces; return s)
  atEnd
  return found.filterMap id

/-! ## Carrying them out -/

/-- The tables so far, and the path of the one that is open. -/
structure Progress where
  root : Fields
  opened : List String

/-- Change the parent of a header's table, given the last part of its path. -/
def Progress.header? (p : Progress) (path : List String)
    (change : String → Fields → Option Fields) : Option Progress := do
  let key ← path.getLast?
  let root ← Fields.at? .onTheWay (fun _ fields => change key fields) path.dropLast .byHeader p.root
  return ⟨root, path⟩

def Progress.step? (p : Progress) : Statement → Option Progress
  | .assign path v => do
      let assign (making : Making) (fields : Fields) := fields.assign? path v making
      return ⟨← Fields.at? .onTheWay assign p.opened .byHeader p.root, p.opened⟩
  | .table path => p.header? path Fields.openTable?
  | .tableOfList path => p.header? path Fields.openTableOfList?

/-- The document as a record; `none` for a text that is no document. -/
def read? (text : String) : Option Datum := do
  let (found, _) ← statements text.toList
  let final ← found.foldlM Progress.step? ⟨[], []⟩
  return .record (Fields.data final.root)

end EdgeResolution.Toml
