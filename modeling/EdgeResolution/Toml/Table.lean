/-
# EdgeResolution.Toml.Table -- tables while a document is being read

A table comes about in one of three ways: by a header (or as a table in braces), by
the dots of a key, or on the way to another header.  How it came about decides what
may still be added: a dotted key adds to a table made by dots only, a header may
take over a table that was made on the way, and no key is given twice.
-/
import EdgeResolution.Datum

namespace EdgeResolution.Toml

set_option autoImplicit false

/-- How a table came about. -/
inductive Making where
  | byHeader
  | byDots
  | onTheWay
  deriving DecidableEq, Repr

/-- What a key holds: a finished value, a table, or the tables of a list, the last of
which is still open. -/
inductive Node where
  | value (v : Datum)
  | table (making : Making) (fields : List (String × Node))
  | tables (earlier : List (List (String × Node))) (last : List (String × Node))

abbrev Fields := List (String × Node)

namespace Fields

def get? (key : String) (fields : Fields) : Option Node := NameMap.Entries.get? key fields

/-- Replace what the key holds. -/
def set (key : String) (node : Node) : Fields → Fields
  | [] => []
  | (k, n) :: rest => if k = key then (k, node) :: rest else (k, n) :: set key node rest

def add (key : String) (node : Node) (fields : Fields) : Fields := fields ++ [(key, node)]

/-- Change the table that a path leads to, making the tables that are not there.  By
dots a path does not lead into a table that a header made. -/
def at? (way : Making) (change : Making → Fields → Option Fields) :
    List String → Making → Fields → Option Fields
  | [], making, fields => change making fields
  | key :: path, _, fields =>
      match get? key fields with
      | none => do return fields.add key (.table way (← at? way change path way []))
      | some (.value _) => none
      | some (.table making sub) =>
          if way = .byDots ∧ making = .byHeader then none
          else do return fields.set key (.table making (← at? way change path making sub))
      | some (.tables earlier last) => do
          return fields.set key (.tables earlier (← at? way change path .byHeader last))

/-- Give a value to the key that `path` leads to, its last part included, from a table
made as told. -/
def assign? (fields : Fields) (path : List String) (v : Datum) (making : Making) :
    Option Fields := do
  let key ← path.getLast?
  let add (making : Making) (fields : Fields) : Option Fields :=
    if making ≠ .byDots ∧ 1 < path.length then none
    else if (get? key fields).isSome then none
    else some (fields.add key (.value v))
  at? .byDots add path.dropLast making fields

/-- Open the table `key` for a header. -/
def openTable? (key : String) (fields : Fields) : Option Fields :=
  match get? key fields with
  | none => some (fields.add key (.table .byHeader []))
  | some (.table .onTheWay sub) => some (fields.set key (.table .byHeader sub))
  | some _ => none

/-- Open one more table of the list `key`. -/
def openTableOfList? (key : String) (fields : Fields) : Option Fields :=
  match get? key fields with
  | none => some (fields.add key (.tables [] []))
  | some (.tables earlier last) => some (fields.set key (.tables (earlier ++ [last]) []))
  | some _ => none

end Fields

mutual

def Node.datum : Node → Datum
  | .value v => v
  | .table _ fields => .record (Fields.data fields)
  | .tables earlier last => .list (Fields.listData earlier ++ [.record (Fields.data last)])

def Fields.data : List (String × Node) → List (String × Datum)
  | [] => []
  | (key, node) :: rest => (key, node.datum) :: Fields.data rest

def Fields.listData : List (List (String × Node)) → List Datum
  | [] => []
  | fields :: rest => .record (Fields.data fields) :: Fields.listData rest

end

end EdgeResolution.Toml
