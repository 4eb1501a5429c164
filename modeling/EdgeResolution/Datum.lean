/-
# EdgeResolution.Datum -- serialised values, and the records in them

A `Datum` is a value as a text format spells it.  A record is given field by field,
or as the list of its fields' values in order of declaration; `slots?` finds the
values of the named fields in either form.  A field that is not named is not looked
at.  Whether a list may be longer than its record is up to the format (`Surplus`).
-/
import EdgeResolution.NameMap

namespace EdgeResolution

set_option autoImplicit false

inductive Datum where
  | null
  | boolean (value : Bool)
  | number (literal : String)
  | text (value : String)
  | list (items : List Datum)
  | record (fields : List (String × Datum))
  deriving Inhabited

/-- What a format makes of list items beyond those that are asked for. -/
inductive Surplus where
  | refused
  | ignored
  deriving DecidableEq, Repr

namespace Datum

/-- The values of the named fields; `none` for a field that is not given. -/
def slots? (surplus : Surplus) (names : List String) : Datum → Option (List (Option Datum))
  | .record fields => some (names.map fun name => NameMap.Entries.get? name fields)
  | .list items =>
      if surplus = .refused ∧ names.length < items.length then none
      else some ((List.range names.length).map fun i => items[i]?)
  | _ => none

end Datum

/-- Values that have a serialised form. -/
class Stored (α : Type) where
  write : α → Datum
  read? : Surplus → Datum → Option α

namespace Stored

variable {α : Type} [Stored α]

/-- The value of a field that has to be given. -/
def required (surplus : Surplus) (slot : Option Datum) : Option α :=
  slot.bind (read? surplus)

/-- The value of a field that may be left out. -/
def optional (surplus : Surplus) (default : α) : Option Datum → Option α
  | none => some default
  | some d => read? surplus d

instance : Stored String where
  write := .text
  read? _
    | .text value => some value
    | _ => none

/-- An absent value is written as null. -/
instance : Stored (Option String) where
  write
    | none => .null
    | some value => .text value
  read? _
    | .null => some none
    | .text value => some (some value)
    | _ => none

/-- A pair is a list of two. -/
instance {β : Type} [Stored β] : Stored (α × β) where
  write p := .list [write p.1, write p.2]
  read? surplus
    | .list (a :: b :: more) =>
        if surplus = .refused ∧ more ≠ [] then none
        else do return (← read? surplus a, ← read? surplus b)
    | _ => none

instance : Stored (List α) where
  write items := .list (items.map write)
  read? surplus
    | .list items => items.mapM (read? surplus)
    | _ => none

/-- A map is a record with its names as fields. -/
instance : Stored (NameMap α) where
  write m := .record (m.entries.map fun e => (e.1, write e.2))
  read? surplus
    | .record fields =>
        (fields.mapM fun f => (read? surplus f.2).map fun value => (f.1, value)).map NameMap.ofList
    | _ => none

end Stored
end EdgeResolution
