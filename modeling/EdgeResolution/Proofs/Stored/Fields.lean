/-
# EdgeResolution.Proofs.Stored.Fields -- what reading a record depends on

A record type is built from the values of its fields, its slots, and these come from
a record by name or from a list by place.  So whatever has equal slots is read alike,
and `RecordForm.of_reader` gets from this all that is said of a record type with
given field names:

* what is written is read back (`Lossless`), and has these names;
* other keys may stand in the record, and the order of the keys does not count;
* a list no longer than the names is read as the record of the first names.

Reading alike goes up from a part to the whole: a field's value, or an entry of a
map, may be replaced by one that is read alike.
-/
import EdgeResolution.Stored

namespace EdgeResolution

set_option autoImplicit false

/-! ## Slots -/

/-- What stands under another name is not seen. -/
theorem NameMap.Entries.get?_replaced {α : Type} {name other : String}
    (before after : List (String × α)) (v w : α) (differ : name ≠ other) :
    get? name (before ++ (other, v) :: after) = get? name (before ++ (other, w) :: after) := by
  simp [get?_append, get?, Ne.symm differ]

namespace Datum

open NameMap.Entries

variable {surplus : Surplus} {names : List String} {items : List Datum}
  {fields fields' : List (String × Datum)}

theorem slots?_record_congr (same : ∀ name ∈ names, get? name fields = get? name fields') :
    (record fields).slots? surplus names = (record fields').slots? surplus names := by
  rw [slots?, slots?, List.map_congr_left same]

/-- By place and by name: the first names go with the items there are, the others with none. -/
theorem getElem?_range_eq_get?_zip (distinct : names.Nodup) :
    ((List.range names.length).map fun i => items[i]?) =
      names.map fun name => get? name (names.zip items) := by
  induction names generalizing items with
  | nil => rfl
  | cons name names ih =>
      obtain ⟨fresh, distinct⟩ := List.nodup_cons.1 distinct
      cases items with
      | nil => simp [get?, List.map_const', List.replicate_succ]
      | cons item items =>
          have rest : (names.map fun n => get? n ((name, item) :: names.zip items)) =
              names.map fun n => get? n (names.zip items) := by
            refine List.map_congr_left fun n mem => ?_
            have other : name ≠ n := fun same => fresh (same ▸ mem)
            simp [get?, other]
          rw [List.zip_cons_cons, List.map_cons, rest, ← ih distinct, List.length_cons,
            List.range_succ_eq_map]
          simp [get?]

theorem slots?_list (distinct : names.Nodup) (short : items.length ≤ names.length) :
    (list items).slots? surplus names = (record (names.zip items)).slots? surplus names := by
  have fits : ¬ (surplus = .refused ∧ names.length < items.length) :=
    fun long => Nat.not_lt.2 short long.2
  simp only [slots?, if_neg fits, getElem?_range_eq_get?_zip distinct]

/-- In a record with all its fields there is something in every slot. -/
theorem slots?_complete (distinct : names.Nodup) (complete : items.length = names.length) :
    (record (names.zip items)).slots? surplus names = some (items.map some) := by
  have places : ((List.range items.length).map fun i => items[i]?) = items.map some := by
    refine List.ext_getElem? fun i => ?_
    by_cases inside : i < items.length <;> simp [inside]
  rw [← slots?_list distinct (Nat.le_of_eq complete), slots?, ← complete, if_neg (by simp), places]

end Datum

/-! ## Reading alike -/

namespace Stored

variable {α β : Type} [Stored α] [Stored β]

/-- Reading undoes writing. -/
def Lossless (α : Type) [Stored α] : Prop :=
  ∀ (surplus : Surplus) (a : α), read? surplus (write a) = some a

/-- The same `α` is read from both, or both are refused. -/
def Alike (α : Type) [Stored α] (d d' : Datum) : Prop :=
  ∀ surplus, (read? surplus d : Option α) = read? surplus d'

/-- The type is stored as a record with these fields, in this order. -/
structure RecordForm (α : Type) [Stored α] (names : List String) : Prop where
  lossless : Lossless α
  written : ∀ a : α, ∃ items, items.length = names.length ∧ write a = .record (names.zip items)
  byName : ∀ fields fields',
    (∀ name ∈ names, NameMap.Entries.get? name fields = NameMap.Entries.get? name fields') →
      Alike α (.record fields) (.record fields')
  unknown : ∀ before extra after, (∀ e ∈ extra, e.1 ∉ names) →
    Alike α (.record (before ++ extra ++ after)) (.record (before ++ after))
  positional : ∀ items, items.length ≤ names.length →
    Alike α (.list items) (.record (names.zip items))

/-- A type that is built from the slots of its fields, and written with all of them, has the form
of a record. -/
theorem RecordForm.of_reader {names : List String}
    {build : Surplus → List (Option Datum) → Option α} (items : α → List Datum)
    (distinct : names.Nodup)
    (reads : ∀ surplus d, read? surplus d = (d.slots? surplus names).bind (build surplus))
    (complete : ∀ a, (items a).length = names.length)
    (writes : ∀ a, write a = .record (names.zip (items a)))
    (rebuilds : ∀ surplus a, build surplus ((items a).map some) = some a) :
    RecordForm α names where
  lossless := by
    intro surplus a
    rw [reads, writes, Datum.slots?_complete distinct (complete a), Option.bind_some, rebuilds]
  written := fun a => ⟨items a, complete a, writes a⟩
  byName := by
    intro fields fields' same surplus
    rw [reads, reads, Datum.slots?_record_congr same]
  unknown := by
    intro before extra after others surplus
    rw [reads, reads]
    refine congrArg (Option.bind · _) (Datum.slots?_record_congr fun name mem => ?_)
    have absent : NameMap.Entries.get? name extra = none :=
      NameMap.Entries.get?_eq_none fun e inExtra same => others e inExtra (same ▸ mem)
    simp [NameMap.Entries.get?_append, absent]
  positional := by
    intro items short surplus
    rw [reads, reads, Datum.slots?_list distinct short]

/-! ## Parts and wholes -/

/-- Within a stored `β`, what stands under the name counts as an `α` only. -/
def Within (α β : Type) [Stored α] [Stored β] (name : String) : Prop :=
  ∀ before after d d', Alike α d d' →
    Alike β (.record (before ++ (name, d) :: after)) (.record (before ++ (name, d') :: after))

theorem optional_replaced {surplus : Surplus} {default : α} {name : String} {d d' : Datum}
    (before after : List (String × Datum)) (alike : Alike α d d') :
    optional surplus default (NameMap.Entries.get? name (before ++ (name, d) :: after)) =
      optional surplus default (NameMap.Entries.get? name (before ++ (name, d') :: after)) := by
  rw [NameMap.Entries.get?_append, NameMap.Entries.get?_append]
  cases NameMap.Entries.get? name before with
  | some first => rfl
  | none => simpa [NameMap.Entries.get?, optional] using alike surplus

end Stored
end EdgeResolution
