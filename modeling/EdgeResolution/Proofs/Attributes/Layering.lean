/-
# EdgeResolution.Proofs.Attributes.Layering -- attribute sets laid over each other

An attribute set is made from pairs, or by laying one set over another (`Layering`).
Pairs may come in any order and name an attribute more than once; a set has one form
only, so what was laid over what does not show in it:

* `NameMap.ofList_append`: pairs after pairs are a set over a set;
* `NameMap.merged_assoc`, `merged_self`, `merged_empty`, `empty_merged`: laying over
  is associative and idempotent, and the empty set is neutral on both sides;
* `Layering.set_eq_ofList`: a set is that of all the pairs laid down for it, one
  after the other, and holds the last one of each name (`get?_ofList_eq_some_iff`);
* `NameMap.size_eq_ncard`: a set is as large as the number of names with a value.

Each law is read off lookups, since a set is told by them (`NameMap.ext`).
-/
import EdgeResolution.Attributes
import Mathlib.Data.Set.Card

namespace EdgeResolution

set_option autoImplicit false

namespace NameMap

variable {α : Type} {pairs : List (String × α)} {name : String} {value : α}

/-! ## Pairs -/

theorem Entries.get?_eq_find? (name : String) (es : List (String × α)) :
    Entries.get? name es = (es.find? fun e => decide (e.1 = name)).map (·.2) := by
  induction es with
  | nil => rfl
  | cons e es ih => by_cases same : e.1 = name <;> simp [get?, same, ih]

/-- The last pair of this name has this value. -/
def LastOf (pairs : List (String × α)) (name : String) (value : α) : Prop :=
  ∃ before after, pairs = before ++ (name, value) :: after ∧ ∀ e ∈ after, e.1 ≠ name

/-- Of several pairs with one name the last one counts. -/
theorem get?_ofList_eq_some_iff :
    (ofList pairs).get? name = some value ↔ LastOf pairs name value := by
  rw [get?_ofList, Entries.get?_eq_find?, Option.map_eq_some_iff]
  constructor
  · rintro ⟨⟨n, v⟩, found, rfl⟩
    obtain ⟨named, after, before, split, none⟩ := List.find?_eq_some_iff_append.1 found
    cases of_decide_eq_true named
    refine ⟨before.reverse, after.reverse, ?_, fun e mem => ?_⟩
    · simpa using congrArg List.reverse split
    · simpa using none e (List.mem_reverse.1 mem)
  · rintro ⟨before, after, rfl, none⟩
    refine ⟨(name, value), List.find?_eq_some_iff_append.2 ⟨decide_eq_true rfl, ?_⟩, rfl⟩
    refine ⟨after.reverse, before.reverse, by simp, fun e mem => ?_⟩
    simpa using none e (List.mem_reverse.1 mem)

theorem merged_ofList (m : NameMap α) (pairs : List (String × α)) :
    m.merged (ofList pairs) = m.insertMany pairs := by
  ext1 name
  rw [get?_merged, get?_ofList, get?_insertMany]

theorem ofList_append (pairs more : List (String × α)) :
    ofList (pairs ++ more) = (ofList pairs).merged (ofList more) := by
  rw [merged_ofList]
  exact List.foldl_append

/-! ## Laying over -/

theorem merged_assoc (a b c : NameMap α) : (a.merged b).merged c = a.merged (b.merged c) := by
  ext1 name
  simp only [get?_merged, Option.or_assoc]

theorem merged_self (a : NameMap α) : a.merged a = a := by
  ext1 name
  rw [get?_merged, Option.or_self]

theorem merged_empty (a : NameMap α) : a.merged empty = a := rfl

theorem empty_merged (a : NameMap α) : empty.merged a = a := ofList_entries a

/-! ## Names -/

theorem size_eq_ncard (m : NameMap α) : m.size = {name | (m.get? name).isSome}.ncard := by
  have names : {name | (m.get? name).isSome} = (m.keys.toFinset : Set String) := by
    apply Set.ext
    intro name
    simp [mem_keys_iff]
  rw [names, Set.ncard_coe_finset, List.toFinset_card_of_nodup m.keys_nodup, length_keys]

end NameMap

namespace Attributes

/-! ## Layers -/

/-- How an attribute set comes about. -/
inductive Layering where
  | pairs (ps : List (String × String))
  | layered (base overrides : Layering)

namespace Layering

def set : Layering → Attributes
  | .pairs ps => NameMap.ofList ps
  | .layered base overrides => base.set.merged overrides.set

/-- All pairs that were laid down, in order. -/
def flat : Layering → List (String × String)
  | .pairs ps => ps
  | .layered base overrides => base.flat ++ overrides.flat

theorem set_eq_ofList (l : Layering) : l.set = NameMap.ofList l.flat := by
  induction l with
  | pairs ps => rfl
  | layered base overrides ihBase ihOverrides =>
      rw [set, flat, NameMap.ofList_append, ihBase, ihOverrides]

theorem mem_entries_set_iff {l : Layering} {name value : String} :
    (name, value) ∈ l.set.entries ↔ NameMap.LastOf l.flat name value := by
  rw [← NameMap.get?_eq_some_iff, set_eq_ofList, NameMap.get?_ofList_eq_some_iff]

end Layering

/-- **Attribute sets are a right-biased monoid**: laying over is associative, idempotent and has
the empty set as its neutral element, and the later set wins.  A set is told by its lookups and
has one text; it lists each name once, in ascending order of code points, with the value that
was laid down last. -/
theorem right_biased_monoid :
    (∀ p q : List (String × String),
      (NameMap.ofList (p ++ q) : Attributes) = (NameMap.ofList p).merged (NameMap.ofList q)) ∧
    (∀ (a b : Attributes) (name : String),
      (a.merged b).get? name = (b.get? name).or (a.get? name)) ∧
    (∀ a b c : Attributes, (a.merged b).merged c = a.merged (b.merged c)) ∧
    (∀ a : Attributes, a.merged a = a ∧ a.merged NameMap.empty = a ∧ NameMap.empty.merged a = a) ∧
    (∀ a b : Attributes, a = b ↔ ∀ name, a.get? name = b.get? name) ∧
    (∀ a b : Attributes, (∀ name, a.get? name = b.get? name) → a.text = b.text) ∧
    (∀ a : Attributes, a.size = {name | (a.get? name).isSome}.ncard) ∧
    ∀ l : Layering, l.set.keys.Pairwise (· < ·) ∧
      ∀ name value, (name, value) ∈ l.set.entries ↔ NameMap.LastOf l.flat name value := by
  refine ⟨NameMap.ofList_append, NameMap.get?_merged, NameMap.merged_assoc, fun a => ?_,
    fun a b => ?_, fun a b same => ?_, NameMap.size_eq_ncard, fun l => ?_⟩
  · exact ⟨a.merged_self, a.merged_empty, a.empty_merged⟩
  · constructor
    · rintro rfl name
      rfl
    · exact NameMap.ext
  · rw [NameMap.ext same]
  · exact ⟨l.set.keys_ascending, fun name value => Layering.mem_entries_set_iff⟩

namespace Example

def asked : Layering :=
  .layered (.pairs [("usage", "java-api"), ("category", "library")]) (.pairs [("usage", "java-runtime")])

def shuffled : Layering :=
  .pairs [("usage", "java-runtime"), ("usage", "java-api"), ("category", "library"),
    ("usage", "java-runtime")]

end Example

open Example in
theorem right_biased_monoid_shuffled :
    (∀ name, asked.set.get? name = shuffled.set.get? name) ∧
    asked.set.text = shuffled.set.text ∧
    asked.set.text = "\x7bcategory=library, usage=java-runtime\x7d" ∧
    asked.set.size = 2 := by
  have same : asked.set = shuffled.set := by decide
  have lookups : ∀ name, asked.set.get? name = shuffled.set.get? name := by
    intro name
    rw [same]
  obtain ⟨-, -, -, -, -, text, -⟩ := right_biased_monoid
  exact ⟨lookups, text _ _ lookups, by decide, by decide⟩

end Attributes
end EdgeResolution
