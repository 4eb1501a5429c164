/-
# EdgeResolution.Proofs.Matching.Singled -- which variants some consumer gets

A match compares attributes and nothing else: variants with equal attributes fit and
lose together (`fits_congr`, `key_congr`).  So a variant is chosen only when it is
`Singular`, that is, when no other one has its attributes (`singular_of_select`).  And
then it is chosen for some consumer (`exists_select_of_singular`): the one that asks for
its attributes and, under the names that it has no attribute for, for a value that
nobody offers (`singling`).
-/
import EdgeResolution.Proofs.Matching.Optimum
import Mathlib.Data.Fintype.EquivFin

namespace EdgeResolution.Matching

set_option autoImplicit false

variable {schema : Schema} {consumer : Attributes} {variants before after : List Configuration}
  {v w : Configuration} {names : List String} {unoffered name value : String}

/-! ## Only attributes count -/

theorem fits_congr (same : v.attributes = w.attributes) :
    Fits schema consumer v ↔ Fits schema consumer w := by
  rw [Fits, Fits, same]

theorem key_congr (same : v.attributes = w.attributes) :
    key schema consumer v = key schema consumer w := by
  have places : place schema v = place schema w := by
    funext name
    rw [place, place, same]
  rw [key, key, exactlyMatched, exactlyMatched, same, places]

/-- The variant is among these, and no other of them has its attributes. -/
def Singular (variants : List Configuration) (v : Configuration) : Prop :=
  ∃ before after, variants = before ++ v :: after ∧
    ∀ w ∈ before ++ after, w.attributes ≠ v.attributes

theorem singular_of_select (ok : select schema consumer variants = .ok v) :
    Singular variants v := by
  obtain ⟨fitBefore, fitAfter, split, best⟩ := (select_eq_ok_iff schema consumer variants v).1 ok
  obtain ⟨before, rest, rfl, keptBefore, keptRest⟩ := List.filter_eq_append_iff.1 split
  obtain ⟨between, after, rfl, dropped, fitsV, keptAfter⟩ := List.filter_eq_cons_iff.1 keptRest
  refine ⟨before ++ between, after, by simp, ?_⟩
  -- one with its attributes would be a candidate too, and with the same key none would win
  intro w mem same
  have fitsW : decide (Fits schema consumer w) = true :=
    decide_eq_true ((fits_congr same).2 (of_decide_eq_true fitsV))
  have loses : w ∈ fitBefore ++ fitAfter := by
    rw [List.mem_append, List.mem_append] at mem
    rw [List.mem_append, ← keptBefore, ← keptAfter]
    rcases mem with (inBefore | inBetween) | inAfter
    · exact .inl (List.mem_filter.2 ⟨inBefore, fitsW⟩)
    · exact absurd fitsW (dropped w inBetween)
    · exact .inr (List.mem_filter.2 ⟨inAfter, fitsW⟩)
  have less : key schema consumer v < key schema consumer w := best w loses
  rw [key_congr same] at less
  exact lt_irrefl _ less

/-! ## The consumer for one variant -/

/-- Asks for the attributes of a variant, and for one value of all the other names. -/
def singling (v : Configuration) (names : List String) (unoffered : String) : Attributes :=
  (NameMap.ofList (names.map fun name => (name, unoffered))).merged v.attributes

theorem get?_constant : NameMap.Entries.get? name (names.map fun n => (n, value)) =
    if name ∈ names then some value else none := by
  induction names with
  | nil => rfl
  | cons first rest ih =>
      rw [List.map_cons, NameMap.Entries.get?, ih]
      by_cases here : first = name
      · simp [here]
      · simp [here, Ne.symm here]

theorem get?_singling : (singling v names unoffered).get? name =
    (v.attributes.get? name).or (if name ∈ names then some unoffered else none) := by
  rw [singling, NameMap.get?_merged, NameMap.get?_ofList, ← List.map_reverse, get?_constant]
  simp only [List.mem_reverse]

/-- Without rules only equal values go together. -/
theorem fits_empty_iff : Fits NameMap.empty consumer v ↔
    ∀ name wanted, consumer.get? name = some wanted →
      ∀ offered, v.attributes.get? name = some offered → wanted = offered := by
  simp [Fits]

theorem fits_singling : Fits NameMap.empty (singling v names unoffered) v := by
  refine fits_empty_iff.2 fun name asked wanted offered found => ?_
  rw [get?_singling, found, Option.some_or, Option.some.injEq] at wanted
  exact wanted.symm

/-- A variant that fits too offers no more than the one that is singled out. -/
theorem le_of_fits_singling
    (named : ∀ name value, w.attributes.get? name = some value → name ∈ names ∧ value ≠ unoffered)
    (fits : Fits NameMap.empty (singling v names unoffered) w)
    (found : w.attributes.get? name = some value) : v.attributes.get? name = some value := by
  obtain ⟨listed, offered⟩ := named name value found
  have asked : (singling v names unoffered).get? name =
      (v.attributes.get? name).or (some unoffered) := by
    rw [get?_singling, if_pos listed]
  cases own : v.attributes.get? name with
  | none =>
      rw [own, Option.none_or] at asked
      exact absurd (fits_empty_iff.1 fits name _ asked _ found).symm offered
  | some wanted =>
      rw [own, Option.some_or] at asked
      rw [fits_empty_iff.1 fits name _ asked _ found]

/-- Of two variants that differ, the one that offers no more has missed something. -/
theorem exists_missed
    (le : ∀ name value, w.attributes.get? name = some value → v.attributes.get? name = some value)
    (other : w.attributes ≠ v.attributes) :
    ∃ name value, v.attributes.get? name = some value ∧ w.attributes.get? name ≠ some value := by
  by_contra none
  push Not at none
  refine other (NameMap.ext fun name => ?_)
  cases own : v.attributes.get? name with
  | some value => exact none name value own
  | none =>
      cases offered : w.attributes.get? name with
      | none => rfl
      | some value => exact absurd (le name value offered) (by simp [own])

/-- Of two variants, the one that offers less of what is asked for matches less exactly. -/
theorem exactlyMatched_lt
    (asked : ∀ name value, v.attributes.get? name = some value → consumer.get? name = some value)
    (le : ∀ name value, w.attributes.get? name = some value → v.attributes.get? name = some value)
    (other : w.attributes ≠ v.attributes) :
    exactlyMatched consumer w < exactlyMatched consumer v := by
  -- the names that `w` meets exactly are some of those that `v` meets
  have narrower : (consumer.keys.filter fun name => w.attributes.get? name = consumer.get? name) =
      (consumer.keys.filter fun name => v.attributes.get? name = consumer.get? name).filter
        fun name => w.attributes.get? name = consumer.get? name := by
    rw [List.filter_filter]
    refine List.filter_congr fun name mem => ?_
    obtain ⟨wanted, found⟩ := Option.isSome_iff_exists.1 ((consumer.mem_keys_iff name).1 mem)
    by_cases hit : w.attributes.get? name = consumer.get? name
    · have offered : v.attributes.get? name = consumer.get? name := by
        rw [found] at hit ⊢
        exact le name wanted hit
      simp [hit, offered]
    · simp [hit]
  obtain ⟨name, value, own, missed⟩ := exists_missed le other
  rw [exactlyMatched, exactlyMatched, narrower]
  refine List.length_filter_lt_length_iff_exists.2 ⟨name, List.mem_filter.2 ⟨?_, ?_⟩, ?_⟩
  · rw [NameMap.mem_keys_iff, asked name value own]
    rfl
  · rw [own, asked name value own, decide_eq_true_iff]
  · rwa [asked name value own, decide_eq_true_iff]

/-- The consumer that singles out a variant gets it, if no other one has its attributes. -/
theorem select_singling (split : variants = before ++ v :: after)
    (others : ∀ w ∈ before ++ after, w.attributes ≠ v.attributes)
    (named : ∀ w ∈ before ++ after, ∀ name value, w.attributes.get? name = some value →
      name ∈ names ∧ value ≠ unoffered) :
    select NameMap.empty (singling v names unoffered) variants = .ok v := by
  rw [select_eq_ok_iff]
  refine ⟨candidates NameMap.empty (singling v names unoffered) before,
    candidates NameMap.empty (singling v names unoffered) after, ?_, ?_⟩
  · have fits : decide (Fits NameMap.empty (singling v names unoffered) v) = true :=
      decide_eq_true fits_singling
    rw [split, candidates, List.filter_append, List.filter_cons, if_pos fits]
    rfl
  · intro w mem
    rw [candidates, candidates, ← List.filter_append] at mem
    obtain ⟨inOthers, fitsW⟩ := List.mem_filter.1 mem
    have fits : Fits NameMap.empty (singling v names unoffered) w := of_decide_eq_true fitsW
    have fewer : exactlyMatched (singling v names unoffered) w <
        exactlyMatched (singling v names unoffered) v := by
      refine exactlyMatched_lt ?_ ?_ (others w inOthers)
      · intro name value own
        rw [get?_singling, own, Option.some_or]
      · intro name value found
        exact le_of_fits_singling (named w inOthers) fits found
    exact Prod.Lex.toLex_lt_toLex.2 (.inl (OrderDual.toDual_lt_toDual.2 fewer))

/-- There are names and a value as `select_singling` needs them, some names at least. -/
theorem exists_names_and_unoffered (offers : List Configuration) :
    ∃ names unoffered, names ≠ [] ∧ ∀ w ∈ offers, ∀ name value,
      w.attributes.get? name = some value → name ∈ names ∧ value ≠ unoffered := by
  obtain ⟨unoffered, fresh⟩ :=
    Infinite.exists_notMem_finset (offers.flatMap fun w => w.attributes.values).toFinset
  refine ⟨"" :: offers.flatMap fun w => w.attributes.keys, unoffered, List.cons_ne_nil _ _, ?_⟩
  intro w mem name value found
  have entry : (name, value) ∈ w.attributes.entries := w.attributes.get?_eq_some_iff.1 found
  constructor
  · refine List.mem_cons_of_mem _ (List.mem_flatMap.2 ⟨w, mem, ?_⟩)
    exact List.mem_map.2 ⟨(name, value), entry, rfl⟩
  · rintro rfl
    refine fresh (List.mem_toFinset.2 (List.mem_flatMap.2 ⟨w, mem, ?_⟩))
    exact List.mem_map.2 ⟨(name, value), entry, rfl⟩

/-- Some consumer, which asks for something, gets the variant. -/
theorem exists_select_of_singular (singular : Singular variants v) :
    ∃ consumer, consumer ≠ NameMap.empty ∧ select NameMap.empty consumer variants = .ok v := by
  obtain ⟨before, after, split, others⟩ := singular
  obtain ⟨names, unoffered, someName, named⟩ := exists_names_and_unoffered (before ++ after)
  refine ⟨singling v names unoffered, ?_, select_singling split others named⟩
  intro none
  obtain ⟨name, mem⟩ := List.exists_mem_of_ne_nil names someName
  have asked : (singling v names unoffered).get? name =
      (v.attributes.get? name).or (some unoffered) := by
    rw [get?_singling, if_pos mem]
  rw [none, NameMap.get?_empty] at asked
  cases own : v.attributes.get? name <;> simp [own] at asked

end EdgeResolution.Matching
