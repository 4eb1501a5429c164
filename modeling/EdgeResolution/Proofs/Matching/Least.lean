/-
# EdgeResolution.Proofs.Matching.Least -- the items of a list with the least key

`leastBy key items` keeps the items whose key no other item undercuts, in order.
Keeping the least by one key and then, of these, by a second one, is keeping the
least by both in lexicographic order (`leastBy_leastBy`).  Items that are not kept
might as well not be there (`leastBy_of_not_mem`).  No item is left only when there
was none, and a single one when its key is strictly the least.
-/
import Mathlib.Data.List.Lex
import Mathlib.Data.Set.Finite.Lemmas
import Mathlib.Data.Set.Finite.List

namespace EdgeResolution.Matching

set_option autoImplicit false

variable {α β γ δ : Type} [LinearOrder β] [LinearOrder γ] [LinearOrder δ]

def leastBy (key : α → β) (items : List α) : List α :=
  items.filter fun v => decide (∀ w ∈ items, key v ≤ key w)

theorem mem_leastBy {key : α → β} {items : List α} {v : α} :
    v ∈ leastBy key items ↔ v ∈ items ∧ ∀ w ∈ items, key v ≤ key w := by
  simp [leastBy]

/-- Two keys in turn are one key, if it compares like the first and then the second. -/
theorem leastBy_leastBy {first : α → β} {second : α → γ} {both : α → δ} (items : List α)
    (compares : ∀ v w,
      both v ≤ both w ↔ first v < first w ∨ first v = first w ∧ second v ≤ second w) :
    leastBy second (leastBy first items) = leastBy both items := by
  conv_lhs => rw [leastBy]
  conv_lhs => enter [2]; rw [leastBy]
  rw [leastBy, List.filter_filter]
  refine List.filter_congr fun v mem => ?_
  rw [← Bool.decide_and, decide_eq_decide]
  constructor
  · rintro ⟨leastSecond, leastFirst⟩ w memW
    rw [compares]
    rcases lt_or_eq_of_le (leastFirst w memW) with less | same
    · exact Or.inl less
    · refine Or.inr ⟨same, leastSecond w (mem_leastBy.2 ⟨memW, fun u memU => ?_⟩)⟩
      rw [← same]
      exact leastFirst u memU
  · intro least
    have leastFirst : ∀ w ∈ items, first v ≤ first w := by
      intro w memW
      rcases (compares v w).1 (least w memW) with less | ⟨same, -⟩
      · exact less.le
      · exact same.le
    refine ⟨fun w memW => ?_, leastFirst⟩
    obtain ⟨inItems, leastW⟩ := mem_leastBy.1 memW
    rcases (compares v w).1 (least w inItems) with less | ⟨-, le⟩
    · exact absurd less (leastW v mem).not_gt
    · exact le

theorem leastBy_const (key : β) (items : List α) : leastBy (fun _ => key) items = items := by
  simp [leastBy]

theorem leastBy_singleton (key : α → β) (v : α) : leastBy key [v] = [v] := by
  simp [leastBy]

/-- The list order here is the linear one, which the core library's lemma is not about. -/
theorem cons_le_cons_iff {a b : β} {as bs : List β} :
    a :: as ≤ b :: bs ↔ a < b ∨ a = b ∧ as ≤ bs := by
  rw [← not_lt, ← not_lt, List.cons_lt_cons_iff]
  constructor
  · intro h
    rcases lt_trichotomy a b with less | same | greater
    · exact Or.inl less
    · exact Or.inr ⟨same, fun lt => h (Or.inr ⟨same.symm, lt⟩)⟩
    · exact absurd (Or.inl greater) h
  · rintro (less | ⟨rfl, notLt⟩) (greater | ⟨same, lt⟩)
    · exact less.not_gt greater
    · exact less.ne same.symm
    · exact lt_irrefl _ greater
    · exact notLt lt

/-! ## Other lists with the same least items -/

/-- An item that is not least has no part in which of the others are. -/
theorem leastBy_of_not_mem {key : α → β} {before after : List α} {lost : α}
    (beaten : lost ∉ leastBy key (before ++ lost :: after)) :
    leastBy key (before ++ lost :: after) = leastBy key (before ++ after) := by
  obtain ⟨w, mem, less⟩ : ∃ w ∈ before ++ after, key w < key lost := by
    by_contra none
    push Not at none
    refine beaten (mem_leastBy.2 ⟨by simp, fun u memU => ?_⟩)
    rcases List.mem_append.1 memU with inBefore | inRest
    · exact none u (List.mem_append_left _ inBefore)
    · rcases List.mem_cons.1 inRest with rfl | inAfter
      · exact le_rfl
      · exact none u (List.mem_append_right _ inAfter)
  have least_iff : ∀ v, (∀ u ∈ before ++ lost :: after, key v ≤ key u) ↔
      ∀ u ∈ before ++ after, key v ≤ key u := by
    intro v
    constructor
    · intro least u memU
      refine least u ?_
      simp only [List.mem_append, List.mem_cons] at memU ⊢
      tauto
    · intro least u memU
      simp only [List.mem_append, List.mem_cons] at memU
      rcases memU with inBefore | rfl | inAfter
      · exact least u (List.mem_append_left _ inBefore)
      · exact (least w mem).trans less.le
      · exact least u (List.mem_append_right _ inAfter)
  have dropped : ¬decide (∀ u ∈ before ++ after, key lost ≤ key u) = true :=
    fun least => (of_decide_eq_true least w mem).not_gt less
  simp only [leastBy, least_iff]
  rw [List.filter_append, List.filter_cons, if_neg dropped, ← List.filter_append]

theorem leastBy_perm {key : α → β} {items items' : List α} (perm : items.Perm items') :
    (leastBy key items).Perm (leastBy key items') := by
  simp only [leastBy, perm.mem_iff]
  exact perm.filter _

/-! ## How many are left -/

theorem leastBy_eq_nil_iff {key : α → β} {items : List α} :
    leastBy key items = [] ↔ items = [] := by
  constructor
  · intro none
    by_contra some
    obtain ⟨v, mem⟩ := List.exists_mem_of_ne_nil items some
    obtain ⟨w, memW, least⟩ :=
      Set.exists_min_image {u | u ∈ items} key (List.finite_toSet items) ⟨v, mem⟩
    have : w ∈ leastBy key items := mem_leastBy.2 ⟨memW, least⟩
    rw [none] at this
    cases this
  · rintro rfl
    rfl

/-- One item is left exactly when its key is strictly the least. -/
theorem leastBy_eq_singleton_iff {key : α → β} {items : List α} {v : α} :
    leastBy key items = [v] ↔
      ∃ before after, items = before ++ v :: after ∧ ∀ w ∈ before ++ after, key v < key w := by
  constructor
  · intro single
    obtain ⟨before, after, split, notBefore, least, notAfter⟩ := List.filter_eq_cons_iff.1 single
    rw [List.filter_eq_nil_iff] at notAfter
    refine ⟨before, after, split, fun w mem => ?_⟩
    have leastV : ∀ u ∈ items, key v ≤ key u := of_decide_eq_true least
    have inItems : w ∈ items := by
      rw [split]
      simp only [List.mem_append, List.mem_cons] at mem ⊢
      tauto
    refine lt_of_le_of_ne (leastV w inItems) fun same => ?_
    have leastW : decide (∀ u ∈ items, key w ≤ key u) = true :=
      decide_eq_true fun u memU => same ▸ leastV u memU
    rcases List.mem_append.1 mem with inBefore | inAfter
    · exact notBefore w inBefore leastW
    · exact notAfter w inAfter leastW
  · rintro ⟨before, after, rfl, less⟩
    have beaten : ∀ w ∈ before ++ after,
        ¬ decide (∀ u ∈ before ++ v :: after, key w ≤ key u) = true := by
      intro w mem least
      exact (less w mem).not_ge (of_decide_eq_true least v (by simp))
    have least : ∀ u ∈ before ++ v :: after, key v ≤ key u := by
      intro u mem
      rcases List.mem_append.1 mem with inBefore | inRest
      · exact (less u (List.mem_append_left _ inBefore)).le
      · rcases List.mem_cons.1 inRest with rfl | inAfter
        · exact le_rfl
        · exact (less u (List.mem_append_right _ inAfter)).le
    refine List.filter_eq_cons_iff.2 ⟨before, after, rfl, ?_, decide_eq_true least, ?_⟩
    · exact fun w mem => beaten w (List.mem_append_left _ mem)
    · exact List.filter_eq_nil_iff.2 fun w mem => beaten w (List.mem_append_right _ mem)

end EdgeResolution.Matching
