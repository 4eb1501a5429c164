/-
# EdgeResolution.Proofs.Version.FirstDifference -- the place that decides

Versions are gone through place by place, until both have ended (`placeAt`).  The
first place where they differ decides between them, at whatever position it is and
whether or not one of them has ended there (`compareTokens_eq_lt_iff`); without such a
place they are equal (`compareTokens_eq_eq_iff`).

Seen from the other version each place is reversed (`comparePlace_swap`), and so is
the whole comparison: `compare_reversed`.
-/
import EdgeResolution.Proofs.Version.Standing
import EdgeResolution.Proofs.Version.Transitivity

namespace EdgeResolution.Version

set_option autoImplicit false

/-- What two versions have at one place, counted from the left. -/
def placeAt (a b : String) (i : Nat) : Ordering := comparePlace (tokens a)[i]? (tokens b)[i]?

theorem compareTokens_eq_eq_iff (xs ys : List Token) :
    compareTokens xs ys = .eq ↔ ∀ i : Nat, comparePlace xs[i]? ys[i]? = .eq := by
  induction xs, ys using tails_induction with
  | ended => exact iff_of_true rfl fun i => rfl
  | next xs ys ih =>
      rw [compareTokens_eq_then, Ordering.then_eq_eq, ih]
      simp only [List.head?_eq_getElem?, List.getElem?_tail]
      constructor
      · rintro ⟨first, later⟩ i
        cases i with
        | zero => exact first
        | succ i => exact later i
      · intro each
        exact ⟨each 0, fun i => each (i + 1)⟩

theorem compareTokens_eq_lt_iff (xs ys : List Token) :
    compareTokens xs ys = .lt ↔
      ∃ i : Nat, comparePlace xs[i]? ys[i]? = .lt ∧
        ∀ j < i, comparePlace xs[j]? ys[j]? = .eq := by
  induction xs, ys using tails_induction with
  | ended =>
      refine iff_of_false Ordering.noConfusion ?_
      rintro ⟨i, less, -⟩
      cases less
  | next xs ys ih =>
      rw [compareTokens_eq_then, Ordering.then_eq_lt, ih]
      simp only [List.head?_eq_getElem?, List.getElem?_tail]
      constructor
      · rintro (first | ⟨equal, i, less, before⟩)
        · exact ⟨0, first, nofun⟩
        · refine ⟨i + 1, less, fun j earlier => ?_⟩
          cases j with
          | zero => exact equal
          | succ j => exact before j (by omega)
      · rintro ⟨i, less, before⟩
        cases i with
        | zero => exact Or.inl less
        | succ i =>
            exact Or.inr ⟨before 0 (by omega), i, less, fun j earlier => before (j + 1) (by omega)⟩

/-- **From the other side the order is reversed**, and a version is equal to itself.  What decides is
the first place where the versions differ. -/
theorem compare_reversed (a b : String) :
    compare b a = (compare a b).swap ∧ compare a a = .eq ∧
      (compare a b = .eq ↔ ∀ i, placeAt a b i = .eq) ∧
      (compare a b = .lt ↔ ∃ i, placeAt a b i = .lt ∧ ∀ j < i, placeAt a b j = .eq) := by
  refine ⟨?_, compare_self a, ?_, ?_⟩
  · exact (compare_swap a b).symm
  · exact compareTokens_eq_eq_iff (tokens a) (tokens b)
  · exact compareTokens_eq_lt_iff (tokens a) (tokens b)

end EdgeResolution.Version
