/-
# EdgeResolution.Proofs.Version.Place -- the order of versions, place by place

Two sequences of tokens are compared at their first places, and only if these are
equal at the next ones; a sequence that has ended has nothing at a place
(`compareTokens_eq_then`).  So everything about the order comes down to
`comparePlace`, the comparison of two things each of which is a token or nothing.

* Tokens alone are in order: `Token.compare` compares grades, and the texts of
  words (`Token.compare_eq`), so it is oriented and transitive.
* Where nothing stands, transitivity is left but for one case: a qualifier that is
  not before a release, and a zero, with nothing between the two (`around_nothing`).
* The whole order is oriented (`compareTokens_swap`).
-/
import EdgeResolution.Version.Order

namespace EdgeResolution.Version

set_option autoImplicit false

/-! ## Tokens -/

namespace Token

/-- Place of a token in the order of unlike tokens; all words have the same. -/
def grade : Token → Nat
  | .qualifier q => if q.atLeastRelease then q.rank + 1 else q.rank
  | .word _ => Qualifier.release.rank
  | .number n => 8 + n

/-- What sets words apart. -/
def spelling : Token → String
  | .word text => Text.lower text
  | _ => ""

theorem grade_qualifier_lt_number (q : Qualifier) (n : Nat) :
    (Token.qualifier q).grade < (Token.number n).grade := by
  have low : (Token.qualifier q).grade < 8 := by cases q <;> decide
  exact Nat.lt_of_lt_of_le low (Nat.le_add_right 8 n)

theorem grade_word_lt_number (text : String) (n : Nat) :
    (Token.word text).grade < (Token.number n).grade := by
  have low : (Token.word text).grade < 8 := by simp [grade, Qualifier.rank]
  exact Nat.lt_of_lt_of_le low (Nat.le_add_right 8 n)

theorem compare_eq (x y : Token) :
    x.compare y = (Ord.compare x.grade y.grade).then (Ord.compare x.spelling y.spelling) := by
  cases x with
  | number m =>
      cases y with
      | number n => simp [compare, grade, spelling, Nat.compare_eq_ite_lt]
      | qualifier q =>
          rw [Nat.compare_eq_gt.2 (grade_qualifier_lt_number q m)]
          rfl
      | word w =>
          rw [Nat.compare_eq_gt.2 (grade_word_lt_number w m)]
          rfl
  | qualifier p =>
      cases y with
      | number n =>
          rw [Nat.compare_eq_lt.2 (grade_qualifier_lt_number p n)]
          rfl
      | qualifier q => cases p <;> cases q <;> rfl
      | word w => cases p <;> rfl
  | word v =>
      cases y with
      | number n =>
          rw [Nat.compare_eq_lt.2 (grade_word_lt_number v n)]
          rfl
      | qualifier q => cases q <;> rfl
      | word w => simp [compare, grade, spelling]

instance : Std.TransCmp Token.compare := by
  have lexicographic : Token.compare = compareLex (compareOn grade) (compareOn spelling) := by
    funext x y
    exact compare_eq x y
  rw [lexicographic]
  infer_instance

theorem compare_self (x : Token) : x.compare x = .eq :=
  @Std.ReflCmp.compare_self Token compare _ x

theorem compare_swap (x y : Token) : (x.compare y).swap = y.compare x :=
  (@Std.OrientedCmp.eq_swap Token compare _ y x).symm

theorem compare_ne_gt_trans {x y z : Token} (xy : x.compare y ≠ .gt) (yz : y.compare z ≠ .gt) :
    x.compare z ≠ .gt := by
  have le : (x.compare z).isLE :=
    Std.TransCmp.isLE_trans (Ordering.isLE_iff_ne_gt.2 xy) (Ordering.isLE_iff_ne_gt.2 yz)
  exact Ordering.isLE_iff_ne_gt.1 le

/-- A qualifier that is not before the release it qualifies. -/
def isReleaseLevel : Token → Bool
  | .qualifier q => q.atLeastRelease
  | _ => false

end Token

/-! ## Places -/

/-- What two sequences have at one place: a token each, or nothing after their ends. -/
def comparePlace : Option Token → Option Token → Ordering
  | some x, some y => x.compare y
  | some x, none => x.compareAbsent
  | none, some y => y.compareAbsent.swap
  | none, none => .eq

theorem comparePlace_swap (x y : Option Token) : (comparePlace x y).swap = comparePlace y x := by
  cases x with
  | none => cases y <;> simp [comparePlace]
  | some x =>
      cases y with
      | none => rfl
      | some y => exact Token.compare_swap x y

theorem comparePlace_self (x : Option Token) : comparePlace x x = .eq := by
  cases x with
  | none => rfl
  | some x => exact Token.compare_self x

theorem isReleaseLevel_of_not_below {q : Qualifier}
    (notBelow : (Token.qualifier q).compareAbsent ≠ .lt) : (Token.qualifier q).isReleaseLevel := by
  have le : Qualifier.release.rank ≤ q.rank := Nat.compare_ne_lt.1 notBelow
  exact decide_eq_true le

/-- From a token that is not below nothing up to one that is not above it: either both are
equal to nothing, or the first is a qualifier from the release on, and the second is zero. -/
theorem around_nothing {x y : Token} (notBelow : x.compareAbsent ≠ .lt) (le : x.compare y ≠ .gt)
    (notAbove : y.compareAbsent ≠ .gt) :
    (x.compareAbsent = .eq ∧ x.compare y = .eq ∧ y.compareAbsent = .eq) ∨
      (x.isReleaseLevel ∧ y = .number 0) := by
  cases x with
  | number m =>
      cases y with
      | number n =>
          have low : n ≤ 0 := Nat.compare_ne_gt.1 notAbove
          have order : m ≤ n := Nat.compare_ne_gt.1 le
          obtain ⟨rfl, rfl⟩ : m = 0 ∧ n = 0 := by omega
          exact Or.inl ⟨rfl, rfl, rfl⟩
      | qualifier q => exact absurd rfl le
      | word w => exact absurd rfl le
  | qualifier p =>
      cases y with
      | number n =>
          have zero : n = 0 := Nat.le_zero.1 (Nat.compare_ne_gt.1 notAbove)
          exact Or.inr ⟨isReleaseLevel_of_not_below notBelow, by rw [zero]⟩
      | qualifier q =>
          have high : Qualifier.release.rank ≤ p.rank := Nat.compare_ne_lt.1 notBelow
          have low : q.rank ≤ Qualifier.release.rank := Nat.compare_ne_gt.1 notAbove
          have order : p.rank ≤ q.rank := Nat.compare_ne_gt.1 le
          exact Or.inl ⟨Nat.compare_eq_eq.2 (by omega), Nat.compare_eq_eq.2 (by omega),
            Nat.compare_eq_eq.2 (by omega)⟩
      | word w =>
          have level : p.atLeastRelease = true := isReleaseLevel_of_not_below notBelow
          simp [Token.compare, level] at le
  | word v => exact absurd rfl notBelow

/-! ## Sequences -/

theorem compareTokens_nil_right (xs : List Token) : compareTokens xs [] = compareRest xs := by
  cases xs <;> rfl

theorem compareTokens_eq_then (xs ys : List Token) :
    compareTokens xs ys =
      (comparePlace xs.head? ys.head?).then (compareTokens xs.tail ys.tail) := by
  cases xs with
  | nil =>
      cases ys with
      | nil => rfl
      | cons y ys => exact Ordering.swap_then _ _
  | cons x xs =>
      cases ys with
      | nil =>
          rw [compareTokens_nil_right]
          exact congrArg _ (compareTokens_nil_right xs).symm
      | cons y ys => rfl

theorem compareTokens_swap (xs ys : List Token) :
    (compareTokens xs ys).swap = compareTokens ys xs := by
  induction xs generalizing ys with
  | nil => rw [compareTokens_nil_right, compareTokens, Ordering.swap_swap]
  | cons x xs ih =>
      rw [compareTokens_eq_then, compareTokens_eq_then ys, Ordering.swap_then, comparePlace_swap]
      exact congrArg _ (ih ys.tail)

theorem compareTokens_self (xs : List Token) : compareTokens xs xs = .eq := by
  induction xs with
  | nil => rfl
  | cons x xs ih => rw [compareTokens_eq_then, comparePlace_self]; exact ih

/-- A version is not after another only if its first place is not after the other's. -/
theorem comparePlace_ne_gt {xs ys : List Token} (le : compareTokens xs ys ≠ .gt) :
    comparePlace xs.head? ys.head? ≠ .gt := by
  intro greater
  rw [compareTokens_eq_then, greater] at le
  exact le rfl

/-- Where the first places are equal, the others decide. -/
theorem compareTokens_tail {xs ys : List Token} (equal : comparePlace xs.head? ys.head? = .eq) :
    compareTokens xs ys = compareTokens xs.tail ys.tail := by
  rw [compareTokens_eq_then, equal]
  rfl

end EdgeResolution.Version
