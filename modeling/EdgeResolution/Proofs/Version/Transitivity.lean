/-
# EdgeResolution.Proofs.Version.Transitivity -- where the order of versions goes round

A qualifier from the release on is below a zero, but not below the end of a
version, and a zero is equal to the end.  So `1.0` is equal to `1`, and `1` is
before `1-sp`, which is before `1.0` again.

`Clash` is what three versions look like then: they agree up to a place where one
of them has ended, one has such a qualifier and one has a zero, and what follows
there does not undo it.  This is exact: the order goes round on three versions if
and only if they clash (`cycle_iff_clash`).  The other laws of an order fail for
such versions only, which `compare_laws_iff_not_clashes` puts together; versions
without a zero never clash (`compare_trans_of_no_zero`).
-/
import EdgeResolution.Proofs.Version.Place

namespace EdgeResolution.Version

set_option autoImplicit false

/-! ## Three places -/

/-- Three places that are equal to each other. -/
def Agree (x y z : Option Token) : Prop :=
  comparePlace x y = .eq ∧ comparePlace y z = .eq ∧ comparePlace z x = .eq

/-- Nothing, a qualifier from the release on, and a zero: each is at most the next one. -/
def Around (x y z : Option Token) : Prop :=
  x = none ∧ (∃ r : Token, r.isReleaseLevel ∧ y = some r) ∧ z = some (.number 0)

theorem Agree.rotate {x y z : Option Token} (agree : Agree y z x) : Agree x y z :=
  ⟨agree.2.2, agree.1, agree.2.1⟩

theorem eq_of_ne_gt {x y : Option Token} (xy : comparePlace x y ≠ .gt)
    (yx : comparePlace y x ≠ .gt) : comparePlace x y = .eq := by
  rw [← comparePlace_swap] at yx
  cases order : comparePlace x y with
  | lt => exact absurd (by rw [order]; rfl) yx
  | eq => rfl
  | gt => exact absurd order xy

theorem agree_of_none_none {z : Option Token} (yz : comparePlace none z ≠ .gt)
    (zx : comparePlace z none ≠ .gt) : Agree none none z :=
  ⟨rfl, eq_of_ne_gt yz zx, eq_of_ne_gt zx yz⟩

theorem agree_or_around_of_none {y z : Option Token} (xy : comparePlace none y ≠ .gt)
    (yz : comparePlace y z ≠ .gt) (zx : comparePlace z none ≠ .gt) :
    Agree none y z ∨ Around none y z := by
  cases y with
  | none => exact Or.inl (agree_of_none_none yz zx)
  | some y =>
      cases z with
      | none => exact Or.inl (agree_of_none_none xy yz).rotate.rotate
      | some z =>
          have notBelow : y.compareAbsent ≠ .lt := by
            intro below
            exact xy (by rw [comparePlace, below]; rfl)
          rcases around_nothing notBelow yz zx with ⟨equalY, equal, equalZ⟩ | ⟨level, rfl⟩
          · exact Or.inl ⟨by rw [comparePlace, equalY]; rfl, equal, equalZ⟩
          · exact Or.inr ⟨rfl, ⟨y, level, rfl⟩, rfl⟩

/-- Three places that go round are equal to each other, or nothing is one of them. -/
theorem agree_or_around {x y z : Option Token} (xy : comparePlace x y ≠ .gt)
    (yz : comparePlace y z ≠ .gt) (zx : comparePlace z x ≠ .gt) :
    Agree x y z ∨ Around x y z ∨ Around y z x ∨ Around z x y := by
  cases x with
  | none => exact (agree_or_around_of_none xy yz zx).imp_right Or.inl
  | some x =>
      cases y with
      | none =>
          exact (agree_or_around_of_none yz zx xy).imp Agree.rotate fun h => Or.inr (Or.inl h)
      | some y =>
          cases z with
          | none =>
              exact (agree_or_around_of_none zx xy yz).imp (fun h => h.rotate.rotate)
                fun h => Or.inr (Or.inr h)
          | some z =>
              -- tokens alone are in order, so going round leaves them equal
              have yx := Token.compare_ne_gt_trans yz zx
              have zy := Token.compare_ne_gt_trans zx xy
              have xz := Token.compare_ne_gt_trans xy yz
              exact Or.inl ⟨eq_of_ne_gt xy yx, eq_of_ne_gt yz zy, eq_of_ne_gt zx xz⟩

/-! ## Three versions -/

/-- Three token sequences that agree up to some place.  There one of them has ended, the next has
a qualifier from the release on, and the one after that (going round) has a zero; the last two,
against the end, are on the sides that `below`, `above` and their negations say. -/
inductive Clash : List Token → List Token → List Token → Prop
  | endsFirst {r : Token} {bs cs : List Token} (level : r.isReleaseLevel)
      (notBelow : compareRest (r :: bs) ≠ .lt) (below : compareRest cs = .lt) :
      Clash [] (r :: bs) (.number 0 :: cs)
  | endsSecond {r : Token} {as cs : List Token} (level : r.isReleaseLevel)
      (notAbove : compareRest as ≠ .gt) (notBelow : compareRest (r :: cs) ≠ .lt) :
      Clash (.number 0 :: as) [] (r :: cs)
  | endsLast {r : Token} {as bs : List Token} (level : r.isReleaseLevel)
      (notAbove : compareRest bs ≠ .gt) (above : compareRest (r :: as) = .gt) :
      Clash (r :: as) (.number 0 :: bs) []
  | after {as bs cs : List Token} (agree : Agree as.head? bs.head? cs.head?)
      (rest : Clash as.tail bs.tail cs.tail) : Clash as bs cs

theorem compare_zero_of_isReleaseLevel {r : Token} (level : r.isReleaseLevel) :
    r.compare (.number 0) = .lt := by
  cases r with
  | number n => cases level
  | qualifier q => rfl
  | word text => cases level

theorem zero_compare_of_isReleaseLevel {r : Token} (level : r.isReleaseLevel) :
    (Token.number 0).compare r = .gt := by
  rw [← Token.compare_swap, compare_zero_of_isReleaseLevel level]
  rfl

theorem nil_compare_ne_gt {xs : List Token} :
    compareTokens [] xs ≠ .gt ↔ compareRest xs ≠ .lt := by
  rw [compareTokens]
  cases compareRest xs <;> simp

theorem nil_compare_eq_gt {xs : List Token} : compareTokens [] xs = .gt ↔ compareRest xs = .lt := by
  rw [compareTokens]
  cases compareRest xs <;> simp

theorem compareTokens_tail_of_swap {xs ys : List Token}
    (equal : comparePlace ys.head? xs.head? = .eq) :
    compareTokens xs ys = compareTokens xs.tail ys.tail := by
  apply compareTokens_tail
  rw [← comparePlace_swap, equal]
  rfl

theorem Clash.cycle {as bs cs : List Token} (clash : Clash as bs cs) :
    compareTokens as bs ≠ .gt ∧ compareTokens bs cs ≠ .gt ∧ compareTokens as cs = .gt := by
  induction clash with
  | endsFirst level notBelow below =>
      refine ⟨nil_compare_ne_gt.2 notBelow, ?_, nil_compare_eq_gt.2 below⟩
      rw [compareTokens, compare_zero_of_isReleaseLevel level]
      exact Ordering.noConfusion
  | endsSecond level notAbove notBelow =>
      refine ⟨notAbove, nil_compare_ne_gt.2 notBelow, ?_⟩
      rw [compareTokens, zero_compare_of_isReleaseLevel level]
      rfl
  | endsLast level notAbove above =>
      refine ⟨?_, notAbove, above⟩
      rw [compareTokens, compare_zero_of_isReleaseLevel level]
      exact Ordering.noConfusion
  | after agree rest ih =>
      obtain ⟨first, second, third⟩ := agree
      rw [compareTokens_tail first, compareTokens_tail second, compareTokens_tail_of_swap third]
      exact ih

/-- What versions are whose first places go round without being equal. -/
theorem Around.shape {xs ys zs : List Token} (around : Around xs.head? ys.head? zs.head?) :
    xs = [] ∧ ∃ (r : Token) (us vs : List Token),
      r.isReleaseLevel ∧ ys = r :: us ∧ zs = .number 0 :: vs := by
  obtain ⟨ended, ⟨r, level, qualified⟩, zero⟩ := around
  obtain ⟨us, shapeY⟩ := List.head?_eq_some_iff.1 qualified
  obtain ⟨vs, shapeZ⟩ := List.head?_eq_some_iff.1 zero
  exact ⟨List.head?_eq_none_iff.1 ended, r, us, vs, level, shapeY, shapeZ⟩

/-- By induction on how long the versions are: places that agree are dropped from all three. -/
theorem clash_of_cycle (n : Nat) {as bs cs : List Token}
    (short : as.length ≤ n ∧ bs.length ≤ n ∧ cs.length ≤ n) (ab : compareTokens as bs ≠ .gt)
    (bc : compareTokens bs cs ≠ .gt) (ac : compareTokens as cs = .gt) : Clash as bs cs := by
  induction n generalizing as bs cs with
  | zero =>
      obtain rfl := List.length_eq_zero_iff.1 (Nat.le_zero.1 short.1)
      obtain rfl := List.length_eq_zero_iff.1 (Nat.le_zero.1 short.2.2)
      cases ac
  | succ n ih =>
      have ca : compareTokens cs as ≠ .gt := by
        rw [← compareTokens_swap, ac]
        exact Ordering.noConfusion
      rcases agree_or_around (comparePlace_ne_gt ab) (comparePlace_ne_gt bc)
        (comparePlace_ne_gt ca) with agree | around | around | around
      · obtain ⟨first, second, third⟩ := agree
        rw [compareTokens_tail first] at ab
        rw [compareTokens_tail second] at bc
        rw [compareTokens_tail_of_swap third] at ac
        have shorter : as.tail.length ≤ n ∧ bs.tail.length ≤ n ∧ cs.tail.length ≤ n := by
          simp only [List.length_tail]
          omega
        exact .after ⟨first, second, third⟩ (ih shorter ab bc ac)
      · obtain ⟨rfl, r, bs, cs, level, rfl, rfl⟩ := around.shape
        exact .endsFirst level (nil_compare_ne_gt.1 ab) (nil_compare_eq_gt.1 ac)
      · obtain ⟨rfl, r, cs, as, level, rfl, rfl⟩ := around.shape
        exact .endsSecond level ab (nil_compare_ne_gt.1 bc)
      · obtain ⟨rfl, r, as, bs, level, rfl, rfl⟩ := around.shape
        exact .endsLast level bc ac

theorem cycle_iff_clash (as bs cs : List Token) :
    (compareTokens as bs ≠ .gt ∧ compareTokens bs cs ≠ .gt ∧ compareTokens as cs = .gt) ↔
      Clash as bs cs := by
  constructor
  · rintro ⟨ab, bc, ac⟩
    have short : as.length ≤ as.length + bs.length + cs.length ∧
        bs.length ≤ as.length + bs.length + cs.length ∧
        cs.length ≤ as.length + bs.length + cs.length := by omega
    exact clash_of_cycle _ short ab bc ac
  · intro clash
    exact clash.cycle

theorem Clash.zero_mem {as bs cs : List Token} (clash : Clash as bs cs) :
    Token.number 0 ∈ as ∨ Token.number 0 ∈ bs ∨ Token.number 0 ∈ cs := by
  induction clash with
  | endsFirst => exact Or.inr (Or.inr List.mem_cons_self)
  | endsSecond => exact Or.inl List.mem_cons_self
  | endsLast => exact Or.inr (Or.inl List.mem_cons_self)
  | after agree rest ih =>
      rcases ih with inFirst | inSecond | inLast
      · exact Or.inl (List.mem_of_mem_tail inFirst)
      · exact Or.inr (Or.inl (List.mem_of_mem_tail inSecond))
      · exact Or.inr (Or.inr (List.mem_of_mem_tail inLast))

/-! ## The laws of an order -/

/-- The tokens of three versions clash. -/
def Clashes (a b c : String) : Prop := Clash (tokens a) (tokens b) (tokens c)

theorem clashes_iff (a b c : String) :
    Clashes a b c ↔ compare a b ≠ .gt ∧ compare b c ≠ .gt ∧ compare a c = .gt :=
  (cycle_iff_clash (tokens a) (tokens b) (tokens c)).symm

theorem compare_swap (a b : String) : (compare a b).swap = compare b a :=
  compareTokens_swap (tokens a) (tokens b)

theorem compare_self (a : String) : compare a a = .eq := compareTokens_self (tokens a)

theorem compare_eq_comm (a b : String) : compare a b = .eq ↔ compare b a = .eq := by
  rw [← compare_swap a b, Ordering.swap_eq_eq]

theorem compare_le_trans_iff (a b c : String) :
    (compare a b ≠ .gt → compare b c ≠ .gt → compare a c ≠ .gt) ↔ ¬Clashes a b c := by
  rw [clashes_iff]
  constructor
  · rintro trans ⟨ab, bc, ac⟩
    exact trans ab bc ac
  · intro away ab bc ac
    exact away ⟨ab, bc, ac⟩

theorem compare_eq_trans_iff {a b c : String} (ab : compare a b = .eq) (bc : compare b c = .eq) :
    compare a c = .eq ↔ ¬(Clashes a b c ∨ Clashes c b a) := by
  have ba : compare b a = .eq := (compare_eq_comm a b).1 ab
  have cb : compare c b = .eq := (compare_eq_comm b c).1 bc
  rw [clashes_iff, clashes_iff, ← compare_swap a c, ab, bc, ba, cb]
  cases compare a c <;> simp

/-- Equal versions compare alike with a third one, unless it clashes with them. -/
theorem compare_congr_iff {a b : String} (ab : compare a b = .eq) (c : String) :
    compare a c = compare b c ↔
      ¬(Clashes a b c ∨ Clashes b a c ∨ Clashes c a b ∨ Clashes c b a) := by
  have ba : compare b a = .eq := (compare_eq_comm a b).1 ab
  rw [clashes_iff, clashes_iff, clashes_iff, clashes_iff, ← compare_swap a c, ← compare_swap b c,
    ab, ba]
  cases compare a c <;> cases compare b c <;> simp

/-- Versions without a zero are in order. -/
theorem compare_trans_of_no_zero {a b c : String}
    (noZero : ∀ v ∈ [a, b, c], Token.number 0 ∉ tokens v)
    (ab : compare a b ≠ .gt) (bc : compare b c ≠ .gt) : compare a c ≠ .gt := by
  have away : ¬Clashes a b c := by
    intro clash
    rcases clash.zero_mem with zero | zero | zero
    · exact noZero a (by simp) zero
    · exact noZero b (by simp) zero
    · exact noZero c (by simp) zero
  exact (compare_le_trans_iff a b c).2 away ab bc

/-- Which laws of an order hold: it is reflexive and, as equality, symmetric.  It is transitive,
equality is too, and equal versions compare alike with a third one, each exactly where the
versions do not clash. -/
theorem compare_laws_iff_not_clashes (a b c : String) :
    ((compare a b ≠ .gt → compare b c ≠ .gt → compare a c ≠ .gt) ↔ ¬Clashes a b c) ∧
      compare a a = .eq ∧ (compare a b = .eq → compare b a = .eq) ∧
      (compare a b = .eq → compare b c = .eq →
        (compare a c = .eq ↔ ¬(Clashes a b c ∨ Clashes c b a))) ∧
      (compare a b = .eq →
        (compare a c = compare b c ↔
          ¬(Clashes a b c ∨ Clashes b a c ∨ Clashes c a b ∨ Clashes c b a))) := by
  refine ⟨compare_le_trans_iff a b c, compare_self a, (compare_eq_comm a b).1, ?_, ?_⟩
  · intro ab bc
    exact compare_eq_trans_iff ab bc
  · intro ab
    exact compare_congr_iff ab c

/-- A service pack clashes with a release that is written with and without a zero, a candidate
does not. -/
theorem compare_laws_iff_not_clashes_service_pack :
    Clashes "1.0" "1" "1-sp" ∧ ¬Clashes "1.0" "1" "1-rc" ∧
      compare "1.0" "1-rc" = compare "1" "1-rc" := by
  have equal : compare "1.0" "1" = .eq := by decide +kernel
  have alike : compare "1.0" "1-rc" = compare "1" "1-rc" := by decide +kernel
  have pack := (compare_laws_iff_not_clashes "1.0" "1" "1-sp").1
  have candidate := (compare_laws_iff_not_clashes "1.0" "1" "1-rc").2.2.2.2 equal
  refine ⟨?_, fun clash => candidate.1 alike (Or.inl clash), alike⟩
  apply Classical.byContradiction
  intro away
  exact pack.2 away (by decide +kernel) (by decide +kernel) (by decide +kernel)

theorem not_compare_trans :
    ¬∀ a b c : String, compare a b ≠ .gt → compare b c ≠ .gt → compare a c ≠ .gt := by
  intro trans
  exact trans "1.0" "1" "1-sp" (by decide +kernel) (by decide +kernel) (by decide +kernel)

end EdgeResolution.Version
