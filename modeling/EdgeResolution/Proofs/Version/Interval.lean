/-
# EdgeResolution.Proofs.Version.Interval -- ranges are intervals

Three versions go round only if one of them has a qualifier from the release on
(`Clash.exists_isReleaseLevel`).  So the ordinary versions are in order, and this order has
neither gaps nor ends: zeros, and then a one, come right after a version and before each
later one (`compare_justAfter_lt`), and an `alpha` comes before it (`compare_alpha_lt`).

Each end of a range admits what lies on one side of it.  In the order of the ordinary
versions a range therefore holds whatever lies between two versions that it holds, and it
is empty exactly if its ends leave nothing between them (`Range.Void`).
`contains_interval` says both.
-/
import EdgeResolution.Version.Range
import EdgeResolution.Proofs.Version.Precedence
import EdgeResolution.Proofs.Version.Transitivity

namespace EdgeResolution.Version

set_option autoImplicit false

/-! ## The order of ordinary versions -/

theorem Clash.exists_isReleaseLevel {as bs cs : List Token} (clash : Clash as bs cs) :
    ∃ r : Token, r.isReleaseLevel ∧ (r ∈ as ∨ r ∈ bs ∨ r ∈ cs) := by
  induction clash with
  | endsFirst level => exact ⟨_, level, Or.inr (Or.inl List.mem_cons_self)⟩
  | endsSecond level => exact ⟨_, level, Or.inr (Or.inr List.mem_cons_self)⟩
  | endsLast level => exact ⟨_, level, Or.inl List.mem_cons_self⟩
  | after agree rest ih =>
      obtain ⟨r, level, mem⟩ := ih
      have later := mem.imp List.mem_of_mem_tail (Or.imp List.mem_of_mem_tail List.mem_of_mem_tail)
      exact ⟨r, level, later⟩

theorem not_clashes_of_ordinary {a b c : String} (first : Ordinary a) (second : Ordinary b)
    (third : Ordinary c) : ¬Clashes a b c := by
  intro clash
  obtain ⟨r, level, mem | mem | mem⟩ := clash.exists_isReleaseLevel
  · exact first.not_isReleaseLevel r mem level
  · exact second.not_isReleaseLevel r mem level
  · exact third.not_isReleaseLevel r mem level

/-- A version without qualifiers from the release on. -/
abbrev OrdinaryVersion := { version : String // Ordinary version }

/-- The order of versions among the ordinary ones. -/
def OrdinaryVersion.compare (v w : OrdinaryVersion) : Ordering := Version.compare v.1 w.1

instance : Std.TransCmp OrdinaryVersion.compare where
  eq_swap := (compare_swap _ _).symm
  isLE_trans := by
    intro a b c ab bc
    rw [Ordering.isLE_iff_ne_gt] at ab bc ⊢
    exact (compare_le_trans_iff a.1 b.1 c.1).2 (not_clashes_of_ordinary a.2 b.2 c.2) ab bc

variable {a b c x y z : String}

theorem compare_congr_left (first : Ordinary a) (second : Ordinary b) (third : Ordinary c)
    (equal : compare a b = .eq) : compare a c = compare b c :=
  @Std.TransCmp.congr_left _ OrdinaryVersion.compare _ ⟨a, first⟩ ⟨b, second⟩ ⟨c, third⟩ equal

theorem compare_congr_right (first : Ordinary a) (second : Ordinary b) (third : Ordinary c)
    (equal : compare b c = .eq) : compare a b = compare a c :=
  @Std.TransCmp.congr_right _ OrdinaryVersion.compare _ ⟨a, first⟩ ⟨b, second⟩ ⟨c, third⟩ equal

theorem compare_lt_of_lt_of_le (first : Ordinary a) (second : Ordinary b) (third : Ordinary c)
    (lt : compare a b = .lt) (le : compare b c ≠ .gt) : compare a c = .lt :=
  @Std.TransCmp.lt_of_lt_of_isLE _ OrdinaryVersion.compare _ ⟨a, first⟩ ⟨b, second⟩ ⟨c, third⟩ lt
    (Ordering.isLE_iff_ne_gt.2 le)

theorem compare_lt_of_le_of_lt (first : Ordinary a) (second : Ordinary b) (third : Ordinary c)
    (le : compare a b ≠ .gt) (lt : compare b c = .lt) : compare a c = .lt :=
  @Std.TransCmp.lt_of_isLE_of_lt _ OrdinaryVersion.compare _ ⟨a, first⟩ ⟨b, second⟩ ⟨c, third⟩
    (Ordering.isLE_iff_ne_gt.2 le) lt

/-! ## No gaps and no ends -/

/-- The version with some zeros at its end. -/
def withZeros (v : String) : Nat → String
  | 0 => v
  | n + 1 => withZeros v n ++ "." ++ "0"

/-- The version with some zeros at its end, and then a one. -/
def justAfter (v : String) (zeros : Nat) : String := withZeros v zeros ++ "." ++ "1"

theorem Ordinary.append_dot (first : Ordinary a) (second : Ordinary b) :
    Ordinary (a ++ "." ++ b) := by
  have dot : "." = String.singleton '.' := rfl
  rw [Ordinary, dot, pieces_append_separator rfl]
  exact List.forall_mem_append.2 ⟨first, second⟩

theorem Ordinary.withZeros (ordinary : Ordinary a) (n : Nat) : Ordinary (withZeros a n) := by
  induction n with
  | zero => exact ordinary
  | succ n ih => exact ih.append_dot (by decide)

theorem Ordinary.justAfter (ordinary : Ordinary a) (n : Nat) : Ordinary (justAfter a n) :=
  (ordinary.withZeros n).append_dot (by decide)

theorem tokens_withZeros (v : String) (n : Nat) :
    tokens (withZeros v n) = tokens v ++ List.replicate n (.number 0) := by
  induction n with
  | zero => rw [List.replicate_zero, List.append_nil, withZeros]
  | succ n ih =>
      have zero : tokens "0" = [.number 0] := rfl
      rw [withZeros, tokens_append_dot, zero, ih, List.replicate_succ', List.append_assoc]

theorem tokens_justAfter (v : String) (n : Nat) :
    tokens (justAfter v n) = tokens v ++ (List.replicate n (.number 0) ++ [.number 1]) := by
  have one : tokens "1" = [.number 1] := rfl
  rw [justAfter, tokens_append_dot, one, tokens_withZeros, List.append_assoc]

theorem compareRest_append (xs ys : List Token) :
    compareRest (xs ++ ys) = (compareRest xs).then (compareRest ys) := by
  induction xs with
  | nil => rfl
  | cons x xs ih =>
      show x.compareAbsent.then (compareRest (xs ++ ys)) = _
      rw [ih, compareRest, Ordering.then_assoc]

theorem compareRest_zeros (n : Nat) : compareRest (List.replicate n (.number 0)) = .eq := by
  induction n with
  | zero => rfl
  | succ n ih => exact ih

/-- Zeros at the end do not count. -/
theorem compare_withZeros (v : String) (n : Nat) : compare (withZeros v n) v = .eq := by
  rw [compare, tokens_withZeros, compareTokens_append_self, compareTokens_nil_right,
    compareRest_zeros]

theorem compare_lt_justAfter (v : String) (n : Nat) : compare v (justAfter v n) = .lt := by
  have after : compare (justAfter v n) v = .gt := by
    rw [compare, tokens_justAfter, compareTokens_append_self, compareTokens_nil_right,
      compareRest_append, compareRest_zeros]
    rfl
  rw [← compare_swap, after]
  rfl

theorem compareTokens_zeros_lt {ys : List Token} (early : ∀ y ∈ ys, ¬y.isReleaseLevel)
    (above : compareRest ys = .gt) {n : Nat} (enough : ys.length ≤ n) (zs : List Token) :
    compareTokens (List.replicate n (.number 0) ++ zs) ys = .lt := by
  induction ys generalizing n with
  | nil => cases above
  | cons y ys ih =>
      obtain ⟨m, rfl⟩ : ∃ m, n = m + 1 := Nat.exists_eq_succ_of_ne_zero (by simp at enough; omega)
      -- below the release level a token stands to a zero as it stands to no token
      have first : (Token.number 0).compare y = y.compareAbsent.swap := by
        rw [Token.compareAbsent_eq (early y List.mem_cons_self), Token.compare_swap]
      show ((Token.number 0).compare y).then
        (compareTokens (List.replicate m (.number 0) ++ zs) ys) = .lt
      rw [compareRest, Ordering.then_eq_gt] at above
      rcases above with more | ⟨equal, later⟩
      · rw [first, more]
        rfl
      · rw [first, equal]
        exact ih (fun y mem => early y (List.mem_cons_of_mem _ mem)) later (by simpa using enough)

/-- Before a later version there is room for zeros, as many as it has tokens, and for anything
after them. -/
theorem compareTokens_append_zeros_lt {xs ys : List Token} (early : ∀ y ∈ ys, ¬y.isReleaseLevel)
    (lt : compareTokens xs ys = .lt) {n : Nat} (enough : ys.length ≤ n) (zs : List Token) :
    compareTokens (xs ++ (List.replicate n (.number 0) ++ zs)) ys = .lt := by
  -- on the tokens of `xs`; the zeros then stand against what is left of `ys`
  induction xs generalizing ys with
  | nil => exact compareTokens_zeros_lt early (Ordering.swap_eq_lt.1 lt) enough zs
  | cons x xs ih =>
      rw [compareTokens_eq_then, Ordering.then_eq_lt] at lt ⊢
      refine lt.imp_right fun later => ⟨later.1, ?_⟩
      have shorter : ys.tail.length ≤ n := by
        rw [List.length_tail]
        omega
      exact ih (fun y mem => early y (List.mem_of_mem_tail mem)) later.2 shorter

theorem compare_justAfter_lt (later : Ordinary b) (lt : compare a b = .lt) {n : Nat}
    (enough : (tokens b).length ≤ n) : compare (justAfter a n) b = .lt := by
  rw [compare, tokens_justAfter]
  exact compareTokens_append_zeros_lt later.not_isReleaseLevel lt enough _

theorem ordinary_alpha : Ordinary "alpha" := by decide

theorem compare_alpha_lt (v : String) : compare (v ++ "." ++ "alpha") v = .lt := by
  have alpha : tokens "alpha" = [.qualifier .alpha] := by decide
  rw [compare, tokens_append_dot, alpha, compareTokens_append_self]
  rfl

/-! ## What lies between the ends of a range -/

namespace Bound

variable {b : Bound}

theorem admitsFromBelow_iff :
    b.admitsFromBelow x ↔
      compare b.version x = .lt ∨ (compare b.version x = .eq ∧ b.inclusive) := by
  rw [admitsFromBelow, ← compare_swap b.version x]
  cases compare b.version x <;> simp

theorem admitsFromAbove_iff :
    b.admitsFromAbove x ↔
      compare x b.version = .lt ∨ (compare x b.version = .eq ∧ b.inclusive) := by
  rw [admitsFromAbove]
  cases compare x b.version <;> simp

theorem admitsFromBelow_of_le (low : Ordinary b.version) (first : Ordinary x) (second : Ordinary y)
    (admitted : b.admitsFromBelow x) (le : compare x y ≠ .gt) : b.admitsFromBelow y := by
  rw [admitsFromBelow_iff] at admitted ⊢
  rcases admitted with lt | ⟨equal, inclusive⟩
  · exact Or.inl (compare_lt_of_lt_of_le low first second lt le)
  · rw [compare_congr_left low first second equal]
    cases order : compare x y with
    | lt => exact Or.inl rfl
    | eq => exact Or.inr ⟨rfl, inclusive⟩
    | gt => exact absurd order le

theorem admitsFromAbove_of_le (high : Ordinary b.version) (first : Ordinary x) (second : Ordinary y)
    (admitted : b.admitsFromAbove y) (le : compare x y ≠ .gt) : b.admitsFromAbove x := by
  rw [admitsFromAbove_iff] at admitted ⊢
  rcases admitted with lt | ⟨equal, inclusive⟩
  · exact Or.inl (compare_lt_of_le_of_lt first second high le lt)
  · rw [← compare_congr_right first second high equal]
    cases order : compare x y with
    | lt => exact Or.inl rfl
    | eq => exact Or.inr ⟨rfl, inclusive⟩
    | gt => exact absurd order le

/-- A lower end and an upper one leave something between them. -/
def Apart (l u : Bound) : Prop :=
  compare l.version u.version = .lt ∨
    (compare l.version u.version = .eq ∧ l.inclusive ∧ u.inclusive)

variable {l u : Bound}

theorem apart_of_admits (low : Ordinary l.version) (high : Ordinary u.version)
    (ordinary : Ordinary x) (below : l.admitsFromBelow x) (above : u.admitsFromAbove x) :
    Apart l u := by
  rw [admitsFromBelow_iff] at below
  rw [admitsFromAbove_iff] at above
  rcases below with lt | ⟨equal, inclusive⟩
  · have le : compare x u.version ≠ .gt := by
      intro greater
      simp [greater] at above
    exact Or.inl (compare_lt_of_lt_of_le low ordinary high lt le)
  · rw [Apart, compare_congr_left low ordinary high equal]
    exact above.imp_right fun same => ⟨same.1, inclusive, same.2⟩

theorem exists_admits_of_apart (low : Ordinary l.version) (high : Ordinary u.version)
    (apart : Apart l u) : ∃ x, Ordinary x ∧ l.admitsFromBelow x ∧ u.admitsFromAbove x := by
  rcases apart with lt | ⟨equal, inclusive, inclusive'⟩
  · have above := compare_lt_justAfter l.version (tokens u.version).length
    have below := compare_justAfter_lt high lt le_rfl
    exact ⟨_, low.justAfter _, admitsFromBelow_iff.2 (Or.inl above),
      admitsFromAbove_iff.2 (Or.inl below)⟩
  · have same : compare l.version l.version = .eq := compare_self l.version
    exact ⟨_, low, admitsFromBelow_iff.2 (Or.inr ⟨same, inclusive⟩),
      admitsFromAbove_iff.2 (Or.inr ⟨equal, inclusive'⟩)⟩

end Bound

namespace Range

/-- The versions of the ends. -/
def versions (r : Range) : List String := (r.lower.toList ++ r.upper.toList).map (·.version)

/-- The lower end is above the upper one, or both are at one version and not both include it. -/
def Void (r : Range) : Prop :=
  ∃ l ∈ r.lower, ∃ u ∈ r.upper,
    compare l.version u.version = .gt ∨
      (compare l.version u.version = .eq ∧ ¬(l.inclusive ∧ u.inclusive))

variable {r : Range}

theorem version_mem_of_lower {l : Bound} (lower : l ∈ r.lower) : l.version ∈ r.versions :=
  List.mem_map_of_mem (List.mem_append_left _ (Option.mem_toList.2 lower))

theorem version_mem_of_upper {u : Bound} (upper : u ∈ r.upper) : u.version ∈ r.versions :=
  List.mem_map_of_mem (List.mem_append_right _ (Option.mem_toList.2 upper))

theorem contains_iff :
    r.contains x ↔ (∀ l ∈ r.lower, l.admitsFromBelow x) ∧ ∀ u ∈ r.upper, u.admitsFromAbove x := by
  rw [contains, Bool.and_eq_true, Option.all_eq_true, Option.all_eq_true]
  rfl

theorem void_iff : r.Void ↔ ∃ l ∈ r.lower, ∃ u ∈ r.upper, ¬Bound.Apart l u := by
  have each : ∀ l u : Bound, ¬Bound.Apart l u ↔
      compare l.version u.version = .gt ∨
        (compare l.version u.version = .eq ∧ ¬(l.inclusive ∧ u.inclusive)) := by
    intro l u
    rw [Bound.Apart]
    cases compare l.version u.version <;> simp
  simp only [Void, each]

theorem contains_of_between (ends : ∀ v ∈ r.versions, Ordinary v) (first : Ordinary x)
    (middle : Ordinary y) (last : Ordinary z) (holds : r.contains x) (holds' : r.contains z)
    (le : compare x y ≠ .gt) (le' : compare y z ≠ .gt) : r.contains y := by
  rw [contains_iff] at holds holds' ⊢
  constructor
  · intro l lower
    have low := ends _ (version_mem_of_lower lower)
    exact Bound.admitsFromBelow_of_le low first middle (holds.1 l lower) le
  · intro u upper
    have high := ends _ (version_mem_of_upper upper)
    exact Bound.admitsFromAbove_of_le high middle last (holds'.2 u upper) le'

theorem not_contains_of_void (ends : ∀ v ∈ r.versions, Ordinary v) (void : r.Void)
    (ordinary : Ordinary x) : r.contains x = false := by
  obtain ⟨l, lower, u, upper, closed⟩ := void_iff.1 void
  refine Bool.eq_false_iff.2 fun holds => closed ?_
  obtain ⟨below, above⟩ := contains_iff.1 holds
  exact Bound.apart_of_admits (ends _ (version_mem_of_lower lower))
    (ends _ (version_mem_of_upper upper)) ordinary (below l lower) (above u upper)

/-- A range that is not void holds a version, whichever of its ends are there. -/
theorem exists_contains_of_not_void (ends : ∀ v ∈ r.versions, Ordinary v) (filled : ¬r.Void) :
    ∃ x, Ordinary x ∧ r.contains x := by
  -- by which ends are there: next to the one end, or between the two
  obtain ⟨lower, upper⟩ := r
  cases lower with
  | none =>
      cases upper with
      | none => exact ⟨"1", by decide, rfl⟩
      | some u =>
          have high : Ordinary u.version := ends _ (version_mem_of_upper rfl)
          have below : u.admitsFromAbove (u.version ++ "." ++ "alpha") :=
            Bound.admitsFromAbove_iff.2 (Or.inl (compare_alpha_lt u.version))
          exact ⟨_, high.append_dot ordinary_alpha, by simpa [contains_iff] using below⟩
  | some l =>
      have low : Ordinary l.version := ends _ (version_mem_of_lower rfl)
      cases upper with
      | none =>
          have above : l.admitsFromBelow (justAfter l.version 0) :=
            Bound.admitsFromBelow_iff.2 (Or.inl (compare_lt_justAfter l.version 0))
          exact ⟨_, low.justAfter 0, by simpa [contains_iff] using above⟩
      | some u =>
          have high : Ordinary u.version := ends _ (version_mem_of_upper rfl)
          have apart : Bound.Apart l u := by
            apply Classical.byContradiction
            intro closed
            exact filled (void_iff.2 ⟨l, rfl, u, rfl, closed⟩)
          obtain ⟨x, ordinary, above, below⟩ := Bound.exists_admits_of_apart low high apart
          exact ⟨x, ordinary, by simpa [contains_iff] using And.intro above below⟩

/-- **Ranges are intervals of the ordinary versions.**  What lies between two versions of a range is
in it, and a range holds nothing exactly if its ends leave nothing between them. -/
theorem contains_interval (ends : ∀ v ∈ r.versions, Ordinary v) :
    (∀ x y z, Ordinary x → Ordinary y → Ordinary z → r.contains x → r.contains z →
      compare x y ≠ .gt → compare y z ≠ .gt → r.contains y) ∧
    ((∀ x, Ordinary x → r.contains x = false) ↔ r.Void) := by
  refine ⟨?_, ?_, ?_⟩
  · intro x y z first middle last holds holds' le le'
    exact contains_of_between ends first middle last holds holds' le le'
  · intro empty
    apply Classical.byContradiction
    intro filled
    obtain ⟨x, ordinary, holds⟩ := exists_contains_of_not_void ends filled
    rw [empty x ordinary] at holds
    cases holds
  · intro void x ordinary
    exact not_contains_of_void ends void ordinary

namespace Example

/-- From after the alpha of 1 up to 2, in a spelling of its own. -/
def released : Range := ⟨some ⟨"1-Alpha", false⟩, some ⟨"2.0", true⟩⟩

/-- Both ends are at 1, and the upper one leaves it out. -/
def closed : Range := ⟨some ⟨"1.0", true⟩, some ⟨"1", false⟩⟩

end Example

open Example in
/-- A word lies between a beta and the number that follows it; no spelling of 1 is in the range that
leaves out one of them. -/
theorem contains_interval_word :
    ((∀ v ∈ released.versions, Ordinary v) ∧ Ordinary "1-b" ∧ Ordinary "1-jar" ∧ Ordinary "2" ∧
      released.contains "1-b" ∧ released.contains "2" ∧ compare "1-b" "1-jar" ≠ .gt ∧
      compare "1-jar" "2" ≠ .gt ∧ released.contains "1-jar") ∧
    ((∀ v ∈ closed.versions, Ordinary v) ∧ closed.Void ∧ Ordinary "1.0.0" ∧
      closed.contains "1.0.0" = false) := by
  have ends : ∀ v ∈ released.versions, Ordinary v := by decide +kernel
  have ends' : ∀ v ∈ closed.versions, Ordinary v := by decide
  have first : Ordinary "1-b" := by decide
  have middle : Ordinary "1-jar" := by decide
  have last : Ordinary "2" := by decide
  have spelled : Ordinary "1.0.0" := by decide
  have holds : released.contains "1-b" := by decide +kernel
  have holds' : released.contains "2" := by decide +kernel
  have le : compare "1-b" "1-jar" ≠ .gt := by decide
  have le' : compare "1-jar" "2" ≠ .gt := by decide
  have void : closed.Void := ⟨_, rfl, _, rfl, Or.inr (by decide)⟩
  have between := (contains_interval ends).1 _ _ _ first middle last holds holds' le le'
  have empty := (contains_interval ends').2.2 void _ spelled
  exact ⟨⟨ends, first, middle, last, holds, holds', le, le', between⟩, ends', void, spelled, empty⟩

end Range

end EdgeResolution.Version
