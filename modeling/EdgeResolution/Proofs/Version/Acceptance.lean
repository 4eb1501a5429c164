/-
# EdgeResolution.Proofs.Version.Acceptance -- what acceptance depends on

A constraint accepts by its patterns alone: the one that decides and those that are
rejected.  If the patterns of two constraints, each in its place, accept alike, then so do
the constraints, also for two candidates (`Constraint.accepts_congr`).

* `accepts_replaced`: one version may be written as a range with nothing else in it.  The
  brackets are read before anything between them could be taken for another notation, and
  what the two ends admit from either side is what equals the version.
* `accepts_equal`: patterns that go by the order of versions do not tell equal candidates
  apart, as far as the versions are ordinary.
-/
import EdgeResolution.Version.Constraint
import EdgeResolution.Proofs.Version.Interval
import EdgeResolution.Proofs.Version.Notation
import Mathlib.Data.List.Forall2

namespace EdgeResolution.Version

set_option autoImplicit false

open Text (Trimmed trimChars)

/-! ## Constraints with patterns in the same places -/

/-- The pattern of one text accepts `a` just when that of the other accepts `b`. -/
def AcceptAlike (a b : String) (p q : String) : Prop :=
  (Pattern.read p).accepts a = (Pattern.read q).accepts b

namespace Constraint

/-- Two constraints have patterns in the same places, each related to the other's.  Their branches
are left open. -/
structure Alike (R : String → String → Prop) (c d : Constraint) : Prop where
  strictly : Option.Rel R c.strictly d.strictly
  require : Option.Rel R c.require d.require
  prefer : Option.Rel R c.prefer d.prefer
  reject : List.Forall₂ R c.reject d.reject

variable {R S : String → String → Prop} {c d : Constraint} {a b v w : String}

theorem rel_or {p q p' q' : Option String} (first : Option.Rel R p p')
    (second : Option.Rel R q q') :
    Option.Rel R (p.or q) (p'.or q') := by
  cases first with
  | none => exact second
  | some related => exact .some related

theorem rel_imp {p q : Option String} (each : ∀ x y, R x y → S x y) (related : Option.Rel R p q) :
    Option.Rel S p q := by
  cases related with
  | none => exact .none
  | some related => exact .some (each _ _ related)

/-- The patterns that decide are in the same place. -/
theorem Alike.effective (alike : Alike R c d) : Option.Rel R c.effective d.effective :=
  rel_or alike.strictly (rel_or alike.require alike.prefer)

theorem any_congr {p q : String → Bool} {xs ys : List String}
    (related : List.Forall₂ (fun x y => p x = q y) xs ys) : xs.any p = ys.any q := by
  induction related with
  | nil => rfl
  | cons same _ ih => rw [List.any_cons, List.any_cons, same, ih]

theorem all_congr {p q : String → Bool} {x y : Option String}
    (related : Option.Rel (fun x y => p x = q y) x y) : x.all p = y.all q := by
  cases related with
  | none => rfl
  | some same => exact same

theorem accepts_congr (deciding : Option.Rel (AcceptAlike a b) c.effective d.effective)
    (rejected : List.Forall₂ (AcceptAlike a b) c.reject d.reject) : c.accepts a = d.accepts b := by
  rw [accepts, accepts, any_congr rejected, all_congr deciding]

theorem accepts_eq_false_of_reject {p : String} (rejected : p ∈ c.reject)
    (accepted : (Pattern.read p).accepts a) : c.accepts a = false := by
  have found : (c.reject.any fun r => (Pattern.read r).accepts a) = true :=
    List.any_eq_true.2 ⟨p, rejected, accepted⟩
  rw [accepts, found]
  rfl

end Constraint

/-! ## One version as a range -/

namespace Range

/-- The range that has this version at both ends. -/
def single (w : String) : Range := ⟨some ⟨w, true⟩, some ⟨w, true⟩⟩

/-- The text of a range with nothing but `w` between its brackets. -/
def inBrackets (w : String) : String := "[" ++ w ++ "]"

variable {w : String}

theorem contains_single (w x : String) : (single w).contains x = (compare w x == .eq) := by
  rw [contains, ← compare_swap x w]
  simp only [single, Option.all_some, Bound.admitsFromBelow, Bound.admitsFromAbove]
  cases compare x w <;> rfl

theorem trimChars_inBrackets (w : String) :
    trimChars (inBrackets w).toList =
      openingBracket true :: (w.toList ++ [closingBracket true]) := by
  have chars :
      (inBrackets w).toList = openingBracket true :: (w.toList ++ [closingBracket true]) := by
    simp [inBrackets, openingBracket, closingBracket]
  rw [chars]
  exact Text.trimChars_of_trimmed (trimmed_bracketed true true w.toList)

theorem read?_inBrackets (filled : w ≠ "") (trimmed : Trimmed w.toList) (plain : ',' ∉ w.toList) :
    read? (inBrackets w) = some (single w) := by
  have alone : splitComma w.toList = none := splitComma_eq_none_iff.2 plain
  have kept : Bound.read? w.toList true = some ⟨w, true⟩ := by
    obtain ⟨c, rest, chars⟩ := List.exists_cons_of_ne_nil (mt String.toList_eq_nil_iff.1 filled)
    rw [Bound.read?, Text.trimChars_of_trimmed trimmed, chars]
    show some (⟨String.ofList (c :: rest), true⟩ : Bound) = some ⟨w, true⟩
    rw [← chars, String.ofList_toList]
  rw [read?_of_bracketed (trimChars_inBrackets w), ofInner?, alone, kept]
  rfl

end Range

namespace Pattern

open Range (openingBracket closingBracket inBrackets single)

variable {text v w : String} {inside : List Char} {i j : Bool} {r : Range}

/-- A text in brackets is no other notation. -/
theorem read_of_bracketed
    (bracketed : trimChars text.toList = openingBracket i :: (inside ++ [closingBracket j]))
    (found : Range.read? text = some r) : read text = .within r := by
  have notAny : isAny (openingBracket i :: (inside ++ [closingBracket j])) = false := by
    cases i <;> rfl
  have noPlus : beforePlus? (openingBracket i :: (inside ++ [closingBracket j])) = none := by
    rw [beforePlus?, Range.getLast?_bracketed]
    cases j <;> rfl
  rw [read, bracketed]
  simp [notAny, noPlus, found]

/-- What is read as one version is some text without blanks around it. -/
theorem filled_and_trimmed_of_read_eq_exactly (one : read v = .exactly w) :
    w ≠ "" ∧ Trimmed w.toList := by
  by_cases blank : isAny (trimChars v.toList)
  · simp [read, blank] at one
  · have filled : trimChars v.toList ≠ [] := by
      intro none
      exact blank (by rw [none]; rfl)
    have kept : String.ofList (trimChars v.toList) = w := by
      cases plus : beforePlus? (trimChars v.toList) with
      | some start => simp [read, blank, plus] at one
      | none =>
          cases range : Range.read? v with
          | some r => simp [read, blank, plus, range] at one
          | none => simpa [read, blank, plus, range] using one
    rw [← kept, String.toList_ofList]
    exact ⟨by simpa using filled, Text.trimmed_trimChars v.toList⟩

theorem read_inBrackets (one : read v = .exactly w) (plain : ',' ∉ w.toList) :
    read (inBrackets w) = .within (single w) := by
  obtain ⟨filled, trimmed⟩ := filled_and_trimmed_of_read_eq_exactly one
  exact read_of_bracketed (Range.trimChars_inBrackets w)
    (Range.read?_inBrackets filled trimmed plain)

theorem acceptAlike_inBrackets (one : read v = .exactly w) (plain : ',' ∉ w.toList) (x : String) :
    AcceptAlike x x v (inBrackets w) := by
  rw [AcceptAlike, read_inBrackets one plain, one]
  exact (Range.contains_single w x).symm

end Pattern

/-- The second constraint is the first one with `v'` for `v` in some places. -/
def Replaced (v v' : String) : Constraint → Constraint → Prop :=
  Constraint.Alike fun p q => q = p ∨ (p = v ∧ q = v')

/-- **One version is the range that has nothing else in it**, read from the version in brackets, and
wherever a constraint has the one for the other, it accepts the same. -/
theorem accepts_replaced {v w : String} (one : Pattern.read v = .exactly w)
    (plain : ',' ∉ w.toList) :
    (∃ r, Pattern.read (Range.inBrackets w) = .within r ∧
      ∀ x, r.contains x = (Pattern.read v).accepts x ∧ (r.contains x ↔ compare w x = .eq)) ∧
    ∀ c d, Replaced v (Range.inBrackets w) c d → ∀ x, d.accepts x = c.accepts x := by
  refine ⟨⟨Range.single w, Pattern.read_inBrackets one plain, fun x => ⟨?_, ?_⟩⟩, ?_⟩
  · rw [one]
    exact Range.contains_single w x
  · rw [Range.contains_single, beq_iff_eq]
  · intro c d replaced x
    have alike : ∀ p q, (q = p ∨ (p = v ∧ q = Range.inBrackets w)) → AcceptAlike x x p q := by
      rintro p q (rfl | ⟨rfl, rfl⟩)
      · rfl
      · exact Pattern.acceptAlike_inBrackets one plain x
    have deciding := Constraint.rel_imp alike replaced.effective
    exact (Constraint.accepts_congr deciding (replaced.reject.imp alike)).symm

namespace Example

/-- Neither text is a range: the one in brackets needs a second one to close it. -/
def halfOpen : Constraint := ⟨some "\u3000[1.0 ", some "2", none, ["[1.0", "\u3000[1.0 "], none⟩

def halfOpenBracketed : Constraint := ⟨some "[[1.0]", some "2", none, ["[1.0", "[[1.0]"], none⟩

end Example

open Example in
theorem accepts_replaced_half_open :
    Pattern.read "\u3000[1.0 " = .exactly "[1.0" ∧ ',' ∉ "[1.0".toList ∧
      Replaced "\u3000[1.0 " "[[1.0]" halfOpen halfOpenBracketed ∧
      halfOpenBracketed.accepts "1" = halfOpen.accepts "1" := by
  have one : Pattern.read "\u3000[1.0 " = .exactly "[1.0" := by decide
  have plain : ',' ∉ "[1.0".toList := by decide
  have replaced : Replaced "\u3000[1.0 " "[[1.0]" halfOpen halfOpenBracketed := by
    refine ⟨.none, .some (Or.inr ⟨rfl, rfl⟩), .some (Or.inl rfl), ?_⟩
    exact .cons (Or.inl rfl) (.cons (Or.inr ⟨rfl, rfl⟩) .nil)
  exact ⟨one, plain, replaced, (accepts_replaced one plain).2 _ _ replaced "1"⟩

/-! ## Equal candidates -/

/-- The pattern goes by the order of versions, and all versions it names are ordinary. -/
inductive Pattern.Ordered : Pattern → Prop
  | any : Ordered .any
  | exactly {version : String} (ordinary : Ordinary version) : Ordered (.exactly version)
  | within {range : Range} (ends : ∀ v ∈ range.versions, Ordinary v) : Ordered (.within range)

/-- The patterns on which acceptance depends. -/
def Constraint.patterns (c : Constraint) : List Pattern :=
  (c.effective.toList ++ c.reject).map Pattern.read

variable {a b : String}

theorem Bound.admitsFromBelow_congr {l : Bound} (low : Ordinary l.version) (first : Ordinary a)
    (second : Ordinary b) (equal : compare a b = .eq) :
    l.admitsFromBelow a = l.admitsFromBelow b := by
  rw [admitsFromBelow, compare_congr_left first second low equal, admitsFromBelow]

theorem Bound.admitsFromAbove_congr {u : Bound} (high : Ordinary u.version) (first : Ordinary a)
    (second : Ordinary b) (equal : compare a b = .eq) :
    u.admitsFromAbove a = u.admitsFromAbove b := by
  rw [admitsFromAbove, compare_congr_left first second high equal, admitsFromAbove]

theorem Range.contains_congr {r : Range} (ends : ∀ v ∈ r.versions, Ordinary v)
    (first : Ordinary a) (second : Ordinary b) (equal : compare a b = .eq) :
    r.contains a = r.contains b := by
  have below : ∀ l ∈ r.lower, l.admitsFromBelow a = l.admitsFromBelow b := by
    intro l lower
    exact Bound.admitsFromBelow_congr (ends _ (version_mem_of_lower lower)) first second equal
  have above : ∀ u ∈ r.upper, u.admitsFromAbove a = u.admitsFromAbove b := by
    intro u upper
    exact Bound.admitsFromAbove_congr (ends _ (version_mem_of_upper upper)) first second equal
  rw [Bool.eq_iff_iff, contains_iff, contains_iff]
  exact and_congr (forall₂_congr fun l lower => by rw [below l lower])
    (forall₂_congr fun u upper => by rw [above u upper])

theorem Pattern.Ordered.accepts_congr {p : Pattern} (ordered : p.Ordered) (first : Ordinary a)
    (second : Ordinary b) (equal : compare a b = .eq) : p.accepts a = p.accepts b := by
  cases ordered with
  | any => rfl
  | exactly ordinary => rw [accepts, compare_congr_right ordinary first second equal, accepts]
  | within ends => exact Range.contains_congr ends first second equal

theorem Constraint.accepts_eq_of_equal {c : Constraint} (ordered : ∀ p ∈ c.patterns, p.Ordered)
    (first : Ordinary a) (second : Ordinary b) (equal : compare a b = .eq) :
    c.accepts a = c.accepts b := by
  have alike : ∀ p ∈ c.effective.toList ++ c.reject, AcceptAlike a b p p := by
    intro p mem
    exact (ordered _ (List.mem_map_of_mem mem)).accepts_congr first second equal
  obtain ⟨deciding, rejected⟩ := List.forall_mem_append.1 alike
  refine accepts_congr ?_ (List.forall₂_same.2 rejected)
  cases known : c.effective with
  | none => exact .none
  | some p => exact .some (deciding p (by simp [known]))

/-- **Acceptance respects the equality of versions.**  Constraints whose patterns go by the order of
versions accept equal versions alike, so what they reject they reject in every spelling, with
zeros at the end for instance. -/
theorem accepts_equal {c : Constraint} (ordered : ∀ p ∈ c.patterns, p.Ordered) :
    (∀ a b, Ordinary a → Ordinary b → compare a b = .eq → c.accepts a = c.accepts b) ∧
    (∀ p ∈ c.reject, ∀ a b, Ordinary a → Ordinary b → compare a b = .eq →
      (Pattern.read p).accepts a → c.accepts b = false) ∧
    (∀ a n, Ordinary a → c.accepts (withZeros a n) = c.accepts a) := by
  refine ⟨?_, ?_, ?_⟩
  · intro a b first second equal
    exact c.accepts_eq_of_equal ordered first second equal
  · intro p rejected a b first second equal accepted
    rw [← c.accepts_eq_of_equal ordered first second equal]
    exact Constraint.accepts_eq_false_of_reject rejected accepted
  · intro a n ordinary
    exact c.accepts_eq_of_equal ordered (ordinary.withZeros n) ordinary (compare_withZeros a n)

namespace Example

/-- Any version that is neither a certain build nor in a range. -/
def guarded : Constraint := ⟨none, some "latest.release", none, ["1.5-jre", "(2.0-rc, 3]"], none⟩

theorem patterns_guarded : guarded.patterns =
    [.any, .exactly "1.5-jre", .within ⟨some ⟨"2.0-rc", false⟩, some ⟨"3", true⟩⟩] := by
  decide +kernel

end Example

open Example in
/-- A rejected build is rejected in other letters, with other separators and with zeros after it. -/
theorem accepts_equal_rejected_build :
    (∀ p ∈ guarded.patterns, p.Ordered) ∧ "1.5-jre" ∈ guarded.reject ∧ Ordinary "1.5-jre" ∧
      Ordinary "1-5-JRE.0-0" ∧ compare "1.5-jre" "1-5-JRE.0-0" = .eq ∧
      (Pattern.read "1.5-jre").accepts "1.5-jre" ∧
      guarded.accepts "1-5-JRE.0-0" = false ∧
      guarded.accepts "2-rc" = guarded.accepts "2-rc-0" ∧
      guarded.accepts (withZeros "1.5-jre" 3) = guarded.accepts "1.5-jre" := by
  have ordered : ∀ p ∈ guarded.patterns, p.Ordered := by
    rw [patterns_guarded]
    simp only [List.forall_mem_cons, List.not_mem_nil, false_imp_iff, implies_true, and_true]
    exact ⟨.any, .exactly (by decide), .within (by decide)⟩
  have rejected : "1.5-jre" ∈ guarded.reject := List.mem_cons_self
  have first : Ordinary "1.5-jre" := by decide
  have second : Ordinary "1-5-JRE.0-0" := by decide
  have equal : compare "1.5-jre" "1-5-JRE.0-0" = .eq := by decide
  have accepted : (Pattern.read "1.5-jre").accepts "1.5-jre" := by decide
  have equal' : compare "2-rc" "2-rc-0" = .eq := by decide
  obtain ⟨alike, reject, zeros⟩ := accepts_equal ordered
  exact ⟨ordered, rejected, first, second, equal, accepted,
    reject _ rejected _ _ first second equal accepted,
    alike _ _ (by decide) (by decide) equal', zeros _ 3 first⟩

end EdgeResolution.Version
