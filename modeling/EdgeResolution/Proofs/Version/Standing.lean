/-
# EdgeResolution.Proofs.Version.Standing -- versions in one line

Where no piece of a version is a qualifier from the release on, its tokens stand in
one line (`Token.Before`): the qualifiers before a release in their order, then the
words in the order of their lower-case texts, then the numbers.  `Token.standing` is
the place of a token in this line (`standing_lt_iff_before`), and tokens compare like
their standings (`compare_eq_standing`).  A version that has ended goes on with zeros
there: what a token is against nothing is what it is against zero
(`compareAbsent_eq`).

So the order of such versions is the lexicographic one of their standings, with the
shorter version padded with zeros (`compareTokens_eq_comparePadded`);
`compare_ordinary` says so of versions as they are written.  A qualifier from the
release on is above nothing and below zero, and so it has no place in the line.
-/
import EdgeResolution.Proofs.Version.Place
import Mathlib.Data.Sum.Order
import Mathlib.Data.String.Basic

namespace EdgeResolution.Version

set_option autoImplicit false

/-! ## Padded sequences -/

/-- Lexicographic comparison, with the shorter sequence padded at its end. -/
def comparePadded {α : Type} [Ord α] (padding : α) (xs ys : List α) : Ordering :=
  let width := max xs.length ys.length
  List.compareLex Ord.compare (xs.rightpad width padding) (ys.rightpad width padding)

section Padding

variable {α β : Type}

theorem rightpad_succ (padding : α) (xs : List α) (n : Nat) :
    xs.rightpad (n + 1) padding = xs.headD padding :: xs.tail.rightpad n padding := by
  cases xs with
  | nil => simp [List.rightpad, List.replicate_succ]
  | cons x xs => simp [List.rightpad]

/-- Padded sequences are compared at their first places, and then at the next ones. -/
theorem comparePadded_eq_then [Ord α] [Std.ReflOrd α] (padding : α) (xs ys : List α) :
    comparePadded padding xs ys =
      (Ord.compare (xs.headD padding) (ys.headD padding)).then
        (comparePadded padding xs.tail ys.tail) := by
  by_cases ended : xs = [] ∧ ys = []
  · obtain ⟨rfl, rfl⟩ := ended
    have same : Ord.compare padding padding = .eq := Std.ReflOrd.compare_self
    rw [List.headD_nil, same]
    rfl
  · have width : max xs.length ys.length = max xs.tail.length ys.tail.length + 1 := by
      rw [← List.length_eq_zero_iff, ← List.length_eq_zero_iff] at ended
      simp only [List.length_tail]
      omega
    rw [comparePadded, width, rightpad_succ, rightpad_succ, List.compareLex_cons_cons]
    rfl

/-- Two sequences are gone through place by place, until both have ended. -/
theorem tails_induction {motive : List α → List β → Prop} (ended : motive [] [])
    (next : ∀ xs ys, motive xs.tail ys.tail → motive xs ys) (xs : List α) (ys : List β) :
    motive xs ys := by
  induction xs generalizing ys with
  | nil =>
      induction ys with
      | nil => exact ended
      | cons y ys ih => exact next [] (y :: ys) ih
  | cons x xs ih => exact next (x :: xs) ys (ih ys.tail)

end Padding

/-! ## Standings -/

section Sums

variable {α β : Type} [LinearOrder α] [LinearOrder β]

theorem compare_inl (a a' : α) :
    Ord.compare (toLex (.inl a) : α ⊕ₗ β) (toLex (.inl a')) = Ord.compare a a' := by
  rw [← cmp_eq_compare, ← cmp_eq_compare]
  exact Sum.Lex.inl_strictMono.cmp_map_eq a a'

theorem compare_inr (b b' : β) :
    Ord.compare (toLex (.inr b) : α ⊕ₗ β) (toLex (.inr b')) = Ord.compare b b' := by
  rw [← cmp_eq_compare, ← cmp_eq_compare]
  exact Sum.Lex.inr_strictMono.cmp_map_eq b b'

end Sums

/-- Qualifiers first, then texts, then numbers. -/
abbrev Standing : Type := Nat ⊕ₗ (String ⊕ₗ Nat)

/-- The qualifiers before a release, in ascending order. -/
def Qualifier.beforeRelease : List Qualifier := [.alpha, .beta, .milestone, .candidate, .snapshot]

namespace Token

/-- Place of a token in the line of all tokens that are not from a release on. -/
def standing : Token → Standing
  | .qualifier q => toLex (.inl (Qualifier.beforeRelease.idxOf q))
  | .word text => toLex (.inr (toLex (.inl (Text.lower text))))
  | .number n => toLex (.inr (toLex (.inr n)))

theorem idxOf_beforeRelease {q : Qualifier} (early : ¬q.atLeastRelease) :
    Qualifier.beforeRelease.idxOf q = q.rank := by
  cases q with
  | release => exact absurd rfl early
  | servicePack => exact absurd rfl early
  | _ => rfl

/-- The order of tokens is the one of their standings. -/
theorem compare_eq_standing {x y : Token} (early : ¬x.isReleaseLevel) (early' : ¬y.isReleaseLevel) :
    x.compare y = Ord.compare x.standing y.standing := by
  cases x with
  | number m =>
      cases y with
      | number n => exact ((compare_inr _ _).trans (compare_inr m n)).symm
      | qualifier q => exact (compare_gt_iff_gt.2 (Sum.Lex.inl_lt_inr _ _)).symm
      | word w => exact ((compare_inr _ _).trans (compare_gt_iff_gt.2 (Sum.Lex.inl_lt_inr _ _))).symm
  | qualifier p =>
      cases y with
      | number n => exact (compare_lt_iff_lt.2 (Sum.Lex.inl_lt_inr _ _)).symm
      | qualifier q =>
          rw [standing, standing, idxOf_beforeRelease early, idxOf_beforeRelease early']
          exact (compare_inl p.rank q.rank).symm
      | word w =>
          have below : (Token.qualifier p).compare (.word w) = .lt := if_neg early
          rw [below]
          exact (compare_lt_iff_lt.2 (Sum.Lex.inl_lt_inr _ _)).symm
  | word v =>
      cases y with
      | number n =>
          exact ((compare_inr _ _).trans (compare_lt_iff_lt.2 (Sum.Lex.inl_lt_inr _ _))).symm
      | qualifier q =>
          have above : (Token.word v).compare (.qualifier q) = .gt := if_neg early'
          rw [above]
          exact (compare_gt_iff_gt.2 (Sum.Lex.inl_lt_inr _ _)).symm
      | word w => exact ((compare_inr _ _).trans (compare_inl _ _)).symm

/-- Comes before, in the line of tokens. -/
inductive Before : Token → Token → Prop
  | qualifiers {p q : Qualifier} (ascending : [p, q].Sublist Qualifier.beforeRelease) :
      Before (.qualifier p) (.qualifier q)
  | qualifierWord {q : Qualifier} {text : String} : Before (.qualifier q) (.word text)
  | qualifierNumber {q : Qualifier} {n : Nat} : Before (.qualifier q) (.number n)
  | words {v w : String} (lower : Text.lower v < Text.lower w) : Before (.word v) (.word w)
  | wordNumber {text : String} {n : Nat} : Before (.word text) (.number n)
  | numbers {m n : Nat} (less : m < n) : Before (.number m) (.number n)

theorem idxOf_lt_iff_sublist {p q : Qualifier} (early : ¬p.atLeastRelease)
    (early' : ¬q.atLeastRelease) :
    Qualifier.beforeRelease.idxOf p < Qualifier.beforeRelease.idxOf q ↔
      [p, q].Sublist Qualifier.beforeRelease := by
  revert early early'
  cases p <;> cases q <;> decide

theorem standing_lt_iff_before {x y : Token} (early : ¬x.isReleaseLevel)
    (early' : ¬y.isReleaseLevel) : x.standing < y.standing ↔ x.Before y := by
  cases x with
  | number m =>
      cases y with
      | number n =>
          rw [standing, standing, Sum.Lex.inr_lt_inr_iff, Sum.Lex.inr_lt_inr_iff]
          exact ⟨.numbers, fun | .numbers less => less⟩
      | qualifier q => exact ⟨fun less => absurd less Sum.Lex.not_inr_lt_inl, nofun⟩
      | word w =>
          rw [standing, standing, Sum.Lex.inr_lt_inr_iff]
          exact ⟨fun less => absurd less Sum.Lex.not_inr_lt_inl, nofun⟩
  | qualifier p =>
      cases y with
      | number n => exact ⟨fun _ => .qualifierNumber, fun _ => Sum.Lex.inl_lt_inr _ _⟩
      | qualifier q =>
          rw [standing, standing, Sum.Lex.inl_lt_inl_iff, idxOf_lt_iff_sublist early early']
          exact ⟨.qualifiers, fun | .qualifiers ascending => ascending⟩
      | word w => exact ⟨fun _ => .qualifierWord, fun _ => Sum.Lex.inl_lt_inr _ _⟩
  | word v =>
      cases y with
      | number n =>
          rw [standing, standing, Sum.Lex.inr_lt_inr_iff]
          exact ⟨fun _ => .wordNumber, fun _ => Sum.Lex.inl_lt_inr _ _⟩
      | qualifier q => exact ⟨fun less => absurd less Sum.Lex.not_inr_lt_inl, nofun⟩
      | word w =>
          rw [standing, standing, Sum.Lex.inr_lt_inr_iff, Sum.Lex.inl_lt_inl_iff]
          exact ⟨.words, fun | .words lower => lower⟩

/-- Nothing is what a zero is. -/
theorem compareAbsent_eq {x : Token} (early : ¬x.isReleaseLevel) :
    x.compareAbsent = x.compare (.number 0) := by
  cases x with
  | number n => rfl
  | word text => rfl
  | qualifier q =>
      have below : q.rank < Qualifier.release.rank := by
        simpa [isReleaseLevel, Qualifier.atLeastRelease] using early
      exact Nat.compare_eq_lt.2 below

end Token

/-- Two places compare like the standings of what is there, with a zero for nothing. -/
theorem comparePlace_eq_standing {x y : Option Token} (early : ∀ t ∈ x, ¬t.isReleaseLevel)
    (early' : ∀ t ∈ y, ¬t.isReleaseLevel) :
    comparePlace x y =
      Ord.compare (x.getD (.number 0)).standing (y.getD (.number 0)).standing := by
  have zero : ¬(Token.number 0).isReleaseLevel := Bool.false_ne_true
  cases x with
  | none =>
      cases y with
      | none => exact (compare_eq_iff_eq.2 rfl).symm
      | some y =>
          have plain := early' y rfl
          rw [comparePlace, Token.compareAbsent_eq plain, Token.compare_swap]
          exact Token.compare_eq_standing zero plain
  | some x =>
      have plain := early x rfl
      cases y with
      | none =>
          rw [comparePlace, Token.compareAbsent_eq plain]
          exact Token.compare_eq_standing plain zero
      | some y => exact Token.compare_eq_standing plain (early' y rfl)

theorem compareTokens_eq_comparePadded (xs ys : List Token) (early : ∀ x ∈ xs, ¬x.isReleaseLevel)
    (early' : ∀ y ∈ ys, ¬y.isReleaseLevel) :
    compareTokens xs ys =
      comparePadded (Token.number 0).standing (xs.map Token.standing)
        (ys.map Token.standing) := by
  induction xs, ys using tails_induction with
  | ended => rfl
  | next xs ys ih =>
      have first : comparePlace xs.head? ys.head? =
          Ord.compare ((xs.map Token.standing).headD (Token.number 0).standing)
            ((ys.map Token.standing).headD (Token.number 0).standing) := by
        rw [comparePlace_eq_standing (fun x mem => early x (List.mem_of_mem_head? mem))
          (fun y mem => early' y (List.mem_of_mem_head? mem)), List.headD_eq_head?_getD,
          List.headD_eq_head?_getD, List.head?_map, List.head?_map, Option.getD_map,
          Option.getD_map]
      rw [compareTokens_eq_then, comparePadded_eq_then, first, ← List.map_tail, ← List.map_tail]
      exact congrArg _ (ih (fun x mem => early x (List.mem_of_mem_tail mem))
        (fun y mem => early' y (List.mem_of_mem_tail mem)))

/-! ## Versions without qualifiers from a release on -/

/-- No piece is a qualifier from the release on, whatever the case of its ASCII letters. -/
def Ordinary (version : String) : Prop :=
  ∀ piece ∈ pieces version,
    String.ofList (piece.map Char.toLower) ∉ ["ga", "final", "release", "sp"]

instance : DecidablePred Ordinary := fun version =>
  inferInstanceAs (Decidable (∀ piece ∈ pieces version, _))

theorem spelling_mem_of_read? {piece : List Char} {q : Qualifier}
    (found : Qualifier.read? piece = some q) :
    String.ofList (piece.map Char.toLower) ∈ q.spellings := by
  rw [Qualifier.read?] at found
  have spelled := List.find?_some found
  exact List.contains_iff_mem.1 spelled

theorem not_isReleaseLevel_of_read {piece : List Char}
    (ordinary : String.ofList (piece.map Char.toLower) ∉ ["ga", "final", "release", "sp"]) :
    ¬(Token.read piece).isReleaseLevel := by
  intro level
  rw [Token.read] at level
  split at level
  · cases level
  · split at level
    · next q found =>
        have spelled := spelling_mem_of_read? found
        cases q with
        | release => exact ordinary (List.mem_append_left ["sp"] spelled)
        | servicePack => exact ordinary (List.mem_append_right ["ga", "final", "release"] spelled)
        | _ => cases level
    · cases level

theorem Ordinary.not_isReleaseLevel {version : String} (ordinary : Ordinary version) :
    ∀ x ∈ tokens version, ¬x.isReleaseLevel := by
  intro x mem
  obtain ⟨piece, inPieces, rfl⟩ := List.mem_map.1 mem
  exact not_isReleaseLevel_of_read (ordinary piece inPieces)

/-- **Ordinary versions stand in one line.**  They compare like the standings of their tokens, the
shorter version padded with zeros, and of two tokens the one before has the lower standing. -/
theorem compare_ordinary {a b : String} (ordinary : Ordinary a) (ordinary' : Ordinary b) :
    compare a b =
      comparePadded (Token.number 0).standing ((tokens a).map Token.standing)
        ((tokens b).map Token.standing) ∧
    ∀ x ∈ tokens a ++ tokens b, ∀ y ∈ tokens a ++ tokens b, x.standing < y.standing ↔ x.Before y := by
  have early : ∀ x ∈ tokens a ++ tokens b, ¬x.isReleaseLevel :=
    List.forall_mem_append.2 ⟨ordinary.not_isReleaseLevel, ordinary'.not_isReleaseLevel⟩
  refine ⟨?_, ?_⟩
  · exact compareTokens_eq_comparePadded _ _ ordinary.not_isReleaseLevel
      ordinary'.not_isReleaseLevel
  · intro x inVersions y inVersions'
    exact Token.standing_lt_iff_before (early x inVersions) (early y inVersions')

theorem compare_ordinary_spelling :
    Ordinary "2-Milestone.jar" ∧ Ordinary "2.m-JAR-0" ∧
      comparePadded (Token.number 0).standing ((tokens "2-Milestone.jar").map Token.standing)
        ((tokens "2.m-JAR-0").map Token.standing) = .eq := by
  have ordinary : Ordinary "2-Milestone.jar" := by decide +kernel
  have ordinary' : Ordinary "2.m-JAR-0" := by decide +kernel
  have equal : compare "2-Milestone.jar" "2.m-JAR-0" = .eq := by decide +kernel
  exact ⟨ordinary, ordinary', (compare_ordinary ordinary ordinary').1.symm.trans equal⟩

end EdgeResolution.Version
