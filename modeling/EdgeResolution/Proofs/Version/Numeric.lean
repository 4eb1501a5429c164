/-
# EdgeResolution.Proofs.Version.Numeric -- versions made of digits

A version whose pieces hold nothing but digits is a sequence of numbers, and one
would compare two of them number by number, with zeros after the end of the shorter
one (`numbers`, `comparePadded`).  That is what happens as long as the numbers have
64 bits.  A longer piece is read as a word (`read_of_overlong`): it is below every
number and below nothing, and two of them are compared as texts.

`Misjudged` is what two versions look like that this puts in the wrong order: they
are alike up to a place where one has an overlong piece and the other has none, or
where both have one and their texts differ, unless text and numbers happen to agree.
`compare_numeric_iff_not_misjudged` says that this is exact, and that it takes an
overlong piece.
-/
import EdgeResolution.Proofs.Version.Standing
import Mathlib.Data.Nat.Digits.Defs

namespace EdgeResolution

set_option autoImplicit false

/-! ## Digits in lower case -/

namespace Text

theorem lowerPartner_of_isDigit {c : Char} (digit : c.isDigit) : lowerPartner c = c := by
  have low : c.toNat ≤ '9'.toNat := by
    simp only [Char.isDigit, Bool.and_eq_true, decide_eq_true_eq] at digit
    exact digit.2
  have lettersAbove : ∀ run ∈ lowerRuns, '9'.toNat < run.first := by decide +kernel
  have uncovered : lowerRuns.find? (·.covers c.toNat) = none := by
    refine List.find?_eq_none.2 fun run mem covers => ?_
    simp only [LowerRun.covers, Bool.and_eq_true, decide_eq_true_eq] at covers
    exact absurd (lettersAbove run mem) (by omega)
  rw [lowerPartner, uncovered]

theorem lowerAt_of_isDigit {before after : List Char} {c : Char} (digit : c.isDigit) :
    lowerAt before c after = [c] := by
  have sigma : c ≠ capitalSigma := by
    rintro rfl
    exact absurd digit (by decide)
  have dotted : c ≠ capitalDottedI := by
    rintro rfl
    exact absurd digit (by decide)
  rw [lowerAt, if_neg sigma, if_neg dotted, lowerPartner_of_isDigit digit]

theorem lowerFrom_of_isDigit {piece : List Char} (digits : ∀ d ∈ piece, d.isDigit)
    (before : List Char) : lowerFrom before piece = piece := by
  induction piece generalizing before with
  | nil => rfl
  | cons c rest ih =>
      rw [lowerFrom, lowerAt_of_isDigit (digits c List.mem_cons_self),
        ih (fun d mem => digits d (List.mem_cons_of_mem _ mem))]
      rfl

theorem lower_of_isDigit {piece : List Char} (digits : ∀ d ∈ piece, d.isDigit) :
    lower (String.ofList piece) = String.ofList piece := by
  rw [lower, String.toList_ofList, lowerFrom_of_isDigit digits]

end Text

namespace Version

variable {piece p q : List Char} {ps qs : List (List Char)} {x y : Option (List Char)}

/-! ## Pieces that are numbers -/

/-- One digit or more, and nothing else. -/
def Written (piece : List Char) : Prop := piece ≠ [] ∧ ∀ d ∈ piece, d.isDigit

/-- The number that digits write, the most significant first. -/
def decimal (piece : List Char) : Nat :=
  Nat.ofDigits 10 (piece.reverse.map fun d => d.toNat - '0'.toNat)

/-- A number of more than 64 bits. -/
def Overlong (piece : List Char) : Prop := numberLimit ≤ decimal piece

instance : DecidablePred Overlong := fun piece => Nat.decLe numberLimit (decimal piece)

theorem digitsValue_eq_decimal (piece : List Char) : digitsValue piece = decimal piece := by
  rw [decimal, Nat.ofDigits_eq_foldr, List.map_reverse, List.foldr_reverse, List.foldl_map,
    digitsValue]
  refine congrArg (fun next => piece.foldl next 0) ?_
  funext value d
  rw [Nat.cast_id, Nat.mul_comm, Nat.add_comm]

theorem unsigned_of_written (written : Written piece) : unsigned piece = piece := by
  unfold unsigned
  split
  · next rest => exact absurd (written.2 '+' List.mem_cons_self) (by decide)
  · rfl

theorem readNumber?_of_written (written : Written piece) :
    readNumber? piece = if Overlong piece then none else some (decimal piece) := by
  rw [readNumber?, unsigned_of_written written, digitsValue_eq_decimal]
  have digits : piece.all Char.isDigit := List.all_eq_true.2 written.2
  by_cases long : Overlong piece
  · rw [if_pos long, if_neg fun fits => fits.2.2.not_ge long]
  · rw [if_neg long, if_pos ⟨written.1, digits, Nat.lt_of_not_ge long⟩]

theorem toLower_of_isDigit {c : Char} (digit : c.isDigit) : c.toLower = c := by
  simp only [Char.isDigit, Bool.and_eq_true, decide_eq_true_eq] at digit
  exact dif_neg fun upper => absurd (UInt32.le_trans upper.1 digit.2) (by decide)

/-- No qualifier is spelled with digits. -/
theorem qualifierRead?_of_written (written : Written piece) : Qualifier.read? piece = none := by
  have lowered : piece.map Char.toLower = piece :=
    (List.map_congr_left fun d mem => toLower_of_isDigit (written.2 d mem)).trans (List.map_id piece)
  refine List.find?_eq_none.2 fun q mem spelled => ?_
  have lettered : ∀ q ∈ Qualifier.all, ∀ s ∈ q.spellings, ¬s.toList.all Char.isDigit := by decide
  rw [lowered] at spelled
  have digits : (String.ofList piece).toList.all Char.isDigit := by
    rw [String.toList_ofList]
    exact List.all_eq_true.2 written.2
  exact lettered q mem _ (List.contains_iff_mem.1 spelled) digits

theorem read_of_not_overlong (written : Written piece) (short : ¬Overlong piece) :
    Token.read piece = .number (decimal piece) := by
  rw [Token.read, readNumber?_of_written written, if_neg short]

theorem read_of_overlong (written : Written piece) (long : Overlong piece) :
    Token.read piece = .word (String.ofList piece) := by
  rw [Token.read, readNumber?_of_written written, if_pos long, qualifierRead?_of_written written]

/-! ## Places -/

/-- The number at a place; there is a zero where a version has ended. -/
def valueAt (place : Option (List Char)) : Nat := (place.map decimal).getD 0

theorem valueAt_lt (short : ∀ piece ∈ x, ¬Overlong piece) : valueAt x < numberLimit := by
  cases x with
  | none => decide
  | some piece => exact Nat.lt_of_not_ge (short piece rfl)

theorem comparePlace_of_short (written : ∀ piece ∈ x, Written piece)
    (written' : ∀ piece ∈ y, Written piece) (short : ∀ piece ∈ x, ¬Overlong piece)
    (short' : ∀ piece ∈ y, ¬Overlong piece) :
    comparePlace (x.map Token.read) (y.map Token.read) = Ord.compare (valueAt x) (valueAt y) := by
  cases x with
  | none =>
      cases y with
      | none => rfl
      | some q =>
          rw [Option.map_some, read_of_not_overlong (written' q rfl) (short' q rfl)]
          exact Nat.compare_swap (decimal q) 0
  | some p =>
      rw [Option.map_some, read_of_not_overlong (written p rfl) (short p rfl)]
      cases y with
      | none => rfl
      | some q =>
          rw [Option.map_some, read_of_not_overlong (written' q rfl) (short' q rfl)]
          rfl

theorem comparePlace_of_overlong_short (writtenP : Written p) (long : Overlong p)
    (written' : ∀ piece ∈ y, Written piece) (short' : ∀ piece ∈ y, ¬Overlong piece) :
    comparePlace (some (Token.read p)) (y.map Token.read) = .lt := by
  rw [read_of_overlong writtenP long]
  cases y with
  | none => rfl
  | some q =>
      rw [Option.map_some, read_of_not_overlong (written' q rfl) (short' q rfl)]
      rfl

theorem comparePlace_of_overlong (writtenP : Written p) (writtenQ : Written q) (long : Overlong p)
    (long' : Overlong q) :
    comparePlace (some (Token.read p)) (some (Token.read q)) =
      Ord.compare (String.ofList p) (String.ofList q) := by
  rw [read_of_overlong writtenP long, read_of_overlong writtenQ long', comparePlace, Token.compare,
    Text.lower_of_isDigit writtenP.2, Text.lower_of_isDigit writtenQ.2]

/-! ## Versions -/

/-- Two places where the same is written, or the same number of at most 64 bits. -/
def Alike (x y : Option (List Char)) : Prop :=
  x = y ∨ valueAt x = valueAt y ∧ (∀ piece ∈ x, ¬Overlong piece) ∧ ∀ piece ∈ y, ¬Overlong piece

/-- Two sequences of digit pieces whose order as versions is not the one of their numbers. -/
inductive Misjudged : List (List Char) → List (List Char) → Prop
  | overlongFirst {p : List Char} {ps qs : List (List Char)} (long : Overlong p)
      (short : ∀ q ∈ qs.head?, ¬Overlong q) : Misjudged (p :: ps) qs
  | overlongSecond {q : List Char} {ps qs : List (List Char)}
      (short : ∀ p ∈ ps.head?, ¬Overlong p) (long : Overlong q) : Misjudged ps (q :: qs)
  | overlongBoth {p q : List Char} {ps qs : List (List Char)} (long : Overlong p)
      (long' : Overlong q) (differ : p ≠ q)
      (astray : Ord.compare (String.ofList p) (String.ofList q) ≠
        comparePadded 0 ((p :: ps).map decimal) ((q :: qs).map decimal)) :
      Misjudged (p :: ps) (q :: qs)
  | after {ps qs : List (List Char)} (alike : Alike ps.head? qs.head?)
      (rest : Misjudged ps.tail qs.tail) : Misjudged ps qs

theorem Misjudged.exists_overlong (misjudged : Misjudged ps qs) :
    ∃ piece ∈ ps ++ qs, Overlong piece := by
  induction misjudged with
  | @overlongFirst p ps qs long _ => exact ⟨p, by simp, long⟩
  | @overlongSecond q ps qs _ long => exact ⟨q, by simp, long⟩
  | @overlongBoth p q ps qs long _ _ _ => exact ⟨p, by simp, long⟩
  | after _ _ ih =>
      obtain ⟨piece, mem, long⟩ := ih
      refine ⟨piece, List.mem_append.2 ?_, long⟩
      exact (List.mem_append.1 mem).imp List.mem_of_mem_tail List.mem_of_mem_tail

theorem compareTokens_read_eq_then (ps qs : List (List Char)) :
    compareTokens (ps.map Token.read) (qs.map Token.read) =
      (comparePlace (ps.head?.map Token.read) (qs.head?.map Token.read)).then
        (compareTokens (ps.tail.map Token.read) (qs.tail.map Token.read)) := by
  rw [compareTokens_eq_then, List.head?_map, List.head?_map, List.map_tail, List.map_tail]

theorem comparePadded_decimal_eq_then (ps qs : List (List Char)) :
    comparePadded 0 (ps.map decimal) (qs.map decimal) =
      (Ord.compare (valueAt ps.head?) (valueAt qs.head?)).then
        (comparePadded 0 (ps.tail.map decimal) (qs.tail.map decimal)) := by
  rw [comparePadded_eq_then, List.headD_eq_head?_getD, List.headD_eq_head?_getD, List.head?_map,
    List.head?_map, List.map_tail, List.map_tail, valueAt, valueAt]

theorem comparePlace_of_alike (alike : Alike x y) (written : ∀ piece ∈ x, Written piece)
    (written' : ∀ piece ∈ y, Written piece) :
    comparePlace (x.map Token.read) (y.map Token.read) = .eq := by
  rcases alike with rfl | ⟨same, short, short'⟩
  · exact comparePlace_self _
  · rw [comparePlace_of_short written written' short short']
    exact Nat.compare_eq_eq.2 same

theorem compare_valueAt_of_alike (alike : Alike x y) :
    Ord.compare (valueAt x) (valueAt y) = .eq := by
  rcases alike with rfl | ⟨same, -, -⟩
  · exact Nat.compare_eq_eq.2 rfl
  · exact Nat.compare_eq_eq.2 same

/-- Alike places are passed over. -/
theorem misjudged_iff_of_alike (alike : Alike ps.head? qs.head?) :
    Misjudged ps qs ↔ Misjudged ps.tail qs.tail := by
  constructor
  · intro misjudged
    cases misjudged with
    | @overlongFirst p ps _ long short =>
        rcases alike with same | ⟨-, shortP, -⟩
        · exact absurd long (short p same.symm)
        · exact absurd long (shortP p rfl)
    | @overlongSecond q _ qs short long =>
        rcases alike with same | ⟨-, -, shortQ⟩
        · exact absurd long (short q same)
        · exact absurd long (shortQ q rfl)
    | @overlongBoth p q ps qs long long' differ astray =>
        rcases alike with same | ⟨-, shortP, -⟩
        · exact absurd (Option.some.inj same) differ
        · exact absurd long (shortP p rfl)
    | after _ rest => exact rest
  · exact .after alike

theorem then_of_ne_eq {o : Ordering} (decided : o ≠ .eq) (rest : Ordering) : o.then rest = o := by
  cases o with
  | eq => exact absurd rfl decided
  | lt => rfl
  | gt => rfl

/-- Numbers of at most 64 bits decide as they should. -/
theorem compareTokens_eq_of_short (written : ∀ piece ∈ ps.head?, Written piece)
    (written' : ∀ piece ∈ qs.head?, Written piece) (short : ∀ piece ∈ ps.head?, ¬Overlong piece)
    (short' : ∀ piece ∈ qs.head?, ¬Overlong piece) (differ : ¬Alike ps.head? qs.head?) :
    compareTokens (ps.map Token.read) (qs.map Token.read) =
      comparePadded 0 (ps.map decimal) (qs.map decimal) := by
  have decided : Ord.compare (valueAt ps.head?) (valueAt qs.head?) ≠ .eq :=
    fun same => differ (Or.inr ⟨Nat.compare_eq_eq.1 same, short, short'⟩)
  rw [compareTokens_read_eq_then, comparePadded_decimal_eq_then,
    comparePlace_of_short written written' short short', then_of_ne_eq decided,
    then_of_ne_eq decided]

/-- An overlong number against one of at most 64 bits, or against nothing, is the lower one. -/
theorem compareTokens_ne_of_overlongFirst (writtenP : Written p) (long : Overlong p)
    (written' : ∀ piece ∈ qs.head?, Written piece) (short' : ∀ piece ∈ qs.head?, ¬Overlong piece) :
    compareTokens ((p :: ps).map Token.read) (qs.map Token.read) ≠
      comparePadded 0 ((p :: ps).map decimal) (qs.map decimal) := by
  have above : Ord.compare (valueAt (p :: ps).head?) (valueAt qs.head?) = .gt :=
    Nat.compare_eq_gt.2 ((valueAt_lt short').trans_le long)
  rw [compareTokens_read_eq_then, comparePadded_decimal_eq_then, above, List.head?_cons,
    Option.map_some, comparePlace_of_overlong_short writtenP long written' short']
  exact Ordering.noConfusion

theorem compareTokens_ne_of_overlongSecond (writtenQ : Written q) (long : Overlong q)
    (written : ∀ piece ∈ ps.head?, Written piece) (short : ∀ piece ∈ ps.head?, ¬Overlong piece) :
    compareTokens (ps.map Token.read) ((q :: qs).map Token.read) ≠
      comparePadded 0 (ps.map decimal) ((q :: qs).map decimal) := by
  have below : Ord.compare (valueAt ps.head?) (valueAt (q :: qs).head?) = .lt :=
    Nat.compare_eq_lt.2 ((valueAt_lt short).trans_le long)
  rw [compareTokens_read_eq_then, comparePadded_decimal_eq_then, below, List.head?_cons,
    Option.map_some, ← comparePlace_swap,
    comparePlace_of_overlong_short writtenQ long written short]
  exact Ordering.noConfusion

/-- Two overlong numbers are compared as texts, whatever comes after them. -/
theorem compareTokens_of_overlongBoth (writtenP : Written p) (writtenQ : Written q)
    (long : Overlong p) (long' : Overlong q) (differ : p ≠ q) :
    compareTokens ((p :: ps).map Token.read) ((q :: qs).map Token.read) =
      Ord.compare (String.ofList p) (String.ofList q) := by
  have decided : Ord.compare (String.ofList p) (String.ofList q) ≠ .eq :=
    fun same => differ (String.ofList_injective (compare_eq_iff_eq.1 same))
  rw [compareTokens_read_eq_then, List.head?_cons, List.head?_cons, Option.map_some,
    Option.map_some, comparePlace_of_overlong writtenP writtenQ long long', then_of_ne_eq decided]

theorem not_misjudged_of_short (short : ∀ piece ∈ ps.head?, ¬Overlong piece)
    (short' : ∀ piece ∈ qs.head?, ¬Overlong piece) (differ : ¬Alike ps.head? qs.head?) :
    ¬Misjudged ps qs := by
  intro misjudged
  cases misjudged with
  | @overlongFirst p _ _ long _ => exact short p rfl long
  | @overlongSecond q _ _ _ long => exact short' q rfl long
  | @overlongBoth p _ _ _ long _ _ _ => exact short p rfl long
  | after alike _ => exact differ alike

theorem misjudged_iff_of_overlongBoth (long : Overlong p) (long' : Overlong q) (differ : p ≠ q) :
    Misjudged (p :: ps) (q :: qs) ↔
      Ord.compare (String.ofList p) (String.ofList q) ≠
        comparePadded 0 ((p :: ps).map decimal) ((q :: qs).map decimal) := by
  constructor
  · intro misjudged
    cases misjudged with
    | overlongFirst _ short => exact absurd long' (short q rfl)
    | overlongSecond short _ => exact absurd long (short p rfl)
    | overlongBoth _ _ _ astray => exact astray
    | after alike _ =>
        rcases alike with same | ⟨-, shortP, -⟩
        · exact absurd (Option.some.inj same) differ
        · exact absurd long (shortP p rfl)
  · exact .overlongBoth long long' differ

theorem exists_cons_overlong (long : ¬∀ piece ∈ ps.head?, ¬Overlong piece) :
    ∃ p rest, ps = p :: rest ∧ Overlong p := by
  push Not at long
  obtain ⟨p, first, long⟩ := long
  obtain ⟨rest, rfl⟩ := List.head?_eq_some_iff.1 first
  exact ⟨p, rest, rfl, long⟩

theorem compareTokens_eq_iff_not_misjudged (ps qs : List (List Char))
    (written : ∀ piece ∈ ps, Written piece) (written' : ∀ piece ∈ qs, Written piece) :
    compareTokens (ps.map Token.read) (qs.map Token.read) =
        comparePadded 0 (ps.map decimal) (qs.map decimal) ↔ ¬Misjudged ps qs := by
  induction ps, qs using tails_induction with
  | ended =>
      refine iff_of_true rfl fun misjudged => ?_
      obtain ⟨piece, mem, -⟩ := misjudged.exists_overlong
      cases mem
  | next ps qs ih =>
      have head : ∀ piece ∈ ps.head?, Written piece :=
        fun piece mem => written piece (List.mem_of_mem_head? mem)
      have head' : ∀ piece ∈ qs.head?, Written piece :=
        fun piece mem => written' piece (List.mem_of_mem_head? mem)
      by_cases alike : Alike ps.head? qs.head?
      · rw [compareTokens_read_eq_then, comparePadded_decimal_eq_then,
          comparePlace_of_alike alike head head', compare_valueAt_of_alike alike,
          misjudged_iff_of_alike alike]
        exact ih (fun piece mem => written piece (List.mem_of_mem_tail mem))
          (fun piece mem => written' piece (List.mem_of_mem_tail mem))
      · -- the first places decide, by which of them is overlong
        by_cases short : ∀ piece ∈ ps.head?, ¬Overlong piece
        · by_cases short' : ∀ piece ∈ qs.head?, ¬Overlong piece
          · exact iff_of_true (compareTokens_eq_of_short head head' short short' alike)
              (not_misjudged_of_short short short' alike)
          · obtain ⟨q, qs, rfl, long⟩ := exists_cons_overlong short'
            exact iff_of_false (compareTokens_ne_of_overlongSecond (head' q rfl) long head short)
              (not_not_intro (.overlongSecond short long))
        · obtain ⟨p, ps, rfl, long⟩ := exists_cons_overlong short
          by_cases short' : ∀ piece ∈ qs.head?, ¬Overlong piece
          · exact iff_of_false (compareTokens_ne_of_overlongFirst (head p rfl) long head' short')
              (not_not_intro (.overlongFirst long short'))
          · obtain ⟨q, qs, rfl, long'⟩ := exists_cons_overlong short'
            have differ : p ≠ q := fun same => alike (Or.inl (congrArg some same))
            rw [misjudged_iff_of_overlongBoth long long' differ,
              compareTokens_of_overlongBoth (head p rfl) (head' q rfl) long long' differ, not_not]

/-! ## Texts -/

/-- All pieces of the version are digits throughout. -/
def Numeric (version : String) : Prop := ∀ piece ∈ pieces version, ∀ d ∈ piece, d.isDigit

instance : DecidablePred Numeric := fun version =>
  decidable_of_iff ((pieces version).all (·.all Char.isDigit) = true)
    (by simp only [Numeric, List.all_eq_true])

/-- The numbers that the pieces of a version write, in order. -/
def numbers (version : String) : List Nat := (pieces version).map decimal

theorem Numeric.written {version : String} (numeric : Numeric version) :
    ∀ piece ∈ pieces version, Written piece := by
  intro piece mem
  have filled : piece ≠ [] := by simpa using (List.mem_filter.1 mem).2
  exact ⟨filled, numeric piece mem⟩

/-- **Which versions of digits compare as their numbers do.**  The shorter one is padded with
zeros, and nothing goes wrong without a number of more than 64 bits. -/
theorem compare_numeric_iff_not_misjudged {a b : String} (numeric : Numeric a)
    (numeric' : Numeric b) :
    (compare a b = comparePadded 0 (numbers a) (numbers b) ↔ ¬Misjudged (pieces a) (pieces b)) ∧
      (Misjudged (pieces a) (pieces b) →
        ∃ piece ∈ pieces a ++ pieces b, numberLimit ≤ decimal piece) :=
  ⟨compareTokens_eq_iff_not_misjudged _ _ numeric.written numeric'.written,
    Misjudged.exists_overlong⟩

/-- The first number that has 65 bits is below one, the last that has 64 is not. -/
theorem compare_numeric_iff_not_misjudged_overlong :
    Misjudged (pieces "18446744073709551616") (pieces "1") ∧
      compare "0018446744073709551615.00" "1" =
        comparePadded 0 (numbers "0018446744073709551615.00") (numbers "1") := by
  have numeric : ∀ v ∈ ["18446744073709551616", "0018446744073709551615.00", "1"], Numeric v := by
    decide +kernel
  have wrong : compare "18446744073709551616" "1" = .lt := by decide +kernel
  have right : comparePadded 0 (numbers "18446744073709551616") (numbers "1") = .gt := by
    decide +kernel
  have long := (compare_numeric_iff_not_misjudged (numeric "18446744073709551616" (by simp))
    (numeric "1" (by simp))).1
  have short := compare_numeric_iff_not_misjudged (numeric "0018446744073709551615.00" (by simp))
    (numeric "1" (by simp))
  refine ⟨?_, short.1.2 fun misjudged => ?_⟩
  · rw [wrong, right] at long
    by_contra away
    exact Ordering.noConfusion (long.2 away)
  · obtain ⟨piece, mem, large⟩ := short.2 misjudged
    have all : ∀ piece ∈ pieces "0018446744073709551615.00" ++ pieces "1",
        decimal piece < numberLimit := by decide +kernel
    exact (all piece mem).not_ge large

theorem not_compare_numeric :
    ¬∀ a b : String, Numeric a → Numeric b →
      compare a b = comparePadded 0 (numbers a) (numbers b) := by
  intro asNumbers
  have numeric : ∀ v ∈ ["18446744073709551616", "1"], Numeric v := by
    decide +kernel
  have same := asNumbers "18446744073709551616" "1" (numeric _ (by simp)) (numeric _ (by simp))
  revert same
  decide +kernel

end Version
end EdgeResolution
