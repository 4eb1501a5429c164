/-
# EdgeResolution.Proofs.Toml.Number -- which numbers a document may hold

A number is kept as its literal, so a reader of numbers only has to tell which there
are, and where they end.

* `isFinite_iff`: the reader of floats counts digits, and computes powers of ten only
  near the limit; this decides whether the number is less than what rounds to
  infinity, for every mantissa and exponent.
* `integer_text`: the integers that may be written in base 10 are those of 64 bits.
* `numberLiteral_eq_some_iff`: the literal is the text that was read, since no reader
  leaves anything but the end of its text (`Reader.Leaves`).
-/
import EdgeResolution.Proofs.Toml.Reading
import EdgeResolution.Toml.Value
import Mathlib.Algebra.Order.Field.Power
import Mathlib.Algebra.Order.Field.Rat
import Mathlib.Tactic.Positivity
import Mathlib.Tactic.NormNum

namespace EdgeResolution.Toml

set_option autoImplicit false

open Reader

variable {c : Char} {cs ds rest mantissa : List Char}

/-! ## Digits and what they write -/

theorem hexValue?_of_isDigit (digit : c.isDigit = true) :
    hexValue? c = some (c.toNat - '0'.toNat) :=
  if_pos digit

theorem valueIn_eq_ofDigitChars (written : ∀ c ∈ ds, c.isDigit = true) :
    valueIn 10 ds = Nat.ofDigitChars 10 ds 0 := by
  have step : ∀ init, ds.foldl (fun value c => value * 10 + (hexValue? c).getD 0) init =
      Nat.ofDigitChars 10 ds init := by
    induction ds with
    | nil => exact fun init => rfl
    | cons c ds ih =>
        intro init
        obtain ⟨digit, others⟩ := List.forall_mem_cons.1 written
        rw [List.foldl_cons, ih others, Nat.ofDigitChars_cons, hexValue?_of_isDigit digit,
          Option.getD_some, Nat.mul_comm]
  exact step 0

theorem valueIn_cons (written : ∀ d ∈ c :: ds, d.isDigit = true) :
    valueIn 10 (c :: ds) = 10 ^ ds.length * (c.toNat - '0'.toNat) + valueIn 10 ds := by
  rw [valueIn_eq_ofDigitChars written, Nat.ofDigitChars_cons,
    Nat.ofDigitChars_eq_ofDigitChars_zero, Nat.mul_zero, Nat.zero_add,
    valueIn_eq_ofDigitChars (List.forall_mem_cons.1 written).2]

theorem valueIn_lt (written : ∀ c ∈ ds, c.isDigit = true) : valueIn 10 ds < 10 ^ ds.length := by
  induction ds with
  | nil => decide
  | cons c ds ih =>
      obtain ⟨digit, others⟩ := List.forall_mem_cons.1 written
      have upper : c.toNat - '0'.toNat + 1 ≤ 10 :=
        Nat.succ_le_succ (Nat.sub_le_sub_right (Char.isDigit_iff_toNat.1 digit).2 '0'.toNat)
      calc valueIn 10 (c :: ds)
          = 10 ^ ds.length * (c.toNat - '0'.toNat) + valueIn 10 ds := valueIn_cons written
        _ < 10 ^ ds.length * (c.toNat - '0'.toNat) + 10 ^ ds.length :=
            Nat.add_lt_add_left (ih others) _
        _ = 10 ^ ds.length * (c.toNat - '0'.toNat + 1) := (Nat.mul_succ _ _).symm
        _ ≤ 10 ^ ds.length * 10 := Nat.mul_le_mul_left _ upper
        _ = 10 ^ (c :: ds).length := (Nat.pow_succ 10 ds.length).symm

theorem le_valueIn_cons (written : ∀ d ∈ c :: ds, d.isDigit = true) (leading : c ≠ '0') :
    10 ^ ds.length ≤ valueIn 10 (c :: ds) := by
  have notZero : c.toNat ≠ '0'.toNat := fun same => leading (Char.toNat_inj.1 same)
  have lower : 1 ≤ c.toNat - '0'.toNat := by
    have := (Char.isDigit_iff_toNat.1 (List.forall_mem_cons.1 written).1).1
    omega
  rw [valueIn_cons written]
  exact Nat.le_add_right_of_le (Nat.le_mul_of_pos_right _ lower)

theorem valueIn_dropWhile_zeros (ds : List Char) :
    valueIn 10 (ds.dropWhile (· == '0')) = valueIn 10 ds := by
  induction ds with
  | nil => rfl
  | cons c ds ih =>
      by_cases zero : c = '0'
      · subst zero
        exact ih
      · rw [List.dropWhile_cons_of_neg (by simpa using zero)]

/-! ## Floats -/

theorem pow_300_le_infinityThreshold : 10 ^ 300 ≤ infinityThreshold := by decide +kernel

theorem infinityThreshold_le_pow_320 : infinityThreshold ≤ 10 ^ 320 := by decide +kernel

/-- With few digits a number is far below the limit. -/
theorem lt_of_magnitude_lt {exponent : Int} (written : ∀ c ∈ ds, c.isDigit = true)
    (few : (ds.length : Int) + exponent < 300) :
    valueIn 10 ds * 10 ^ exponent.toNat < infinityThreshold * 10 ^ (-exponent).toNat := by
  have fewer : ds.length + exponent.toNat ≤ 300 + (-exponent).toNat := by omega
  calc valueIn 10 ds * 10 ^ exponent.toNat
      < 10 ^ ds.length * 10 ^ exponent.toNat :=
        Nat.mul_lt_mul_of_pos_right (valueIn_lt written) (Nat.pow_pos (by decide))
    _ = 10 ^ (ds.length + exponent.toNat) := (pow_add ..).symm
    _ ≤ 10 ^ (300 + (-exponent).toNat) := Nat.pow_le_pow_right (by decide) fewer
    _ = 10 ^ 300 * 10 ^ (-exponent).toNat := pow_add 10 300 _
    _ ≤ infinityThreshold * 10 ^ (-exponent).toNat :=
        Nat.mul_le_mul_right _ pow_300_le_infinityThreshold

/-- With many digits, the first of which is not zero, it is far above. -/
theorem le_of_lt_magnitude {exponent : Int} (written : ∀ d ∈ c :: ds, d.isDigit = true)
    (leading : c ≠ '0') (many : 320 < ((c :: ds).length : Int) + exponent) :
    infinityThreshold * 10 ^ (-exponent).toNat ≤ valueIn 10 (c :: ds) * 10 ^ exponent.toNat := by
  have more : 320 + (-exponent).toNat ≤ ds.length + exponent.toNat := by
    rw [List.length_cons] at many
    omega
  calc infinityThreshold * 10 ^ (-exponent).toNat
      ≤ 10 ^ 320 * 10 ^ (-exponent).toNat := Nat.mul_le_mul_right _ infinityThreshold_le_pow_320
    _ = 10 ^ (320 + (-exponent).toNat) := (pow_add 10 320 _).symm
    _ ≤ 10 ^ (ds.length + exponent.toNat) := Nat.pow_le_pow_right (by decide) more
    _ = 10 ^ ds.length * 10 ^ exponent.toNat := pow_add ..
    _ ≤ valueIn 10 (c :: ds) * 10 ^ exponent.toNat :=
        Nat.mul_le_mul_right _ (le_valueIn_cons written leading)

/-- The count of digits never decides otherwise than the powers would. -/
theorem isFinite_iff_lt (written : ∀ c ∈ mantissa, c.isDigit = true) (exponent : Int) :
    isFinite mantissa exponent = true ↔
      valueIn 10 mantissa * 10 ^ exponent.toNat < infinityThreshold * 10 ^ (-exponent).toNat := by
  rw [← valueIn_dropWhile_zeros mantissa, isFinite]
  have significant : ∀ c ∈ mantissa.dropWhile (· == '0'), c.isDigit = true :=
    fun c mem => written c ((List.dropWhile_sublist _).subset mem)
  cases shape : mantissa.dropWhile (· == '0') with
  | nil =>
      refine iff_of_true rfl ?_
      rw [show valueIn 10 [] = 0 from rfl, Nat.zero_mul]
      exact Nat.mul_pos (by decide +kernel) (Nat.pow_pos (by decide))
  | cons c ds =>
      rw [shape] at significant
      have leading : c ≠ '0' := by
        have head := List.head?_dropWhile_not (· == '0') mantissa
        rw [shape] at head
        simpa using head
      simp only [List.isEmpty_cons, Bool.false_or, decide_eq_true_eq]
      split
      · next few => exact iff_of_true rfl (lt_of_magnitude_lt significant few)
      · split
        · next many =>
            refine iff_of_false (by decide) (Nat.not_lt.2 ?_)
            exact le_of_lt_magnitude significant leading many
        · exact decide_eq_true_iff

/-- **A float is finite if it is less than what rounds to infinity.** -/
theorem isFinite_iff (written : ∀ c ∈ mantissa, c.isDigit = true) (exponent : Int) :
    isFinite mantissa exponent = true ↔
      (valueIn 10 mantissa : ℚ) * 10 ^ exponent < infinityThreshold := by
  have positive : (0 : ℚ) < 10 ^ (-exponent).toNat := by positivity
  have scaled : (10 : ℚ) ^ exponent * 10 ^ (-exponent).toNat = 10 ^ exponent.toNat := by
    rw [← zpow_natCast, ← zpow_natCast, ← zpow_add₀ (by norm_num)]
    congr 1
    omega
  rw [isFinite_iff_lt written, ← mul_lt_mul_iff_left₀ positive, mul_assoc, scaled]
  exact_mod_cast Iff.rfl

example : isFinite ['1'] 308 = true ∧ isFinite ['1'] 309 = false := by decide +kernel

/-! ## Integers -/

/-- What stands after a number: no letter, digit, hyphen or underscore. -/
def Apart (rest : List Char) : Prop := ∀ c ∈ rest.head?, isBareKeyChar c = false

theorem Apart.isDigit_head? (apart : Apart rest) (mem : c ∈ rest.head?) : c.isDigit = false := by
  have bare := apart c mem
  simp only [isBareKeyChar, Char.isAlphanum, Bool.or_eq_false_iff] at bare
  exact bare.1.1.2

theorem Apart.head?_ne (apart : Apart rest) (bare : isBareKeyChar c = true) :
    rest.head? ≠ some c :=
  fun same => absurd (apart c same) (by simp [bare])

theorem digits_append (written : ∀ d ∈ c :: ds, d.isDigit = true) (apart : Apart rest) :
    digits Char.isDigit (c :: ds ++ rest) = some (c :: ds, rest) := by
  obtain ⟨digit, others⟩ := List.forall_mem_cons.1 written
  have noUnderscore {cs : List Char} (other : cs.head? ≠ some '_') :
      discard (skip (char '_')) cs = some ((), cs) :=
    discard_of_some (skip_of_none (char_of_head?_ne other))
  have more : many (do discard (skip (char '_')); one Char.isDigit)
      (ds.flatMap (fun d => [d]) ++ rest) = some (ds.map id, rest) := by
    refine many_flatMap (fun _ => True) (fun d mem rest _ => ?_) (by simp)
      (fun _ _ _ => trivial) trivial ?_
    · have notUnderscore : d ≠ '_' := by
        rintro rfl
        exact absurd (others _ mem) (by decide)
      exact (bind_of_some (noUnderscore (by simpa using notUnderscore))).trans
        (one_cons (others d mem))
    · exact (bind_of_some (noUnderscore (apart.head?_ne (by decide)))).trans
        (one_of_head? fun d mem => apart.isDigit_head? mem)
  rw [List.flatMap_singleton', List.map_id] at more
  rw [List.cons_append, digits, bind_of_some (one_cons digit), bind_of_some more]
  rfl

section Digits

variable (n : Nat)

theorem isDigit_toDigits : ∀ d ∈ Nat.toDigits 10 n, d.isDigit = true :=
  fun _ => Nat.isDigit_of_mem_toDigits (by decide) (by decide)

theorem valueIn_toDigits : valueIn 10 (Nat.toDigits 10 n) = n := by
  rw [valueIn_eq_ofDigitChars (isDigit_toDigits n),
    Nat.ofDigitChars_toDigits (by decide) (by decide)]

theorem toDigits_eq_or : Nat.toDigits 10 n = ['0'] ∨
    ∃ c ds, Nat.toDigits 10 n = c :: ds ∧ c ≠ '0' := by
  cases shape : Nat.toDigits 10 n with
  | nil => exact absurd shape (List.ne_nil_of_length_pos Nat.length_toDigits_pos)
  | cons c ds =>
      by_cases zero : c = '0'
      · subst zero
        left
        have written := isDigit_toDigits n
        have number := valueIn_toDigits n
        rw [shape] at written number
        cases ds with
        | nil => rfl
        | cons d ds =>
            -- a zero more than the number has digits
            have small : n < 10 ^ (d :: ds).length := by
              calc n = valueIn 10 (d :: ds) := number.symm
                _ < 10 ^ (d :: ds).length := valueIn_lt (List.forall_mem_cons.1 written).2
            have short := (Nat.length_toDigits_le_iff (by decide) (by simp)).2 small
            rw [shape] at short
            simp at short
      · exact Or.inr ⟨c, ds, rfl, zero⟩

theorem unsigned_toDigits (apart : Apart rest) :
    ((do char '0'; return ['0']) <|> digits Char.isDigit : Reader (List Char))
      (Nat.toDigits 10 n ++ rest) = some (Nat.toDigits 10 n, rest) := by
  have written := isDigit_toDigits n
  rcases toDigits_eq_or n with same | ⟨c, ds, same, leading⟩
  · rw [same]
    exact orElse_of_some (bind_of_some (char_cons _ _))
  · rw [same] at written ⊢
    have noZero : char '0' (c :: ds ++ rest) = none := char_of_head?_ne (by simpa using leading)
    rw [orElse_of_none (bind_of_none noZero), digits_append written apart]

theorem decimal_toDigits (apart : Apart rest) :
    decimal (Nat.toDigits 10 n ++ rest) = some ((false, Nat.toDigits 10 n), rest) := by
  have noSign : one (fun c => c == '+' || c == '-') (Nat.toDigits 10 n ++ rest) = none := by
    refine one_of_head? fun c mem => ?_
    have first : c ∈ Nat.toDigits 10 n := by
      rw [List.head?_append_of_ne_nil _ (List.ne_nil_of_length_pos Nat.length_toDigits_pos)] at mem
      exact List.mem_of_mem_head? mem
    have digit := isDigit_toDigits n c first
    simp only [Bool.or_eq_false_iff, beq_eq_false_iff_ne]
    constructor <;>
    · rintro rfl
      exact absurd digit (by decide)
  rw [decimal, bind_of_some (optional_of_none noSign), bind_of_some (unsigned_toDigits n apart)]
  rfl

theorem decimal_minus_toDigits (apart : Apart rest) :
    decimal ('-' :: (Nat.toDigits 10 n ++ rest)) = some ((true, Nat.toDigits 10 n), rest) := by
  have sign : one (fun c => c == '+' || c == '-') ('-' :: (Nat.toDigits 10 n ++ rest)) =
      some ('-', Nat.toDigits 10 n ++ rest) := one_cons (by decide)
  rw [decimal, bind_of_some (optional_of_some sign), bind_of_some (unsigned_toDigits n apart)]
  rfl

end Digits

theorem decimalInteger_of_decimal {negative : Bool}
    (read : decimal cs = some ((negative, ds), rest)) :
    decimalInteger cs = if valueIn 10 ds < integerLimit ∨ (negative ∧ valueIn 10 ds = integerLimit)
      then some ((), rest) else none := by
  rw [decimalInteger, bind_of_some read]
  dsimp only
  split <;> rfl

/-- Without the mark of another base a number is one in base 10. -/
theorem integer_of_unmarked
    (unmarked : ∀ mark ∈ ['x', 'o', 'b'], ∀ more, cs ≠ '0' :: mark :: more) :
    integer cs = decimalInteger cs := by
  have radix (base : Nat) : ∀ mark ∈ ['x', 'o', 'b'], radixInteger mark base cs = none := by
    intro mark mem
    refine bind_of_none (Option.eq_none_iff_forall_ne_some.2 ?_)
    rintro ⟨⟨⟩, more⟩ read
    exact unmarked mark mem more (literal_eq_some_iff.1 read)
  simp only [List.forall_mem_cons] at radix
  rw [integer, orElse_of_none (radix 16).1, orElse_of_none (radix 8).2.1,
    orElse_of_none (radix 2).2.2.1]

theorem toDigits_unmarked (n : Nat) (apart : Apart rest) :
    ∀ mark ∈ ['x', 'o', 'b'], ∀ more, Nat.toDigits 10 n ++ rest ≠ '0' :: mark :: more := by
  intro mark mem more same
  have bare : ∀ mark ∈ ['x', 'o', 'b'], isBareKeyChar mark = true := by simp [isBareKeyChar]
  rcases toDigits_eq_or n with zero | ⟨c, ds, digits, leading⟩
  · rw [zero] at same
    obtain rfl : rest = mark :: more := by simpa using same
    exact apart.head?_ne (bare mark mem) rfl
  · rw [digits] at same
    exact leading (List.head_eq_of_cons_eq same)

/-- **The integers of a document are those of 64 bits**: of all integers these are read, each to
the end of its digits. -/
theorem integer_text (i : Int) (apart : Apart rest) :
    integer ((toString i).toList ++ rest) =
      if -(integerLimit : Int) ≤ i ∧ i < integerLimit then some ((), rest) else none := by
  cases i with
  | ofNat n =>
      have spelled : (toString (Int.ofNat n)).toList = Nat.toDigits 10 n := String.toList_ofList
      rw [spelled, integer_of_unmarked (toDigits_unmarked n apart),
        decimalInteger_of_decimal (decimal_toDigits n apart), valueIn_toDigits]
      refine if_congr ?_ rfl rfl
      simp only [Bool.false_eq_true, false_and, or_false, Int.ofNat_eq_natCast]
      omega
  | negSucc n =>
      have spelled : (toString (Int.negSucc n)).toList ++ rest =
          '-' :: (Nat.toDigits 10 (n + 1) ++ rest) := by
        have signed : toString (Int.negSucc n) = "-" ++ Nat.repr (n + 1) := rfl
        simp [signed, Nat.repr]
      rw [spelled, integer_of_unmarked (by simp),
        decimalInteger_of_decimal (decimal_minus_toDigits (n + 1) apart), valueIn_toDigits]
      refine if_congr ?_ rfl rfl
      simp only [true_and]
      omega

/-! ## Literals -/

theorem digits_leaves (p : Char → Bool) : (digits p).Leaves :=
  (Leaves.one p).bind fun _ =>
    (Leaves.many ((Leaves.char '_').skip.discard.bind fun _ => .one p)).bind fun _ => .pure _

theorem decimal_leaves : decimal.Leaves :=
  (Leaves.one _).optional.bind fun _ =>
    (((Leaves.char '0').bind fun _ => .pure _).orElse (digits_leaves _)).bind fun _ => .pure _

theorem integer_leaves : integer.Leaves := by
  have radix (mark : Char) (base : Nat) : (radixInteger mark base).Leaves :=
    (Leaves.literal _).bind fun _ => (digits_leaves _).bind fun _ => .guarded
  exact (radix 'x' 16).orElse ((radix 'o' 8).orElse ((radix 'b' 2).orElse
    (decimal_leaves.bind fun _ => .guarded)))

theorem float_leaves : float.Leaves := by
  have fraction : fraction.Leaves := (Leaves.char '.').bind fun _ => digits_leaves _
  have exponent : exponent.Leaves :=
    (Leaves.one _).discard.bind fun _ => (Leaves.one _).optional.bind fun _ =>
      (digits_leaves _).bind fun _ => .pure _
  refine .orElse ?_ ?_
  · refine decimal_leaves.bind fun _ => fraction.optional.bind fun _ =>
      exponent.optional.bind fun _ => ?_
    dsimp only
    split
    · exact Leaves.failure.bind fun _ => .guarded
    · exact .guarded
  · exact (Leaves.one _).optional.discard.bind fun _ => (Leaves.literal _).orElse (.literal _)

/-- **A number is kept as it is written**: its literal is the part of the text that was read, and
the rest is left. -/
theorem numberLiteral_eq_some_iff {d : Datum} :
    numberLiteral (float <|> integer) cs = some (d, rest) ↔
      ∃ taken, cs = taken ++ rest ∧ d = .number (String.ofList taken) ∧
        (float <|> integer) cs = some ((), rest) := by
  have leaves : (float <|> integer).Leaves := float_leaves.orElse integer_leaves
  constructor
  · intro read
    obtain ⟨⟨⟨⟩, left⟩, here, made⟩ := Option.bind_eq_some_iff.1 read
    obtain ⟨taken, rfl⟩ := leaves _ _ _ here
    cases made
    exact ⟨taken, rfl, by simp, here⟩
  · rintro ⟨taken, rfl, rfl, here⟩
    show ((float <|> integer) (taken ++ rest)).bind _ = _
    rw [here]
    simp

end EdgeResolution.Toml
