/-
# EdgeResolution.Proofs.Toml.Moment -- dates and times are those of the calendar

`Moment.Valid` says what a date, a time and an offset may be.  Nothing else is read
(`moment_gives`), and all of them are: a valid moment is read from its text
(`moment_text`), where only an offset of no hours and no minutes loses its sign.  So
the text under which a moment is held stands for that moment.
-/
import EdgeResolution.Proofs.Toml.Number
import Mathlib.Data.List.DropRight

namespace EdgeResolution.Toml

set_option autoImplicit false

open Reader

/-! ## Which moments there are -/

structure Date.Valid (d : Date) : Prop where
  year : d.year ≤ 9999
  month : 1 ≤ d.month ∧ d.month ≤ 12
  day : 1 ≤ d.day ∧ d.day ≤ daysIn d.year d.month

/-- The fraction has at most nine digits, and the last one is no zero. -/
structure Time.Valid (t : Time) : Prop where
  hour : t.hour ≤ 23
  minute : t.minute ≤ 59
  second : t.second ≤ 60
  digits : ∀ c ∈ t.fraction, c.isDigit = true
  short : t.fraction.length ≤ 9
  noZero : t.fraction.getLast? ≠ some '0'

def Offset.Valid : Offset → Prop
  | .universal => True
  | .shifted _ hours minutes => hours ≤ 23 ∧ minutes ≤ 59

def Moment.Valid : Moment → Prop
  | .date d => d.Valid
  | .time t => t.Valid
  | .dateTime d t off => d.Valid ∧ t.Valid ∧ ∀ o ∈ off, o.Valid

/-! ## Only these are read -/

theorem field_gives (count low high : Nat) :
    (field count low high).Gives fun n => low ≤ n ∧ n ≤ high :=
  .after fun _ => .guarded id

theorem date_gives : date.Gives Date.Valid :=
  (field_gives 4 0 9999).bind fun _ year => .after fun _ =>
    (field_gives 2 1 12).bind fun _ month => .after fun _ =>
      (field_gives 2 1 _).bind fun _ day => .pure ⟨year.2, month, day⟩

theorem withoutFinalZeros_eq_rdropWhile (ds : List Char) :
    withoutFinalZeros ds = ds.rdropWhile (· == '0') := rfl

theorem getLast?_withoutFinalZeros_ne (ds : List Char) :
    (withoutFinalZeros ds).getLast? ≠ some '0' := by
  rw [withoutFinalZeros_eq_rdropWhile]
  intro last
  have filled : ds.rdropWhile (· == '0') ≠ [] := by
    intro empty
    simp [empty] at last
  have notZero := List.rdropWhile_last_not (· == '0') ds filled
  rw [List.getLast?_eq_some_getLast filled] at last
  exact notZero (beq_iff_eq.2 (Option.some.inj last))

theorem secondFraction_gives : secondFraction.Gives fun ds =>
    (∀ c ∈ ds, c.isDigit = true) ∧ ds.length ≤ 9 ∧ ds.getLast? ≠ some '0' := by
  refine .after fun _ => (Gives.one _).bind fun first digit => (Gives.run _).bind fun more digits =>
    .pure ?_
  have counted : withoutFinalZeros ((first :: more).take 9) <+: (first :: more).take 9 :=
    List.rdropWhile_prefix ..
  have written : ∀ c ∈ first :: more, c.isDigit = true := List.forall_mem_cons.2 ⟨digit, digits⟩
  refine ⟨fun c mem => written c (List.mem_of_mem_take (counted.subset mem)),
    counted.length_le.trans (List.length_take_le ..), getLast?_withoutFinalZeros_ne _⟩

theorem time_gives : time.Gives Time.Valid := by
  refine (field_gives 2 0 23).bind fun _ hour => .after fun _ =>
    (field_gives 2 0 59).bind fun _ minute => .after fun _ =>
      (field_gives 2 0 60).bind fun _ second =>
        secondFraction_gives.optional.bind fun found given => .pure ?_
  cases found with
  | none => exact ⟨hour.2, minute.2, second.2, by simp, by simp, by simp⟩
  | some ds =>
      obtain ⟨digits, short, noZero⟩ := given ds rfl
      exact ⟨hour.2, minute.2, second.2, digits, short, noZero⟩

theorem offset_gives : offset.Gives Offset.Valid :=
  .orElse (.after fun _ => .pure trivial) <| .after fun _ =>
    (field_gives 2 0 23).bind fun _ hours => .after fun _ =>
      (field_gives 2 0 59).bind fun _ minutes => .pure ⟨hours.2, minutes.2⟩

/-- **Only moments of the calendar are read.** -/
theorem moment_gives : moment.Gives Moment.Valid := by
  refine .orElse (date_gives.bind fun d date => ?_) (time_gives.map fun t time => time)
  have after : Gives timeAfterDate fun found => found.1.Valid ∧ ∀ o ∈ found.2, o.Valid :=
    .after fun _ => time_gives.bind fun t time => offset_gives.optional.bind fun off shifted =>
      .pure ⟨time, shifted⟩
  refine after.optional.bind fun found given => ?_
  cases found with
  | none => exact .pure date
  | some found => exact .pure ⟨date, given found rfl⟩

/-- In a year that is no leap year February has no 29th day. -/
example : (moment "2023-02-29".toList).isNone = true := by cbv

/-! ## Their texts are read back -/

variable {count low high n : Nat} {cs ds rest : List Char} {c : Char}

theorem toList_padded (count n : Nat) : (padded count n).toList =
    List.replicate (count - (Nat.toDigits 10 n).length) '0' ++ Nat.toDigits 10 n :=
  String.toList_ofList

theorem isDigit_padded (count n : Nat) : ∀ c ∈ (padded count n).toList, c.isDigit = true := by
  rw [toList_padded]
  refine List.forall_mem_append.2 ⟨fun c zero => ?_, isDigit_toDigits n⟩
  rw [List.eq_of_mem_replicate zero]
  rfl

theorem length_padded (positive : 0 < count) (fits : n < 10 ^ count) :
    (padded count n).toList.length = count := by
  have short := (Nat.length_toDigits_le_iff (by decide) positive).2 fits
  rw [toList_padded, List.length_append, List.length_replicate]
  omega

theorem valueIn_padded (count n : Nat) : valueIn 10 (padded count n).toList = n := by
  rw [valueIn_eq_ofDigitChars (isDigit_padded count n), toList_padded, Nat.ofDigitChars_append,
    Nat.ofDigitChars_replicate_zero, Nat.mul_zero,
    Nat.ofDigitChars_toDigits (by decide) (by decide)]

theorem field_padded (count : Nat) (positive : 0 < count) (fits : n < 10 ^ count)
    (within : low ≤ n ∧ n ≤ high) (rest : List Char) :
    field count low high ((padded count n).toList ++ rest) = some (n, rest) := by
  have taken : (List.replicate count (one Char.isDigit)).mapM id _ = _ :=
    mapM_one (length_padded positive fits) (isDigit_padded count n) rest
  rw [field, bind_of_some taken, valueIn_padded, if_pos within]
  rfl

theorem daysIn_le (year month : Nat) : daysIn year month ≤ 31 := by
  rw [daysIn]
  split_ifs <;> decide

theorem date_text {d : Date} (valid : d.Valid) (rest : List Char) :
    date (d.text.toList ++ rest) = some (d, rest) := by
  obtain ⟨year, month, day⟩ := valid
  have days := daysIn_le d.year d.month
  have spelled : d.text.toList ++ rest = (padded 4 d.year).toList ++ '-' ::
      ((padded 2 d.month).toList ++ '-' :: ((padded 2 d.day).toList ++ rest)) := by
    simp [Date.text]
  have takesYear := field_padded 4 (by decide) (by omega) ⟨Nat.zero_le _, year⟩
  have takesMonth := field_padded 2 (by decide) (by omega) month
  have takesDay := field_padded 2 (by decide) (by omega) day
  rw [spelled, date, bind_of_some (takesYear _), bind_of_some (char_cons _ _),
    bind_of_some (takesMonth _), bind_of_some (char_cons _ _), bind_of_some (takesDay _)]
  rfl

/-- What stands after a time: no digit, and nothing that it may go on with. -/
def Ended (rest : List Char) : Prop := ∀ c ∈ rest.head?, c.isDigit = false ∧ c ≠ '.'

def fractionText (ds : List Char) : List Char := if ds.isEmpty then [] else '.' :: ds

theorem optional_secondFraction (digits : ∀ c ∈ ds, c.isDigit = true) (short : ds.length ≤ 9)
    (noZero : ds.getLast? ≠ some '0') (apart : Ended rest) :
    ∃ found, optional secondFraction (fractionText ds ++ rest) = some (found, rest) ∧
      found.getD [] = ds := by
  cases ds with
  | nil =>
      refine ⟨none, optional_of_none (bind_of_none (char_of_head?_ne ?_)), rfl⟩
      exact fun same => (apart '.' same).2 rfl
  | cons c ds =>
      obtain ⟨digit, others⟩ := List.forall_mem_cons.1 digits
      have kept : withoutFinalZeros ((c :: ds).take 9) = c :: ds := by
        rw [List.take_of_length_le short, withoutFinalZeros_eq_rdropWhile,
          List.rdropWhile_eq_self_iff]
        intro filled zero
        rw [List.getLast?_eq_some_getLast filled, beq_iff_eq.1 zero] at noZero
        exact noZero rfl
      have taken : secondFraction ('.' :: c :: (ds ++ rest)) = some (c :: ds, rest) := by
        rw [secondFraction, bind_of_some (char_cons _ _), bind_of_some (one_cons digit),
          bind_of_some (run_append others fun c mem => (apart c mem).1), kept]
        rfl
      exact ⟨some (c :: ds), optional_of_some taken, rfl⟩

theorem time_text {t : Time} (valid : t.Valid) (apart : Ended rest) :
    time (t.text.toList ++ rest) = some (t, rest) := by
  obtain ⟨hour, minute, second, digits, short, noZero⟩ := valid
  have spelled : t.text.toList ++ rest = (padded 2 t.hour).toList ++ ':' ::
      ((padded 2 t.minute).toList ++ ':' :: ((padded 2 t.second).toList ++
        (fractionText t.fraction ++ rest))) := by
    rw [fractionText]
    split <;> simp [Time.text, *]
  have takesHour := field_padded 2 (by decide) (by omega) ⟨Nat.zero_le _, hour⟩
  have takesMinute := field_padded 2 (by decide) (by omega) ⟨Nat.zero_le _, minute⟩
  have takesSecond := field_padded 2 (by decide) (by omega) ⟨Nat.zero_le _, second⟩
  obtain ⟨found, takesFraction, fraction⟩ := optional_secondFraction digits short noZero apart
  rw [spelled, time, bind_of_some (takesHour _), bind_of_some (char_cons _ _),
    bind_of_some (takesMinute _), bind_of_some (char_cons _ _), bind_of_some (takesSecond _),
    bind_of_some takesFraction, fraction]
  rfl

/-- No shift has no direction. -/
def Offset.plain : Offset → Offset
  | .universal => .universal
  | .shifted west hours minutes => .shifted (west && !(hours == 0 && minutes == 0)) hours minutes

theorem offset_text {o : Offset} (valid : o.Valid) (rest : List Char) :
    offset (o.text.toList ++ rest) = some (o.plain, rest) := by
  cases o with
  | universal => rfl
  | shifted west hours minutes =>
      obtain ⟨hour, minute⟩ := valid
      have takesHours := field_padded 2 (by decide) (by omega) ⟨Nat.zero_le _, hour⟩
      have takesMinutes := field_padded 2 (by decide) (by omega) ⟨Nat.zero_le _, minute⟩
      have signed (sign : Char) (known : sign = '-' ∨ sign = '+') :
          offset (sign :: ((padded 2 hours).toList ++ ':' :: ((padded 2 minutes).toList ++ rest))) =
            some (.shifted (sign == '-') hours minutes, rest) := by
        have notUniversal : (sign == 'Z' || sign == 'z') = false := by
          rcases known with rfl | rfl <;> rfl
        have isSign : (sign == '+' || sign == '-') = true := by
          rcases known with rfl | rfl <;> rfl
        rw [offset, orElse_of_none (bind_of_none (discard_of_none (one_cons_of_not notUniversal))),
          bind_of_some (one_cons isSign), bind_of_some (takesHours _), bind_of_some (char_cons _ _),
          bind_of_some (takesMinutes _)]
        rfl
      rw [Offset.plain, Offset.text]
      cases west && !(hours == 0 && minutes == 0) with
      | true => simpa using signed '-' (.inl rfl)
      | false => simpa using signed '+' (.inr rfl)

/-! ## Moments -/

def Moment.plain : Moment → Moment
  | .date d => .date d
  | .time t => .time t
  | .dateTime d t off => .dateTime d t (off.map Offset.plain)

/-- Besides digits, what a moment may go on with. -/
def continuing : List Char := ['.', 'T', 't', ' ', 'Z', 'z', '+', '-']

/-- What stands after a moment. -/
def Complete (rest : List Char) : Prop :=
  ∀ c ∈ rest.head?, c.isDigit = false ∧ c ∉ continuing

theorem Complete.ended (complete : Complete rest) : Ended rest := by
  intro c mem
  obtain ⟨digit, others⟩ := complete c mem
  exact ⟨digit, List.ne_of_not_mem_cons others⟩

theorem Complete.one_eq_none {p : Char → Bool} (complete : Complete rest)
    (among : ∀ c, p c = true → c ∈ continuing) : one p rest = none :=
  one_of_head? fun c mem => Bool.eq_false_iff.2 fun holds => (complete c mem).2 (among c holds)

theorem optional_offset {off : Option Offset} (valid : ∀ o ∈ off, o.Valid)
    (complete : Complete rest) :
    optional offset (((off.map Offset.text).getD "").toList ++ rest) =
      some (off.map Offset.plain, rest) := by
  cases off with
  | some o => exact optional_of_some (offset_text (valid o rfl) rest)
  | none =>
      have notUniversal : one (fun c => c == 'Z' || c == 'z') rest = none :=
        complete.one_eq_none (by simp +contextual [continuing])
      have noSign : one (fun c => c == '+' || c == '-') rest = none :=
        complete.one_eq_none (by simp +contextual [continuing])
      refine optional_of_none ?_
      exact (orElse_of_none (bind_of_none (discard_of_none notUniversal))).trans
        (bind_of_none noSign)

theorem ended_offset {off : Option Offset} (complete : Complete rest) :
    Ended (((off.map Offset.text).getD "").toList ++ rest) := by
  rcases off with _ | _ | ⟨west, hours, minutes⟩
  · exact complete.ended
  · rintro _ ⟨⟩
    decide
  · rw [Option.map_some, Option.getD_some, Offset.text]
    split <;>
    · rintro c mem
      obtain rfl := Option.some.inj (by simpa using mem)
      decide

/-- A time does not begin as a date does. -/
theorem date_time_text {t : Time} (valid : t.Valid) (rest : List Char) :
    date (t.text.toList ++ rest) = none := by
  have fits : t.hour < 10 ^ 2 := Nat.lt_of_le_of_lt valid.hour (by decide)
  have two := length_padded (by decide) fits
  obtain ⟨more, spelled⟩ : ∃ more, t.text.toList ++ rest =
      (padded 2 t.hour).toList ++ ':' :: more := ⟨_, by simp [Time.text]; rfl⟩
  have noYear : (List.replicate 4 (one Char.isDigit)).mapM id
      ((padded 2 t.hour).toList ++ ':' :: more) = none := by
    refine mapM_one_of_short (by omega) ?_
    rintro _ ⟨⟩
    decide
  rw [spelled]
  exact bind_of_none (bind_of_none noYear)

/-- **A moment is read from its text.** -/
theorem moment_text {m : Moment} (valid : m.Valid) (complete : Complete rest) :
    moment (m.text.toList ++ rest) = some (m.plain, rest) := by
  cases m with
  | date d =>
      have noTime : timeAfterDate rest = none := by
        refine bind_of_none (discard_of_none (complete.one_eq_none ?_))
        simp +contextual [continuing, or_imp]
      refine orElse_of_some ?_
      rw [Moment.text, dateMoment, bind_of_some (date_text valid rest),
        bind_of_some (optional_of_none noTime)]
      rfl
  | time t =>
      have noDate : dateMoment (t.text.toList ++ rest) = none :=
        bind_of_none (date_time_text valid rest)
      exact (orElse_of_none noDate).trans (map_of_some (time_text valid complete.ended))
  | dateTime d t off =>
      obtain ⟨date, time, shifted⟩ := valid
      have spelled : (Moment.dateTime d t off).text.toList ++ rest = d.text.toList ++
          'T' :: (t.text.toList ++ (((off.map Offset.text).getD "").toList ++ rest)) := by
        simp [Moment.text]
      have after : timeAfterDate ('T' :: (t.text.toList ++
          (((off.map Offset.text).getD "").toList ++ rest))) =
            some ((t, off.map Offset.plain), rest) := by
        rw [timeAfterDate, bind_of_some (discard_of_some (one_cons (by decide))),
          bind_of_some (time_text time (ended_offset complete)),
          bind_of_some (optional_offset shifted complete)]
        rfl
      refine orElse_of_some ?_
      rw [spelled, dateMoment, bind_of_some (date_text date _),
        bind_of_some (optional_of_some after)]
      rfl

theorem Offset.text_plain (o : Offset) : o.plain.text = o.text := by
  cases o with
  | universal => rfl
  | shifted west hours minutes =>
      rw [Offset.plain, Offset.text, Offset.text, Bool.and_assoc, Bool.and_self]

theorem Moment.text_plain (m : Moment) : m.plain.text = m.text := by
  cases m with
  | date d => rfl
  | time t => rfl
  | dateTime d t off =>
      have same : Offset.text ∘ Offset.plain = Offset.text := funext Offset.text_plain
      rw [Moment.plain, Moment.text, Moment.text, Option.map_map, same]

/-- **The text under which a moment is held stands for it**: read again, it gives the same moment
and the same text. -/
theorem moment_text_of_moment {m : Moment} (read : moment cs = some (m, rest)) :
    moment m.text.toList = some (m.plain, []) ∧ m.plain.text = m.text := by
  have complete : Complete [] := by simp [Complete]
  have again := moment_text (moment_gives cs m rest read) complete
  rw [List.append_nil] at again
  exact ⟨again, m.text_plain⟩

end EdgeResolution.Toml
