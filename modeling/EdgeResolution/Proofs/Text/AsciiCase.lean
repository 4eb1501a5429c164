/-
# EdgeResolution.Proofs.Text.AsciiCase -- lower case does not see the case of ASCII letters

`Char.toLower` moves the capital letters of ASCII to the small ones and leaves all
other characters alone (`toLower_of_not_isCapital`, `IsCapital.toNat_toLower`).

The tables of the character standard do not tell the two apart: all these letters are
cased (`isCased_of_letter`), none is looked through (`isCaseIgnorable_of_letter`), and a
capital letter has the small one as its partner (`lowerPartner_of_isCapital`).  So a text
is the same in lower case when its ASCII letters are lower-cased first
(`lower_map_toLower`), also where a sigma looks at the letters around it.
-/
import EdgeResolution.Text.Lower

namespace EdgeResolution.Text

set_option autoImplicit false

/-! ## The letters of ASCII -/

/-- A capital letter of ASCII. -/
def IsCapital (c : Char) : Prop := 65 ≤ c.toNat ∧ c.toNat ≤ 90

/-- A small letter of ASCII. -/
def IsSmall (c : Char) : Prop := 97 ≤ c.toNat ∧ c.toNat ≤ 122

def IsLetter (c : Char) : Prop := IsCapital c ∨ IsSmall c

variable {c d : Char}

theorem toLower_of_not_isCapital (other : ¬IsCapital c) : c.toLower = c := by
  refine dif_neg fun capital => other ?_
  have low : 'A'.val.toNat ≤ c.val.toNat := UInt32.le_iff_toNat_le.1 capital.1
  have high : c.val.toNat ≤ 'Z'.val.toNat := UInt32.le_iff_toNat_le.1 capital.2
  exact ⟨low, high⟩

theorem IsCapital.toNat_toLower (capital : IsCapital c) : c.toLower.toNat = c.toNat + 32 := by
  have low : 'A'.val ≤ c.val := UInt32.le_iff_toNat_le.2 capital.1
  have high : c.val ≤ 'Z'.val := UInt32.le_iff_toNat_le.2 capital.2
  have moved : c.toLower.val = c.val + ('a'.val - 'A'.val) :=
    congrArg Char.val (dif_pos ⟨low, high⟩)
  have shift : ('a'.val - 'A'.val).toNat = 32 := by decide
  have small := capital.2
  show c.toLower.val.toNat = c.val.toNat + 32
  rw [moved, UInt32.toNat_add, shift]
  exact Nat.mod_eq_of_lt (by unfold Char.toNat at small; omega)

theorem IsCapital.isSmall_toLower (capital : IsCapital c) : IsSmall c.toLower := by
  have low := capital.1
  have high := capital.2
  rw [IsSmall, capital.toNat_toLower]
  omega

theorem IsSmall.not_isCapital (small : IsSmall c) : ¬IsCapital c := by
  intro capital
  have low := small.1
  have high := capital.2
  omega

theorem toLower_toLower (c : Char) : c.toLower.toLower = c.toLower := by
  by_cases capital : IsCapital c
  · exact toLower_of_not_isCapital capital.isSmall_toLower.not_isCapital
  · rw [toLower_of_not_isCapital capital, toLower_of_not_isCapital capital]

/-- What is the same for all letters is not changed by lower-casing a character. -/
theorem toLower_invariant {α : Type} {f : Char → α} {value : α}
    (letters : ∀ {c}, IsLetter c → f c = value) (c : Char) : f c.toLower = f c := by
  by_cases capital : IsCapital c
  · rw [letters (Or.inl capital), letters (Or.inr capital.isSmall_toLower)]
  · rw [toLower_of_not_isCapital capital]

/-- Only a letter comes about by lower-casing another character. -/
theorem toLower_eq_iff (other : d.toNat < 65 ∨ 122 < d.toNat) : c.toLower = d ↔ c = d := by
  by_cases capital : IsCapital c
  · have low := capital.1
    have high := capital.2
    refine iff_of_false ?_ ?_
    · rintro rfl
      rw [capital.toNat_toLower] at other
      omega
    · rintro rfl
      omega
  · rw [toLower_of_not_isCapital capital]

theorem isDigit_of_letter (letter : IsLetter c) : c.isDigit = false := by
  have above : ¬c.val ≤ '9'.val := by
    intro low
    have high : c.toNat ≤ 57 := UInt32.le_iff_toNat_le.1 low
    simp only [IsLetter, IsCapital, IsSmall] at letter
    omega
  rw [Char.isDigit, decide_eq_false above, Bool.and_false]

theorem isDigit_toLower (c : Char) : c.toLower.isDigit = c.isDigit :=
  toLower_invariant isDigit_of_letter c

/-! ## The tables -/

theorem isCased_of_letter (letter : IsLetter c) : isCased c = true := by
  have capitals : (65, 90) ∈ casedLetters := List.mem_cons_self
  have smalls : (97, 122) ∈ casedLetters := List.mem_cons_of_mem _ List.mem_cons_self
  have within : ∀ {first last : Nat}, first ≤ c.toNat ∧ c.toNat ≤ last →
      (decide (first ≤ c.toNat) && decide (c.toNat ≤ last)) = true := by
    intro first last bounds
    rw [decide_eq_true bounds.1, decide_eq_true bounds.2, Bool.and_self]
  exact List.any_eq_true.2 (letter.elim (fun capital => ⟨_, capitals, within capital⟩)
    fun small => ⟨_, smalls, within small⟩)

theorem isCased_toLower (c : Char) : isCased c.toLower = isCased c :=
  toLower_invariant isCased_of_letter c

/-- No letter of ASCII is looked through by the rule on neighbouring letters. -/
theorem isCaseIgnorable_of_letter (letter : IsLetter c) :
    isCaseIgnorable c = false := by
  have outside : ∀ range ∈ caseIgnorables,
      range.2 < 65 ∨ (90 < range.1 ∧ range.2 < 97) ∨ 122 < range.1 := by decide +kernel
  refine List.any_eq_false.2 fun range mem holds => ?_
  rw [Bool.and_eq_true, decide_eq_true_eq, decide_eq_true_eq] at holds
  have := outside range mem
  simp only [IsLetter, IsCapital, IsSmall] at letter
  omega

theorem isCaseIgnorable_toLower (c : Char) : isCaseIgnorable c.toLower = isCaseIgnorable c :=
  toLower_invariant isCaseIgnorable_of_letter c

theorem lowerPartner_of_isCapital (capital : IsCapital c) : lowerPartner c = c.toLower := by
  have low := capital.1
  have covers : LowerRun.covers ⟨65, 90, 1, 97⟩ c.toNat = true := by
    rw [LowerRun.covers, Nat.mod_one, decide_eq_true capital.1, decide_eq_true capital.2]
    rfl
  have first : lowerRuns = ⟨65, 90, 1, 97⟩ :: lowerRuns.tail := rfl
  have next : 97 + (c.toNat - 65) = c.toLower.toNat := by
    rw [capital.toNat_toLower]
    omega
  have found : lowerRuns.find? (·.covers c.toNat) = some ⟨65, 90, 1, 97⟩ := by
    rw [first]
    exact List.find?_cons_of_pos covers
  rw [lowerPartner, found]
  show Char.ofNat (97 + (c.toNat - 65)) = c.toLower
  rw [next, Char.ofNat_toNat]

theorem lowerPartner_of_isSmall (small : IsSmall c) : lowerPartner c = c := by
  have outside : ∀ run ∈ lowerRuns, run.last < 97 ∨ 122 < run.first := by decide +kernel
  have uncovered : lowerRuns.find? (·.covers c.toNat) = none := by
    refine List.find?_eq_none.2 fun run mem covers => ?_
    simp only [LowerRun.covers, Bool.and_eq_true, decide_eq_true_eq] at covers
    have := outside run mem
    simp only [IsSmall] at small
    omega
  rw [lowerPartner, uncovered]

theorem lowerPartner_toLower (c : Char) : lowerPartner c.toLower = lowerPartner c := by
  by_cases capital : IsCapital c
  · rw [lowerPartner_of_isCapital capital, lowerPartner_of_isSmall capital.isSmall_toLower]
  · rw [toLower_of_not_isCapital capital]

/-! ## Texts -/

theorem nearestIsCased_map_toLower (cs : List Char) :
    nearestIsCased (cs.map Char.toLower) = nearestIsCased cs := by
  have ignored : isCaseIgnorable ∘ Char.toLower = isCaseIgnorable := funext isCaseIgnorable_toLower
  rw [nearestIsCased, nearestIsCased, List.dropWhile_map, ignored]
  cases cs.dropWhile isCaseIgnorable with
  | nil => rfl
  | cons c rest => exact isCased_toLower c

theorem lowerAt_map_toLower (before : List Char) (c : Char) (after : List Char) :
    lowerAt (before.map Char.toLower) c.toLower (after.map Char.toLower) =
      lowerAt before c after := by
  have sigma : c.toLower = capitalSigma ↔ c = capitalSigma := toLower_eq_iff (by decide)
  have dottedI : c.toLower = capitalDottedI ↔ c = capitalDottedI := toLower_eq_iff (by decide)
  simp only [lowerAt, sigma, dottedI, nearestIsCased_map_toLower, lowerPartner_toLower]

theorem lowerFrom_map_toLower (before cs : List Char) :
    lowerFrom (before.map Char.toLower) (cs.map Char.toLower) = lowerFrom before cs := by
  induction cs generalizing before with
  | nil => rfl
  | cons c rest ih =>
      rw [List.map_cons, lowerFrom, lowerFrom, lowerAt_map_toLower, ← List.map_cons, ih]

/-- Full lower-casing does not see the case of ASCII letters, whatever stands around them. -/
theorem lower_map_toLower (cs : List Char) :
    lower (String.ofList (cs.map Char.toLower)) = lower (String.ofList cs) := by
  rw [lower, lower, String.toList_ofList, String.toList_ofList]
  exact congrArg String.ofList (lowerFrom_map_toLower [] cs)

end EdgeResolution.Text
