/-
# EdgeResolution.Proofs.Text.Pieces -- what trimming and splitting leave of a text

A text is `Trimmed` when no blank stands at either end.  Trimming gives such a text
(`trimmed_trimChars`) and leaves one as it is (`trimChars_eq_self_iff`), so doing it
twice does no more than doing it once.

The pieces of a split hold no separator (`not_mem_of_mem_splitOn`), and a joined text holds
what its parts hold and what is put between them (`mem_intercalate_iff`).
-/
import EdgeResolution.Text.Blank
import Mathlib.Data.List.DropRight

namespace EdgeResolution.Text

set_option autoImplicit false

/-- No blank stands at either end. -/
structure Trimmed (cs : List Char) : Prop where
  first : ∀ c, cs.head? = some c → isBlank c = false
  last : ∀ c, cs.getLast? = some c → isBlank c = false

variable {cs : List Char}

/-! ## Trimming -/

theorem trimLeft_eq_self_iff :
    trimLeft cs = cs ↔ ∀ c, cs.head? = some c → isBlank c = false := by
  cases cs with
  | nil => simp [trimLeft]
  | cons c rest => simp [trimLeft, List.dropWhile_eq_self_iff]

theorem trimRight_eq_self_iff :
    trimRight cs = cs ↔ ∀ c, cs.getLast? = some c → isBlank c = false := by
  rw [← List.head?_reverse, ← trimLeft_eq_self_iff, trimRight, trimLeft, List.reverse_eq_iff]

theorem trimRight_prefix (cs : List Char) : trimRight cs <+: cs :=
  List.rdropWhile_prefix isBlank cs

theorem trimmed_trimChars (cs : List Char) : Trimmed (trimChars cs) where
  first := by
    intro c first
    have kept : (trimLeft cs).head? = some c := by
      obtain ⟨rest, split⟩ := trimRight_prefix (trimLeft cs)
      rw [← split, List.head?_append, ← trimChars, first, Option.some_or]
    have done : trimLeft (trimLeft cs) = trimLeft cs := List.dropWhile_idempotent isBlank cs
    exact trimLeft_eq_self_iff.1 done c kept
  last := by
    have done : trimRight (trimChars cs) = trimChars cs :=
      List.rdropWhile_idempotent isBlank (trimLeft cs)
    exact trimRight_eq_self_iff.1 done

theorem trimChars_of_trimmed (trimmed : Trimmed cs) : trimChars cs = cs := by
  rw [trimChars, trimLeft_eq_self_iff.2 trimmed.first, trimRight_eq_self_iff.2 trimmed.last]

theorem trimChars_eq_self_iff : trimChars cs = cs ↔ Trimmed cs :=
  ⟨fun same => same ▸ trimmed_trimChars cs, trimChars_of_trimmed⟩

/-- Texts put together have the first end of one and the last end of the other. -/
theorem trimmed_append {left right : List Char} (someLeft : left ≠ []) (someRight : right ≠ [])
    (first : ∀ c, left.head? = some c → isBlank c = false)
    (last : ∀ c, right.getLast? = some c → isBlank c = false) : Trimmed (left ++ right) where
  first := by
    rw [List.head?_append_of_ne_nil left someLeft]
    exact first
  last := by
    rw [List.getLast?_append_of_ne_nil left someRight]
    exact last

/-- Blanks at the end are those after the last visible character. -/
theorem trimRight_append_cons {c : Char} (visible : isBlank c = false) (xs ys : List Char) :
    trimRight (xs ++ c :: ys) = xs ++ c :: trimRight ys := by
  have turned : (xs ++ c :: ys).reverse = ys.reverse ++ c :: xs.reverse := by simp
  rw [trimRight, turned, List.dropWhile_append, trimRight]
  split
  · next gone => simp [List.isEmpty_iff.1 gone, visible]
  · simp

theorem trimRight_eq_nil_iff : trimRight cs = [] ↔ ∀ c ∈ cs, isBlank c :=
  List.rdropWhile_eq_nil_iff

/-! ## Splitting and joining -/

/-- What a joined text holds is in one of its parts, or in the text between two of them. -/
theorem mem_intercalate_iff {c : Char} {between : List Char} {parts : List (List Char)} :
    c ∈ between.intercalate parts ↔
      (∃ part ∈ parts, c ∈ part) ∨ (c ∈ between ∧ 1 < parts.length) := by
  induction parts with
  | nil => simp
  | cons part rest ih =>
      cases rest with
      | nil => simp
      | cons next rest =>
          rw [List.intercalate_cons_cons, List.mem_append, List.mem_append, ih]
          simp only [List.mem_cons, List.length_cons, exists_eq_or_imp]
          by_cases inside : c ∈ between <;> simp [inside, or_assoc]

/-- No piece of a split holds the separator. -/
theorem not_mem_of_mem_splitOn {separator : Char} {piece : List Char}
    (mem : piece ∈ cs.splitOn separator) : separator ∉ piece := by
  induction cs generalizing piece with
  | nil =>
      rw [List.splitOn_nil, List.mem_singleton] at mem
      rw [mem]
      exact List.not_mem_nil
  | cons c rest ih =>
      rw [List.splitOn_cons_eq_if_modifyHead] at mem
      split at mem
      · rcases List.mem_cons.1 mem with rfl | later
        · exact List.not_mem_nil
        · exact ih later
      · next other =>
          -- `c` goes in front of the first piece of what follows
          obtain ⟨first, more, pieces⟩ :=
            List.exists_cons_of_ne_nil (List.splitOn_ne_nil separator rest)
          rw [pieces, List.modifyHead_cons, List.mem_cons] at mem
          rcases mem with rfl | later
          · have notInFirst : separator ∉ first := ih (by simp [pieces])
            have notHere : separator ≠ c := fun same => other (by simp [same])
            exact List.not_mem_cons_of_ne_of_not_mem notHere notInFirst
          · exact ih (by simp [pieces, later])

end EdgeResolution.Text
