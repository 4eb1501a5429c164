/-
# EdgeResolution.Proofs.Version.Spelling -- spellings of one version

Lower-casing the ASCII letters of a piece does not change what it is read as: it is the
same number or qualifier, or both are words that are alike in lower case
(`read_lowered`), and no comparison tells the two apart (`comparePlace_read_lowered`).

Separators count only as the ends of pieces: a version that is split at one has the
pieces of both parts (`pieces_separated`), and empty pieces do not count.

`Respelling` lists the changes that therefore leave a version as it is: the case of
an ASCII letter, one separator for another, a separator more or less beside another
one or at an end.  They keep `spelled`, the pieces in lower case, which decides every
comparison (`compareTokens_spelled`); `compare_respelled` says so of versions that
any number of changes lead to.
-/
import EdgeResolution.Proofs.Text.AsciiCase
import EdgeResolution.Proofs.Version.Place
import Mathlib.Logic.Relation

namespace EdgeResolution.Version

set_option autoImplicit false

/-! ## Pieces in lower case -/

/-- The piece with its ASCII letters in lower case. -/
def lowered (piece : List Char) : List Char := piece.map Char.toLower

theorem lowered_lowered (piece : List Char) : lowered (lowered piece) = lowered piece := by
  rw [lowered, lowered, List.map_map]
  exact List.map_congr_left fun c _ => Text.toLower_toLower c

theorem unsigned_lowered (piece : List Char) : unsigned (lowered piece) = lowered (unsigned piece) := by
  cases piece with
  | nil => rfl
  | cons c rest =>
      have plus : c.toLower = '+' ↔ c = '+' := Text.toLower_eq_iff (by decide)
      by_cases signed : c = '+'
      · rw [signed]
        rfl
      · have unsigned' : c.toLower ≠ '+' := fun same => signed (plus.1 same)
        simp [lowered, unsigned, signed, unsigned']

theorem all_isDigit_lowered (piece : List Char) :
    (lowered piece).all Char.isDigit = piece.all Char.isDigit := by
  rw [lowered, List.all_map]
  exact congrArg piece.all (funext Text.isDigit_toLower)

theorem lowered_of_isDigit {piece : List Char} (digits : piece.all Char.isDigit) :
    lowered piece = piece := by
  have same : ∀ d ∈ piece, d.toLower = d := by
    intro d mem
    refine Text.toLower_of_not_isCapital fun capital => ?_
    have digit : d.isDigit = true := List.all_eq_true.1 digits d mem
    rw [Text.isDigit_of_letter (Or.inl capital)] at digit
    cases digit
  exact (List.map_congr_left same).trans (List.map_id piece)

theorem readNumber?_lowered (piece : List Char) :
    readNumber? (lowered piece) = readNumber? piece := by
  have empty : lowered (unsigned piece) ≠ [] ↔ unsigned piece ≠ [] := by simp [lowered]
  simp only [readNumber?, unsigned_lowered, all_isDigit_lowered, empty]
  by_cases digits : (unsigned piece).all Char.isDigit
  · rw [lowered_of_isDigit digits]
  · rw [if_neg fun read => digits read.2.1, if_neg fun read => digits read.2.1]

theorem qualifierRead?_lowered (piece : List Char) :
    Qualifier.read? (lowered piece) = Qualifier.read? piece := by
  have again : (lowered piece).map Char.toLower = piece.map Char.toLower := lowered_lowered piece
  rw [Qualifier.read?, Qualifier.read?, again]

/-- A piece is the same token in lower case, or both are words that are alike in lower case. -/
theorem read_lowered (piece : List Char) :
    Token.read (lowered piece) = Token.read piece ∨
      ∃ v w, Token.read (lowered piece) = .word v ∧ Token.read piece = .word w ∧
        Text.lower v = Text.lower w := by
  rw [Token.read, Token.read, readNumber?_lowered, qualifierRead?_lowered]
  cases readNumber? piece with
  | some n => exact Or.inl rfl
  | none =>
      cases Qualifier.read? piece with
      | some q => exact Or.inl rfl
      | none => exact Or.inr ⟨_, _, rfl, rfl, Text.lower_map_toLower piece⟩

/-- Words that are alike in lower case compare alike with everything. -/
theorem comparePlace_word_congr {v w : String} (alike : Text.lower v = Text.lower w)
    (z : Option Token) : comparePlace (some (.word v)) z = comparePlace (some (.word w)) z := by
  cases z with
  | none => rfl
  | some z =>
      cases z with
      | number n => rfl
      | qualifier q => rfl
      | word u => rw [comparePlace, comparePlace, Token.compare, Token.compare, alike]

theorem comparePlace_read_lowered (piece : List Char) (z : Option Token) :
    comparePlace (some (Token.read (lowered piece))) z = comparePlace (some (Token.read piece)) z := by
  rcases read_lowered piece with same | ⟨v, w, small, given, alike⟩
  · rw [same]
  · rw [small, given]
    exact comparePlace_word_congr alike z

/-! ## Pieces between separators -/

theorem isSeparator_toLower (c : Char) : isSeparator c.toLower = isSeparator c := by
  have dot : c.toLower = '.' ↔ c = '.' := Text.toLower_eq_iff (by decide)
  have dash : c.toLower = '-' ↔ c = '-' := Text.toLower_eq_iff (by decide)
  rw [Bool.eq_iff_iff]
  simp [isSeparator, dot, dash]

variable {s t : Char} {xs ys cs ds : List Char}

/-- **A version splits at a separator** into the pieces before it and those after it. -/
theorem pieces_separated (separator : isSeparator s) (xs ys : List Char) :
    pieces (String.ofList (xs ++ s :: ys)) =
      pieces (String.ofList xs) ++ pieces (String.ofList ys) := by
  simp only [pieces, String.toList_ofList]
  rw [List.splitOnP_append_cons xs ys separator, List.filter_append]

theorem splitOnP_lowered (cs : List Char) :
    (lowered cs).splitOnP isSeparator = (cs.splitOnP isSeparator).map lowered := by
  induction cs with
  | nil => rfl
  | cons c rest ih =>
      have unfolded : lowered (c :: rest) = c.toLower :: lowered rest := rfl
      rw [unfolded, List.splitOnP_cons_eq_if_modifyHead, List.splitOnP_cons_eq_if_modifyHead,
        isSeparator_toLower, ih]
      split
      · rfl
      · cases rest.splitOnP isSeparator <;> rfl

theorem pieces_lowered (cs : List Char) :
    pieces (String.ofList (lowered cs)) = (pieces (String.ofList cs)).map lowered := by
  have empty : (fun piece : List Char => !piece.isEmpty) ∘ lowered = fun piece => !piece.isEmpty := by
    funext piece
    cases piece <;> rfl
  simp only [pieces, String.toList_ofList]
  rw [splitOnP_lowered, List.filter_map, empty]

/-- The pieces of a version in lower case. -/
def spelled (version : String) : List (List Char) := (pieces version).map lowered

theorem spelled_separated (separator : isSeparator s) (xs ys : List Char) :
    spelled (String.ofList (xs ++ s :: ys)) =
      spelled (String.ofList xs) ++ spelled (String.ofList ys) := by
  rw [spelled, pieces_separated separator, List.map_append, spelled, spelled]

theorem compareTokens_spelled (version : String) (zs : List Token) :
    compareTokens ((spelled version).map Token.read) zs = compareTokens (tokens version) zs := by
  rw [spelled, tokens]
  induction pieces version generalizing zs with
  | nil => rfl
  | cons piece rest ih =>
      rw [compareTokens_eq_then, compareTokens_eq_then (List.map Token.read (piece :: rest))]
      have first := comparePlace_read_lowered piece zs.head?
      exact congrArg₂ Ordering.then first (ih zs.tail)

/-! ## Changes of spelling -/

/-- One separator more, beside another one or at an end. -/
inductive Padded : List Char → List Char → Prop
  | after {s t : Char} {xs ys : List Char} (beside : isSeparator s) (separator : isSeparator t) :
      Padded (xs ++ s :: ys) (xs ++ s :: t :: ys)
  | before {s t : Char} {xs ys : List Char} (beside : isSeparator s) (separator : isSeparator t) :
      Padded (xs ++ s :: ys) (xs ++ t :: s :: ys)
  | first {t : Char} {cs : List Char} (separator : isSeparator t) : Padded cs (t :: cs)
  | last {t : Char} {cs : List Char} (separator : isSeparator t) : Padded cs (cs ++ [t])

/-- One change of spelling.  Two characters that are the same in ASCII lower case are the same or
the two cases of one ASCII letter. -/
inductive Respelling : List Char → List Char → Prop
  | letter {c d : Char} {xs ys : List Char} (sameLetter : c.toLower = d.toLower) :
      Respelling (xs ++ c :: ys) (xs ++ d :: ys)
  | exchanged {s t : Char} {xs ys : List Char} (separator : isSeparator s)
      (separator' : isSeparator t) : Respelling (xs ++ s :: ys) (xs ++ t :: ys)
  | inserted {cs ds : List Char} (padded : Padded cs ds) : Respelling cs ds
  | dropped {cs ds : List Char} (padded : Padded cs ds) : Respelling ds cs

/-- Some number of changes of spelling lead from one version to the other. -/
def Respelled (a b : String) : Prop := Relation.ReflTransGen Respelling a.toList b.toList

theorem Padded.spelled_eq (padded : Padded cs ds) :
    spelled (String.ofList cs) = spelled (String.ofList ds) := by
  have none : spelled (String.ofList []) = [] := rfl
  cases padded with
  | @after s t xs ys beside separator =>
      have apart := spelled_separated separator [] ys
      rw [spelled_separated beside, spelled_separated beside, ← List.nil_append (t :: ys), apart,
        none, List.nil_append]
  | @before s t xs ys beside separator =>
      have apart := spelled_separated beside [] ys
      rw [spelled_separated beside, spelled_separated separator, ← List.nil_append (s :: ys), apart,
        none, List.nil_append]
  | @first t cs separator =>
      rw [← List.nil_append (t :: cs), spelled_separated separator, none, List.nil_append]
  | @last t cs separator => rw [spelled_separated separator, none, List.append_nil]

theorem Respelling.spelled_eq (respelling : Respelling cs ds) :
    spelled (String.ofList cs) = spelled (String.ofList ds) := by
  cases respelling with
  | @letter c d xs ys sameLetter =>
      have same : lowered (xs ++ c :: ys) = lowered (xs ++ d :: ys) := by
        simp [lowered, sameLetter]
      rw [spelled, spelled, ← pieces_lowered, ← pieces_lowered, same]
  | exchanged separator separator' =>
      rw [spelled_separated separator, spelled_separated separator']
  | inserted padded => exact padded.spelled_eq
  | dropped padded => exact padded.spelled_eq.symm

theorem Respelled.spelled_eq {a b : String} (respelled : Respelled a b) : spelled a = spelled b := by
  have kept : ∀ {cs ds}, Relation.ReflTransGen Respelling cs ds →
      spelled (String.ofList cs) = spelled (String.ofList ds) := by
    intro cs ds changes
    induction changes with
    | refl => rfl
    | tail _ last ih => exact ih.trans last.spelled_eq
  have same := kept respelled
  rwa [String.ofList_toList, String.ofList_toList] at same

/-- **The spelling of a version does not matter** in any comparison, on either side. -/
theorem compare_respelled {a a' : String} (respelled : Respelled a a') (c : String) :
    compare a' c = compare a c ∧ compare c a' = compare c a := by
  have left : compare a' c = compare a c := by
    rw [compare, compare, ← compareTokens_spelled, ← compareTokens_spelled a, respelled.spelled_eq]
  refine ⟨left, ?_⟩
  rw [compare, compare, ← compareTokens_swap, ← compareTokens_swap (tokens a)]
  exact congrArg Ordering.swap left

/-- A sigma that ends a word is told by the letter before it, small or capital. -/
theorem compare_respelled_sigma :
    Respelled "2-kΣ.RC." "-2.KΣ--rC" ∧ compare "-2.KΣ--rC" "2.kς-cr" = .eq ∧
      compare "2.kς-cr" "-2.KΣ--rC" = compare "2.kς-cr" "2-kΣ.RC." := by
  have respelled : Respelled "2-kΣ.RC." "-2.KΣ--rC" := by
    calc Relation.ReflTransGen Respelling ['2', '-', 'k', 'Σ', '.', 'R', 'C', '.']
          ['2', '-', 'k', 'Σ', '.', 'R', 'C'] := .single (.dropped (.last rfl))
      Relation.ReflTransGen Respelling _ ['2', '-', 'K', 'Σ', '.', 'R', 'C'] :=
        .single (@Respelling.letter 'k' 'K' ['2', '-'] ['Σ', '.', 'R', 'C'] rfl)
      Relation.ReflTransGen Respelling _ ['2', '-', 'K', 'Σ', '.', 'r', 'C'] :=
        .single (@Respelling.letter 'R' 'r' ['2', '-', 'K', 'Σ', '.'] ['C'] rfl)
      Relation.ReflTransGen Respelling _ ['2', '.', 'K', 'Σ', '.', 'r', 'C'] :=
        .single (@Respelling.exchanged '-' '.' ['2'] ['K', 'Σ', '.', 'r', 'C'] rfl rfl)
      Relation.ReflTransGen Respelling _ ['2', '.', 'K', 'Σ', '-', 'r', 'C'] :=
        .single (@Respelling.exchanged '.' '-' ['2', '.', 'K', 'Σ'] ['r', 'C'] rfl rfl)
      Relation.ReflTransGen Respelling _ ['2', '.', 'K', 'Σ', '-', '-', 'r', 'C'] :=
        .single (.inserted (@Padded.after '-' '-' ['2', '.', 'K', 'Σ'] ['r', 'C'] rfl rfl))
      Relation.ReflTransGen Respelling _ ['-', '2', '.', 'K', 'Σ', '-', '-', 'r', 'C'] :=
        .single (.inserted (.first rfl))
  have equal : compare "2-kΣ.RC." "2.kς-cr" = .eq := by decide +kernel
  obtain ⟨left, right⟩ := compare_respelled respelled "2.kς-cr"
  exact ⟨respelled, left.trans equal, right⟩

end EdgeResolution.Version
