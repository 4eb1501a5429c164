/-
# EdgeResolution.Proofs.Version.Precedence -- what comes after a common beginning

Two versions that begin alike, up to a separator, compare as what follows it
(`compare_append_separator`).  The piece that follows `p` marks a version of `p`, and
`Mark.ladder` is the order of these marks: the qualifiers before a release, then the
words that are no qualifiers, then the release and the service pack, in any spelling.

* Of two pieces that carry marks, the one lower on the ladder makes the earlier
  version, whatever follows it (`compare_marked_lt`).
* Against `p` alone a mark decides by its place relative to the release
  (`compareAbsent_of_carriedBy`): a release is `p`, what is below it comes before `p`, and
  a service pack after `p`.

Both come from the grade of a token (`Token.grade`), which is the place of its mark
(`grade_of_carriedBy`).
-/
import EdgeResolution.Proofs.Version.Spelling
import EdgeResolution.Proofs.Version.Standing

namespace EdgeResolution.Version

set_option autoImplicit false

variable {sep : Char} {p v w x y : String}

/-! ## A common beginning -/

theorem compareTokens_append_left (ps xs ys : List Token) :
    compareTokens (ps ++ xs) (ps ++ ys) = compareTokens xs ys := by
  induction ps with
  | nil => rfl
  | cons p ps ih =>
      show (p.compare p).then (compareTokens (ps ++ xs) (ps ++ ys)) = _
      rw [Token.compare_self, ih]
      rfl

/-- What a longer version has more is compared with nothing. -/
theorem compareTokens_append_self (ps xs : List Token) :
    compareTokens (ps ++ xs) ps = compareTokens xs [] := by
  have ended := compareTokens_append_left ps xs []
  rwa [List.append_nil] at ended

theorem pieces_append_separator (separator : isSeparator sep) (p x : String) :
    pieces (p ++ String.singleton sep ++ x) = pieces p ++ pieces x := by
  have shape : p ++ String.singleton sep ++ x = String.ofList (p.toList ++ sep :: x.toList) := by
    apply String.toList_injective
    simp
  rw [shape, pieces_separated separator, String.ofList_toList, String.ofList_toList]

theorem tokens_append_separator (separator : isSeparator sep) (p x : String) :
    tokens (p ++ String.singleton sep ++ x) = tokens p ++ tokens x := by
  rw [tokens, pieces_append_separator separator, List.map_append, tokens, tokens]

theorem tokens_append_dot (p x : String) : tokens (p ++ "." ++ x) = tokens p ++ tokens x := by
  have dot : "." = String.singleton '.' := rfl
  rw [dot, tokens_append_separator rfl]

theorem tokens_append_dash (p x : String) : tokens (p ++ "-" ++ x) = tokens p ++ tokens x := by
  have dash : "-" = String.singleton '-' := rfl
  rw [dash, tokens_append_separator rfl]

theorem compare_append_separator (separator : isSeparator sep) (p x y : String) :
    compare (p ++ String.singleton sep ++ x) (p ++ String.singleton sep ++ y) = compare x y := by
  rw [compare, tokens_append_separator separator, tokens_append_separator separator,
    compareTokens_append_left, compare]

/-- The version `p`, marked by a piece, and then more. -/
def marked (p piece rest : String) : String := p ++ "-" ++ piece ++ "." ++ rest

/-- Some text without separators. -/
structure IsPiece (v : String) : Prop where
  filled : v ≠ ""
  whole : ∀ c ∈ v.toList, isSeparator c = false

theorem IsPiece.tokens_eq (piece : IsPiece v) : tokens v = [Token.read v.toList] := by
  have filled : v.toList.isEmpty = false := by simpa using piece.filled
  rw [tokens, pieces, List.splitOnP_eq_singleton piece.whole]
  simp [filled]

theorem tokens_marked (piece : IsPiece v) (p rest : String) :
    tokens (marked p v rest) = tokens p ++ Token.read v.toList :: tokens rest := by
  rw [marked, tokens_append_dot, tokens_append_dash, piece.tokens_eq, List.append_assoc]
  rfl

/-- Marked versions of `p` compare as their marks, and if these are equal as what follows. -/
theorem compare_marked (piece : IsPiece v) (piece' : IsPiece w) (p s t : String) :
    compare (marked p v s) (marked p w t) =
      ((Token.read v.toList).compare (Token.read w.toList)).then (compare s t) := by
  rw [compare, tokens_marked piece, tokens_marked piece', compareTokens_append_left]
  rfl

theorem compare_marked_self (piece : IsPiece v) (p s : String) :
    compare (marked p v s) p =
      (Token.read v.toList).compareAbsent.then (compareRest (tokens s)) := by
  rw [compare, tokens_marked piece, compareTokens_append_self]
  rfl

/-! ## Marks -/

/-- The text spells the qualifier, whatever the case of its ASCII letters. -/
def Spells (v : String) (q : Qualifier) : Prop := String.ofList (lowered v.toList) ∈ q.spellings

instance (v : String) (q : Qualifier) : Decidable (Spells v q) :=
  inferInstanceAs (Decidable (_ ∈ q.spellings))

/-- A piece that is neither a number of at most 64 bits nor a qualifier. -/
structure Unknown (v : String) : Prop extends IsPiece v where
  noNumber : readNumber? v.toList = none
  noQualifier : ∀ q, ¬Spells v q

theorem readNumber?_of_spells {q : Qualifier} (spells : Spells v q) :
    readNumber? v.toList = none := by
  have lettered : ∀ q ∈ Qualifier.all, ∀ s ∈ q.spellings, readNumber? s.toList = none := by decide
  have known := lettered q q.mem_all _ spells
  rwa [String.toList_ofList, readNumber?_lowered] at known

theorem qualifierRead?_of_spells {q : Qualifier} (spells : Spells v q) :
    Qualifier.read? v.toList = some q := by
  cases found : Qualifier.read? v.toList with
  | none =>
      rw [Qualifier.read?, List.find?_eq_none] at found
      exact absurd (List.contains_iff_mem.2 spells) (found q q.mem_all)
  | some q' =>
      -- no text is a spelling of two qualifiers
      have apart : ∀ q ∈ Qualifier.all, ∀ q' ∈ Qualifier.all,
          (∃ s ∈ q.spellings, s ∈ q'.spellings) → q' = q := by decide
      rw [apart q q.mem_all q' q'.mem_all ⟨_, spells, spelling_mem_of_read? found⟩]

theorem isPiece_of_spells {q : Qualifier} (spells : Spells v q) : IsPiece v := by
  have shape : ∀ q ∈ Qualifier.all, ∀ s ∈ q.spellings,
      s.toList ≠ [] ∧ s.toList.all (!isSeparator ·) := by decide
  obtain ⟨filled, whole⟩ := shape q q.mem_all _ spells
  rw [String.toList_ofList] at filled whole
  refine ⟨?_, fun c mem => ?_⟩
  · rintro rfl
    exact filled rfl
  · have kept := List.all_eq_true.1 whole c.toLower (List.mem_map_of_mem mem)
    simpa [isSeparator_toLower] using kept

/-- What a piece can say of the version that it follows. -/
inductive Mark where
  | qualifier (q : Qualifier)
  | word
  deriving DecidableEq

namespace Mark

/-- The marks in ascending order. -/
def ladder : List Mark :=
  [.qualifier .alpha, .qualifier .beta, .qualifier .milestone, .qualifier .candidate,
    .qualifier .snapshot, .word, .qualifier .release, .qualifier .servicePack]

/-- The piece carries the mark. -/
def CarriedBy (v : String) : Mark → Prop
  | .qualifier q => Spells v q
  | .word => Unknown v

variable {m m' : Mark}

theorem isPiece_of_carriedBy (carried : m.CarriedBy v) : IsPiece v := by
  cases m with
  | qualifier q => exact isPiece_of_spells carried
  | word => exact carried.toIsPiece

theorem read_of_spells {q : Qualifier} (spells : Spells v q) :
    Token.read v.toList = .qualifier q := by
  rw [Token.read, readNumber?_of_spells spells, qualifierRead?_of_spells spells]

theorem read_of_unknown (unknown : Unknown v) : Token.read v.toList = .word v := by
  have noQualifier : Qualifier.read? v.toList = none := by
    refine List.find?_eq_none.2 fun q _ spelled => ?_
    exact unknown.noQualifier q (List.contains_iff_mem.1 spelled)
  rw [Token.read, unknown.noNumber, noQualifier, String.ofList_toList]

/-- The grade of a token that carries a mark is the place of the mark on the ladder. -/
theorem grade_of_carriedBy (carried : m.CarriedBy v) :
    (Token.read v.toList).grade = ladder.idxOf m := by
  cases m with
  | qualifier q =>
      rw [read_of_spells carried]
      cases q <;> rfl
  | word =>
      rw [read_of_unknown carried]
      rfl

/-- Against nothing a mark stands as against the release. -/
theorem compareAbsent_of_carriedBy (carried : m.CarriedBy v) :
    (Token.read v.toList).compareAbsent =
      Ord.compare (ladder.idxOf m) (ladder.idxOf (.qualifier .release)) := by
  cases m with
  | qualifier q =>
      rw [read_of_spells carried]
      cases q <;> rfl
  | word =>
      rw [read_of_unknown carried]
      rfl

theorem idxOf_lt_of_sublist (below : [m, m'].Sublist ladder) :
    ladder.idxOf m < ladder.idxOf m' := by
  have each : ∀ k ∈ ladder, ∀ k' ∈ ladder,
      [k, k'].Sublist ladder → ladder.idxOf k < ladder.idxOf k' := by decide
  exact each m (below.subset (by simp)) m' (below.subset (by simp)) below

theorem compare_marked_lt (below : [m, m'].Sublist ladder) (carried : m.CarriedBy v)
    (carried' : m'.CarriedBy w) (p s t : String) :
    compare (marked p v s) (marked p w t) = .lt := by
  have lower : (Token.read v.toList).grade < (Token.read w.toList).grade := by
    rw [grade_of_carriedBy carried, grade_of_carriedBy carried']
    exact idxOf_lt_of_sublist below
  rw [compare_marked (isPiece_of_carriedBy carried) (isPiece_of_carriedBy carried'),
    Token.compare_eq, Nat.compare_eq_lt.2 lower]
  rfl

theorem compare_marked_self_lt (below : [m, .qualifier .release].Sublist ladder)
    (carried : m.CarriedBy v) (p s : String) : compare (marked p v s) p = .lt := by
  rw [compare_marked_self (isPiece_of_carriedBy carried), compareAbsent_of_carriedBy carried,
    Nat.compare_eq_lt.2 (idxOf_lt_of_sublist below)]
  rfl

end Mark

theorem compare_servicePack (spells : Spells v .servicePack) (p s : String) :
    compare p (marked p v s) = .lt := by
  have carried : (Mark.qualifier .servicePack).CarriedBy v := spells
  rw [compare, ← compareTokens_swap, ← compare,
    compare_marked_self (Mark.isPiece_of_carriedBy carried),
    Mark.compareAbsent_of_carriedBy carried]
  rfl

/-- A release is the version that it follows. -/
theorem compare_release (spells : Spells v .release) (p : String) :
    compare (p ++ "-" ++ v) p = .eq := by
  rw [compare, tokens_append_dash, (isPiece_of_spells spells).tokens_eq,
    compareTokens_append_self, Mark.read_of_spells spells]
  rfl

/-- **A common beginning does not count, and what marks a version decides by the ladder of marks.**
Below the release stand the qualifiers before it and the words, above it the service pack. -/
theorem compare_after_common_beginning (p : String) :
    (∀ x y, compare (p ++ "." ++ x) (p ++ "." ++ y) = compare x y ∧
      compare (p ++ "-" ++ x) (p ++ "-" ++ y) = compare x y) ∧
    (∀ (m m' : Mark) v w s t, [m, m'].Sublist Mark.ladder → m.CarriedBy v → m'.CarriedBy w →
      compare (marked p v s) (marked p w t) = .lt) ∧
    (∀ (m : Mark) v s, [m, .qualifier .release].Sublist Mark.ladder → m.CarriedBy v →
      compare (marked p v s) p = .lt) ∧
    (∀ v, Spells v .release → compare (p ++ "-" ++ v) p = .eq) ∧
    (∀ v s, Spells v .servicePack → compare p (marked p v s) = .lt) := by
  refine ⟨fun x y => ⟨?_, ?_⟩, ?_, ?_, ?_, ?_⟩
  · exact compare_append_separator (by decide : isSeparator '.') p x y
  · exact compare_append_separator (by decide : isSeparator '-') p x y
  · intro m m' v w s t below carried carried'
    exact Mark.compare_marked_lt below carried carried' p s t
  · intro m v s below carried
    exact Mark.compare_marked_self_lt below carried p s
  · intro v spells
    exact compare_release spells p
  · intro v s spells
    exact compare_servicePack spells p s

/-- A number of more than 64 bits is a word, above each snapshot and below the release. -/
theorem compare_after_common_beginning_overlong :
    compare (marked "2-" "SnapShot" "9") (marked "2-" "18446744073709551616" "-1") = .lt ∧
      compare (marked "2-" "18446744073709551616" "-1") (marked "2-" "Final" "") = .lt ∧
      compare (marked "2-" "18446744073709551616" "-1") "2-" = .lt ∧
      compare ("2-" ++ "-" ++ "Final") "2-" = .eq ∧ compare "2-" (marked "2-" "sP" "a") = .lt := by
  have snapshot : Spells "SnapShot" .snapshot := by decide
  have final : Spells "Final" .release := by decide
  have servicePack : Spells "sP" .servicePack := by decide
  have unknown : Unknown "18446744073709551616" := by
    have whole : "18446744073709551616".toList.all (!isSeparator ·) := by decide
    refine ⟨⟨by decide, by simpa using whole⟩, by decide, fun q => ?_⟩
    cases q <;> decide
  obtain ⟨-, ordered, early, equal, late⟩ := compare_after_common_beginning "2-"
  exact ⟨ordered (.qualifier .snapshot) .word _ _ _ _ (by decide) snapshot unknown,
    ordered .word (.qualifier .release) _ _ _ _ (by decide) unknown final,
    early .word _ _ (by decide) unknown, equal _ final, late _ _ servicePack⟩

end EdgeResolution.Version
