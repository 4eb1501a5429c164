/-
# EdgeResolution.Proofs.Version.Notation -- reading a range and writing it

`Range.Notated` says which ranges have a text: no version of an end is empty or has
blanks around it, and the lower one has no comma.  A `Layout` is what such a text
leaves open, the blanks around the whole and around each end, and the brackets where
an end is absent; `Range.text` writes the range.

* `read?_text`: a range that has a notation is read from each of its texts;
* `notated_of_read?`: what is read has a notation;
* `read?_eq_none_iff`: a text is no range when it is not in brackets, or has nothing
  but blanks in them;
* `cut?_bracketed`: the brackets are one byte each, so that cutting off the first byte
  and the last one leaves what stands between them, whatever characters that has.

`range_texts_round_trip` puts them together.
-/
import EdgeResolution.Version.Range
import EdgeResolution.Proofs.Text.Pieces

namespace EdgeResolution

set_option autoImplicit false

/-! ## Blanks around a text -/

namespace Text

/-- Characters that are all blank. -/
structure Blanks where
  chars : List Char
  blank : ∀ c ∈ chars, isBlank c

/-- The text with blanks before it and after it. -/
def padded (before after : Blanks) (cs : List Char) : List Char := before.chars ++ cs ++ after.chars

variable {cs : List Char}

theorem trimLeft_blanks_append (blanks : Blanks) (cs : List Char) :
    trimLeft (blanks.chars ++ cs) = trimLeft cs :=
  List.dropWhile_append_of_pos blanks.blank

theorem trimRight_append_blanks (cs : List Char) (blanks : Blanks) :
    trimRight (cs ++ blanks.chars) = trimRight cs := by
  have reversed : ∀ c ∈ blanks.chars.reverse, isBlank c :=
    fun c mem => blanks.blank c (List.mem_reverse.1 mem)
  rw [trimRight, List.reverse_append, List.dropWhile_append_of_pos reversed, trimRight]

/-- Trimming takes away the blanks that were put around a text, and no more. -/
theorem trimChars_padded (trimmed : Trimmed cs) (before after : Blanks) :
    trimChars (padded before after cs) = cs := by
  rw [padded, List.append_assoc, trimChars, trimLeft_blanks_append]
  cases cs with
  | nil =>
      have gone : trimLeft after.chars = [] := List.dropWhile_eq_nil_iff.2 after.blank
      rw [List.nil_append, gone]
      rfl
  | cons c rest =>
      have first : trimLeft (c :: rest ++ after.chars) = c :: rest ++ after.chars :=
        trimLeft_eq_self_iff.2 fun d head => trimmed.first d head
      rw [first, trimRight_append_blanks]
      exact trimRight_eq_self_iff.2 trimmed.last

theorem mem_of_mem_trimChars {c : Char} (mem : c ∈ trimChars cs) : c ∈ cs := by
  have begins : trimChars cs <+: trimLeft cs := trimRight_prefix (trimLeft cs)
  exact (List.dropWhile_sublist isBlank).subset (begins.subset mem)

/-! ## Cutting by bytes -/

/-- What fills the bytes of a text from `start` up to `stop`; there is no such thing unless both
are edges of characters, in this order. -/
def cut? (text : String) (start stop : Nat) : Option String :=
  if edges : String.Pos.Raw.IsValid text ⟨start⟩ ∧ String.Pos.Raw.IsValid text ⟨stop⟩ then
    (text.slice? (text.pos ⟨start⟩ edges.1) (text.pos ⟨stop⟩ edges.2)).map (·.copy)
  else none

theorem cut?_middle (left middle right : String) :
    cut? (left ++ middle ++ right) left.utf8ByteSize (left ++ middle).utf8ByteSize =
      some middle := by
  have start : String.Pos.Raw.IsValid (left ++ middle ++ right) ⟨left.utf8ByteSize⟩ :=
    String.Pos.Raw.isValid_iff_exists_append.2
      ⟨left, middle ++ right, String.append_assoc, rfl⟩
  have stop : String.Pos.Raw.IsValid (left ++ middle ++ right) ⟨(left ++ middle).utf8ByteSize⟩ :=
    String.Pos.Raw.isValid_iff_exists_append.2 ⟨left ++ middle, right, rfl, rfl⟩
  have order : (left ++ middle ++ right).pos ⟨left.utf8ByteSize⟩ start ≤
      (left ++ middle ++ right).pos ⟨(left ++ middle).utf8ByteSize⟩ stop := by
    simp [String.Pos.le_iff]
  rw [cut?, dif_pos ⟨start, stop⟩, String.slice?, dif_pos order, Option.map_some]
  refine congrArg some (String.toByteArray_inj.1 ?_)
  rw [String.toByteArray_copy_slice]
  -- `right` has no part in these bytes
  have cut : (left.toByteArray ++ middle.toByteArray).extract left.utf8ByteSize
      (left.utf8ByteSize + middle.utf8ByteSize) = middle.toByteArray :=
    ByteArray.extract_append_eq_right rfl rfl
  simpa [ByteArray.extract_append] using cut

end Text

namespace Version

open Text (Blanks Trimmed padded trimChars isBlank cut?)

/-! ## Ranges that have a notation -/

/-- The version of the end is some text without blanks around it. -/
structure Bound.Notated (b : Bound) : Prop where
  filled : b.version ≠ ""
  trimmed : Trimmed b.version.toList

namespace Range

/-- The first comma of the notation separates the ends. -/
structure Notated (r : Range) : Prop where
  lower : ∀ b ∈ r.lower, b.Notated ∧ ',' ∉ b.version.toList
  upper : ∀ b ∈ r.upper, b.Notated

/-- What the notation of a range leaves open: the brackets where there is no end, and blanks. -/
structure Layout where
  opensSquare : Bool
  closesSquare : Bool
  before : Blanks
  after : Blanks
  beforeLower : Blanks
  afterLower : Blanks
  beforeUpper : Blanks
  afterUpper : Blanks

def openingBracket (inclusive : Bool) : Char := if inclusive then '[' else '('

def closingBracket (inclusive : Bool) : Char := if inclusive then ']' else ')'

/-- The version of an end; nothing for an end that is absent. -/
def written (b : Option Bound) : List Char := (b.map (·.version.toList)).getD []

/-- Does the bracket at this end include it?  It does as the layout says at an absent end. -/
def includes (b : Option Bound) (otherwise : Bool) : Bool := (b.map (·.inclusive)).getD otherwise

/-- What stands between the brackets. -/
def inner (r : Range) (layout : Layout) : List Char :=
  padded layout.beforeLower layout.afterLower (written r.lower) ++
    ',' :: padded layout.beforeUpper layout.afterUpper (written r.upper)

/-- The range in brackets, a square one where the end is included. -/
def text (r : Range) (layout : Layout) : String :=
  String.ofList (padded layout.before layout.after
    (openingBracket (includes r.lower layout.opensSquare) ::
      (r.inner layout ++ [closingBracket (includes r.upper layout.closesSquare)])))

variable {spec : String} {r : Range} {cs before after inside : List Char} {i j : Bool}

/-! ## The first comma -/

theorem splitComma_append (plain : ',' ∉ before) (after : List Char) :
    splitComma (before ++ ',' :: after) = some (before, after) := by
  have passed : ∀ c ∈ before, (c != ',') = true := by
    intro c mem
    have other : c ≠ ',' := ne_of_mem_of_not_mem mem plain
    simpa using other
  rw [splitComma, List.dropWhile_append_of_pos passed, List.takeWhile_append_of_pos passed]
  simp

theorem splitComma_eq_some_iff :
    splitComma cs = some (before, after) ↔ ',' ∉ before ∧ cs = before ++ ',' :: after := by
  constructor
  · intro split
    unfold splitComma at split
    cases rest : cs.dropWhile (· != ',') with
    | nil => simp [rest] at split
    | cons c more =>
        simp only [rest, Option.some.injEq, Prod.mk.injEq] at split
        obtain ⟨rfl, rfl⟩ := split
        have comma : c = ',' := by
          have stopped := List.head_dropWhile_not (· != ',') (l := cs) (by simp [rest])
          simpa [rest] using stopped
        have whole : cs.takeWhile (· != ',') ++ cs.dropWhile (· != ',') = cs :=
          List.takeWhile_append_dropWhile
        rw [rest, comma] at whole
        refine ⟨fun mem => ?_, whole.symm⟩
        simpa using List.mem_takeWhile_imp mem
  · rintro ⟨plain, rfl⟩
    exact splitComma_append plain after

theorem splitComma_eq_none_iff : splitComma cs = none ↔ ',' ∉ cs := by
  constructor
  · intro none mem
    obtain ⟨before, after, rfl, plain⟩ := List.eq_append_cons_of_mem mem
    rw [splitComma_append plain] at none
    cases none
  · intro plain
    cases split : splitComma cs with
    | none => rfl
    | some parts =>
        obtain ⟨-, rfl⟩ := splitComma_eq_some_iff.1 split
        exact absurd (List.mem_append_right _ List.mem_cons_self) plain

/-! ## Ends -/

theorem comma_not_mem_blanks (blanks : Blanks) : ',' ∉ blanks.chars :=
  fun mem => absurd (blanks.blank ',' mem) (by decide)

theorem trimmed_written {b : Option Bound} (notated : ∀ x ∈ b, x.Notated) :
    Trimmed (written b) := by
  cases b with
  | none => exact ⟨nofun, nofun⟩
  | some b => exact (notated b rfl).trimmed

/-- An end is read from its version, whatever blanks are around that. -/
theorem read?_written {b : Option Bound} (notated : ∀ x ∈ b, x.Notated) (otherwise : Bool)
    (before after : Blanks) :
    Bound.read? (padded before after (written b)) (includes b otherwise) = b := by
  rw [Bound.read?, Text.trimChars_padded (trimmed_written notated)]
  cases b with
  | none => rfl
  | some b =>
      have filled : b.version.toList ≠ [] := by simpa using (notated b rfl).filled
      obtain ⟨c, rest, chars⟩ := List.exists_cons_of_ne_nil filled
      have kept : written (some b) = c :: rest := chars
      rw [kept]
      show some (⟨String.ofList (c :: rest), b.inclusive⟩ : Bound) = some b
      rw [← chars, String.ofList_toList]

theorem notated_of_boundRead? {b : Bound} (read : Bound.read? cs i = some b) :
    b.Notated ∧ ∀ c ∈ b.version.toList, c ∈ cs := by
  unfold Bound.read? at read
  split at read
  · cases read
  · next filled =>
      cases read
      refine ⟨⟨?_, ?_⟩, ?_⟩
      · simpa using filled
      · rw [String.toList_ofList]
        exact Text.trimmed_trimChars cs
      · intro c mem
        rw [String.toList_ofList] at mem
        exact Text.mem_of_mem_trimChars mem

theorem boundRead?_eq_none_iff : Bound.read? cs i = none ↔ trimChars cs = [] := by
  unfold Bound.read?
  split <;> simp_all

/-! ## Brackets -/

/-- The text starts with an opening bracket. -/
def Opens (cs : List Char) : Prop := cs.head? = some '[' ∨ cs.head? = some '('

/-- The text ends with a closing bracket. -/
def Closes (cs : List Char) : Prop := cs.getLast? = some ']' ∨ cs.getLast? = some ')'

/-- The text without its first character and its last one. -/
def between (cs : List Char) : List Char := cs.tail.dropLast

theorem between_bracketed (i j : Bool) (inside : List Char) :
    between (openingBracket i :: (inside ++ [closingBracket j])) = inside := by
  simp [between]

theorem getLast?_bracketed (i j : Bool) (inside : List Char) :
    (openingBracket i :: (inside ++ [closingBracket j])).getLast? = some (closingBracket j) := by
  rw [← List.cons_append, List.getLast?_concat]

theorem opens_and_closes_iff :
    Opens cs ∧ Closes cs ↔
      ∃ i inside j, cs = openingBracket i :: (inside ++ [closingBracket j]) := by
  constructor
  · rintro ⟨opens, closes⟩
    obtain ⟨i, first⟩ : ∃ i, cs.head? = some (openingBracket i) :=
      opens.elim (fun square => ⟨true, square⟩) fun round => ⟨false, round⟩
    obtain ⟨j, last⟩ : ∃ j, cs.getLast? = some (closingBracket j) :=
      closes.elim (fun square => ⟨true, square⟩) fun round => ⟨false, round⟩
    obtain ⟨rest, rfl⟩ := List.head?_eq_some_iff.1 first
    cases rest using List.reverseRecOn with
    | nil =>
        -- no character is both an opening and a closing bracket
        have same : openingBracket i = closingBracket j := by simpa using last
        cases i <;> cases j <;> exact absurd same (by decide)
    | append_singleton inside c =>
        rw [← List.cons_append, List.getLast?_concat, Option.some.injEq] at last
        exact ⟨i, inside, j, by rw [last]⟩
  · rintro ⟨i, inside, j, rfl⟩
    rw [Opens, Closes, getLast?_bracketed, List.head?_cons]
    cases i <;> cases j <;> decide

theorem opening?_eq_some_iff {c : Char} : opening? c = some i ↔ c = openingBracket i := by
  constructor
  · intro opening
    unfold opening? at opening
    split at opening <;> cases opening <;> rfl
  · rintro rfl
    cases i <;> rfl

theorem closing?_eq_some_iff {c : Char} : closing? c = some j ↔ c = closingBracket j := by
  constructor
  · intro closing
    unfold closing? at closing
    split at closing <;> cases closing <;> rfl
  · rintro rfl
    cases j <;> rfl

theorem read?_of_bracketed
    (bracketed : trimChars spec.toList = openingBracket i :: (inside ++ [closingBracket j])) :
    read? spec = ofInner? inside i j := by
  have opening : opening? (openingBracket i) = some i := opening?_eq_some_iff.2 rfl
  have closing : closing? (closingBracket j) = some j := closing?_eq_some_iff.2 rfl
  simp [read?, bracketed, opening, closing]

theorem read?_eq_some_iff :
    read? spec = some r ↔ ∃ i inside j,
      trimChars spec.toList = openingBracket i :: (inside ++ [closingBracket j]) ∧
        ofInner? inside i j = some r := by
  constructor
  · intro read
    unfold read? at read
    split at read
    · cases read
    · next first rest trimmed =>
        simp only [Option.bind_eq_bind, Option.bind_eq_some_iff] at read
        obtain ⟨i, opening, last, final, j, closing, found⟩ := read
        obtain ⟨inside, rfl⟩ := List.getLast?_eq_some_iff.1 final
        obtain rfl := opening?_eq_some_iff.1 opening
        obtain rfl := closing?_eq_some_iff.1 closing
        rw [List.dropLast_concat] at found
        exact ⟨i, inside, j, trimmed, found⟩
  · rintro ⟨i, inside, j, bracketed, found⟩
    rw [read?_of_bracketed bracketed, found]

/-! ## There and back -/

theorem ofInner?_eq_none_iff :
    ofInner? inside i j = none ↔ ',' ∉ inside ∧ trimChars inside = [] := by
  rw [← splitComma_eq_none_iff]
  unfold ofInner?
  cases split : splitComma inside with
  | some parts => simp
  | none => simp [boundRead?_eq_none_iff]

theorem notated_of_ofInner? (found : ofInner? inside i j = some r) : r.Notated := by
  unfold ofInner? at found
  cases split : splitComma inside with
  | some parts =>
      obtain ⟨before, after⟩ := parts
      obtain ⟨plain, rfl⟩ := splitComma_eq_some_iff.1 split
      rw [split] at found
      cases found
      refine ⟨fun b lower => ?_, fun b upper => (notated_of_boundRead? upper).1⟩
      obtain ⟨notated, kept⟩ := notated_of_boundRead? lower
      exact ⟨notated, fun comma => plain (kept ',' comma)⟩
  | none =>
      have plain : ',' ∉ inside := splitComma_eq_none_iff.1 split
      rw [split] at found
      obtain ⟨b, read, rfl⟩ := Option.map_eq_some_iff.1 found
      obtain ⟨notated, kept⟩ := notated_of_boundRead? read
      refine ⟨?_, ?_⟩
      · rintro b ⟨⟩
        exact ⟨notated, fun comma => plain (kept ',' comma)⟩
      · rintro b ⟨⟩
        exact notated

theorem notated_of_read? (read : read? spec = some r) : r.Notated := by
  obtain ⟨i, inside, j, -, found⟩ := read?_eq_some_iff.1 read
  exact notated_of_ofInner? found

theorem comma_not_mem_lower (notated : r.Notated) (before after : Blanks) :
    ',' ∉ padded before after (written r.lower) := by
  have plain : ',' ∉ written r.lower := by
    cases known : r.lower with
    | none => exact List.not_mem_nil
    | some b => exact (notated.lower b known).2
  simp [padded, plain, comma_not_mem_blanks]

theorem ofInner?_inner (notated : r.Notated) (layout : Layout) :
    ofInner? (r.inner layout) (includes r.lower layout.opensSquare)
      (includes r.upper layout.closesSquare) = some r := by
  have split : splitComma (r.inner layout) = _ :=
    splitComma_append (comma_not_mem_lower notated layout.beforeLower layout.afterLower) _
  rw [ofInner?, split]
  refine congrArg some ?_
  have lower := read?_written (fun b mem => (notated.lower b mem).1) layout.opensSquare
    layout.beforeLower layout.afterLower
  have upper := read?_written notated.upper layout.closesSquare layout.beforeUpper
    layout.afterUpper
  rw [lower, upper]

theorem trimmed_bracketed (i j : Bool) (inside : List Char) :
    Trimmed (openingBracket i :: (inside ++ [closingBracket j])) where
  first := by
    rintro c ⟨⟩
    cases i <;> decide
  last := by
    rw [getLast?_bracketed]
    rintro c ⟨⟩
    cases j <;> decide

/-- A range that has a notation is read from each of its texts. -/
theorem read?_text (notated : r.Notated) (layout : Layout) : read? (r.text layout) = some r := by
  have bracketed : trimChars (r.text layout).toList =
      openingBracket (includes r.lower layout.opensSquare) ::
        (r.inner layout ++ [closingBracket (includes r.upper layout.closesSquare)]) := by
    rw [text, String.toList_ofList]
    exact Text.trimChars_padded (trimmed_bracketed _ _ _) layout.before layout.after
  rw [read?_of_bracketed bracketed, ofInner?_inner notated]

theorem read?_eq_none_iff :
    read? spec = none ↔
      ¬(Opens (trimChars spec.toList) ∧ Closes (trimChars spec.toList)) ∨
        (',' ∉ between (trimChars spec.toList) ∧ trimChars (between (trimChars spec.toList)) = []) := by
  by_cases brackets : Opens (trimChars spec.toList) ∧ Closes (trimChars spec.toList)
  · obtain ⟨i, inside, j, bracketed⟩ := opens_and_closes_iff.1 brackets
    rw [read?_of_bracketed bracketed, ofInner?_eq_none_iff, bracketed, between_bracketed, ← bracketed]
    simp [brackets]
  · refine iff_of_true ?_ (Or.inl brackets)
    cases read : read? spec with
    | none => rfl
    | some r =>
        obtain ⟨i, inside, j, bracketed, -⟩ := read?_eq_some_iff.1 read
        exact absurd (opens_and_closes_iff.2 ⟨i, inside, j, bracketed⟩) brackets

/-- The brackets of a text are its first byte and its last one. -/
theorem cut?_bracketed {cs : List Char} (opens : Opens cs) (closes : Closes cs) :
    cut? (String.ofList cs) 1 ((String.ofList cs).utf8ByteSize - 1) =
      some (String.ofList (between cs)) := by
  obtain ⟨i, inside, j, rfl⟩ := opens_and_closes_iff.1 ⟨opens, closes⟩
  have left : (String.singleton (openingBracket i)).utf8ByteSize = 1 := by cases i <;> rfl
  have right : (String.singleton (closingBracket j)).utf8ByteSize = 1 := by cases j <;> rfl
  have whole : String.ofList (openingBracket i :: (inside ++ [closingBracket j])) =
      String.singleton (openingBracket i) ++ String.ofList inside ++
        String.singleton (closingBracket j) := by
    apply String.toList_injective
    simp
  have stop : (String.singleton (openingBracket i) ++ String.ofList inside ++
        String.singleton (closingBracket j)).utf8ByteSize - 1 =
      (String.singleton (openingBracket i) ++ String.ofList inside).utf8ByteSize := by
    rw [String.utf8ByteSize_append, right, Nat.add_sub_cancel]
  have cut := Text.cut?_middle (String.singleton (openingBracket i)) (String.ofList inside)
    (String.singleton (closingBracket j))
  rw [left] at cut
  rw [whole, stop, cut, between_bracketed]

/-- **Reading a range inverts writing it**, and exactly the texts in brackets that have more than
blanks in them are read.  Where there are brackets, they are cut off at edges of characters. -/
theorem range_texts_round_trip :
    (∀ (r : Range), r.Notated → ∀ layout, read? (r.text layout) = some r) ∧
    (∀ spec r, read? spec = some r → r.Notated) ∧
    (∀ spec layout, ((read? spec).bind fun r => read? (r.text layout)) = read? spec) ∧
    (∀ spec, read? spec = none ↔
      ¬(Opens (trimChars spec.toList) ∧ Closes (trimChars spec.toList)) ∨
        (',' ∉ between (trimChars spec.toList) ∧
          trimChars (between (trimChars spec.toList)) = [])) ∧
    (∀ spec, Opens (trimChars spec.toList) → Closes (trimChars spec.toList) →
      cut? (Text.trim spec) 1 ((Text.trim spec).utf8ByteSize - 1) =
        some (String.ofList (between (trimChars spec.toList)))) := by
  refine ⟨?_, ?_, ?_, ?_, ?_⟩
  · intro r notated layout
    exact read?_text notated layout
  · intro spec r read
    exact notated_of_read? read
  · intro spec layout
    cases read : read? spec with
    | none => rfl
    | some r =>
        rw [Option.bind_some]
        exact read?_text (notated_of_read? read) layout
  · intro spec
    exact read?_eq_none_iff
  · intro spec opens closes
    exact cut?_bracketed opens closes

namespace Example

/-- Brackets and a comma in the versions, and characters of more than one byte. -/
def bracketed : Range := ⟨some ⟨"(1]é", true⟩, some ⟨"2,[0)", false⟩⟩

def noBlank : Blanks := ⟨[], nofun⟩

def wideBlank : Blanks := ⟨['\u3000', ' '], List.all_eq_true.1 (by decide)⟩

def spread : Layout := ⟨true, true, wideBlank, noBlank, noBlank, wideBlank, wideBlank, noBlank⟩

end Example

open Example in
theorem range_texts_round_trip_bracketed :
    read? "\t[ (1]é ,2,[0))" = some bracketed ∧ bracketed.Notated ∧
      bracketed.text spread = "\u3000 [(1]é\u3000 ,\u3000 2,[0))" ∧
      read? "\u3000 [(1]é\u3000 ,\u3000 2,[0))" = some bracketed ∧
      cut? (Text.trim "\t[ (1]é ,2,[0))") 1 14 = some " (1]é ,2,[0)" := by
  obtain ⟨written, sound, -, -, cut⟩ := range_texts_round_trip
  have read : read? "\t[ (1]é ,2,[0))" = some bracketed := by decide
  have text : bracketed.text spread = "\u3000 [(1]é\u3000 ,\u3000 2,[0))" := by decide
  have notated := sound _ _ read
  have opens : Opens (trimChars "\t[ (1]é ,2,[0))".toList) := Or.inl (by decide)
  have closes : Closes (trimChars "\t[ (1]é ,2,[0))".toList) := Or.inr (by decide)
  have size : (Text.trim "\t[ (1]é ,2,[0))").utf8ByteSize - 1 = 14 := by decide
  have inside : String.ofList (between (trimChars "\t[ (1]é ,2,[0))".toList)) = " (1]é ,2,[0)" := by
    decide
  refine ⟨read, notated, text, text ▸ written bracketed notated spread, ?_⟩
  rw [← size, ← inside]
  exact cut _ opens closes

end Range
end Version
end EdgeResolution
