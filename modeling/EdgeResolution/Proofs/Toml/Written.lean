/-
# EdgeResolution.Proofs.Toml.Written -- data written as a document, and read back

`Toml.document` writes the fields of a record, an assignment a line.  Keys and texts
are quoted, with the code points of the characters that may not stand for themselves
between double quotes; lists are arrays and records are tables in braces.  Any data
that is `Plain` can be written so: texts, booleans, lists and records, nested less
deep than a reader goes.

* `basicText_quotation`: a quotation is read as the text, whatever stands after it;
* `separated_commas`: items with commas between them are read one by one;
* `value_written`: so a value is read back, by induction on what makes it plain;
* `foldlM_adding`: keys that are given once each make the table that was written.

`read?_document` is the round trip for whole documents.
-/
import EdgeResolution.Proofs.Toml.Keys

namespace EdgeResolution.Toml

set_option autoImplicit false

open Reader

variable {α β : Type} {r : Reader α} {cs rest stop : List Char} {c : Char} {depth : Nat} {d : Datum}

/-! ## Writing -/

/-- A character as it stands between double quotes: itself, or its code point, which is then
below 128. -/
def escaped (c : Char) : List Char :=
  if basicChars.holds c then [c]
  else ['\\', 'u', '0', '0', Nat.digitChar (c.toNat / 16), Nat.digitChar (c.toNat % 16)]

def quotation (s : String) : List Char := '"' :: (s.toList.flatMap escaped ++ ['"'])

/-- Texts with commas between them. -/
def commas : List (List Char) → List Char
  | [] => []
  | first :: more => first ++ more.flatMap fun item => ',' :: item

mutual

/-- The value as it is written; nothing for a value that is not plain. -/
def written : Datum → List Char
  | .text s => quotation s
  | .boolean true => ['t', 'r', 'u', 'e']
  | .boolean false => ['f', 'a', 'l', 's', 'e']
  | .list items => '[' :: (commas (writtenItems items) ++ [']'])
  | .record fields => '\x7b' :: (commas (writtenFields fields) ++ ['\x7d'])
  | .null | .number _ => []

def writtenItems : List Datum → List (List Char)
  | [] => []
  | d :: rest => written d :: writtenItems rest

def writtenFields : List (String × Datum) → List (List Char)
  | [] => []
  | (name, d) :: rest => (quotation name ++ '=' :: written d) :: writtenFields rest

end

def writtenField (f : String × Datum) : List Char := quotation f.1 ++ '=' :: written f.2

def document (fields : List (String × Datum)) : List Char :=
  fields.flatMap fun f => writtenField f ++ ['\n']

/-- Texts, booleans, lists and records with distinct names, so many of the last two inside one
another. -/
inductive Plain : Nat → Datum → Prop
  | text {depth : Nat} (s : String) : Plain depth (.text s)
  | boolean {depth : Nat} (b : Bool) : Plain depth (.boolean b)
  | list {depth : Nat} {items : List Datum} (each : ∀ d ∈ items, Plain depth d) :
      Plain (depth + 1) (.list items)
  | record {depth : Nat} {fields : List (String × Datum)} (names : (fields.map (·.1)).Nodup)
      (each : ∀ f ∈ fields, Plain depth f.2) : Plain (depth + 1) (.record fields)

theorem writtenItems_eq_map (items : List Datum) : writtenItems items = items.map written := by
  induction items with
  | nil => rw [writtenItems]; rfl
  | cons d rest ih => rw [writtenItems, ih]; rfl

theorem writtenFields_eq_map (fields : List (String × Datum)) :
    writtenFields fields = fields.map writtenField := by
  induction fields with
  | nil => rw [writtenFields]; rfl
  | cons f rest ih => rw [writtenFields, ih]; rfl

/-! ## Quotations -/

/-- All characters that do not stand for themselves are among the first 128. -/
theorem toNat_lt_of_not_basic (fails : basicChars.holds c = false) : c.toNat < 128 := by
  have valid : c.toNat < 0xd800 ∨ 0xdfff < c.toNat ∧ c.toNat < 0x110000 := c.valid
  simp only [basicChars, Text.CharClass.holds, List.any_cons, List.any_nil, Bool.or_false,
    Bool.or_eq_false_iff, Bool.and_eq_false_iff, decide_eq_false_iff_not] at fails
  omega

theorem scalar?_toNat (c : Char) : scalar? c.toNat = some c := by
  have valid : c.toNat.isValidChar := c.valid
  rw [scalar?, dif_pos valid]
  rfl

theorem valueIn_digits : ∀ n < 128, isHexDigit (Nat.digitChar (n / 16)) = true ∧
    isHexDigit (Nat.digitChar (n % 16)) = true ∧
    valueIn 16 ['0', '0', Nat.digitChar (n / 16), Nat.digitChar (n % 16)] = n := by
  decide

theorem codePoint_digits (small : c.toNat < 128) (rest : List Char) :
    codePoint 4
        (['0', '0', Nat.digitChar (c.toNat / 16), Nat.digitChar (c.toNat % 16)] ++ rest) =
      some (c, rest) := by
  obtain ⟨high, low, number⟩ := valueIn_digits c.toNat small
  have hex : ∀ digit ∈ ['0', '0', Nat.digitChar (c.toNat / 16), Nat.digitChar (c.toNat % 16)],
      isHexDigit digit = true := by
    simp only [List.forall_mem_cons]
    exact ⟨by decide, by decide, high, low, by simp⟩
  have taken : (List.replicate 4 (one isHexDigit)).mapM id _ = _ := mapM_one rfl hex rest
  rw [codePoint, bind_of_some taken, number, scalar?_toNat]
  rfl

/-- Whatever character it is, it is read as itself. -/
theorem one_or_escape_escaped (c : Char) (rest : List Char) :
    (one basicChars.holds <|> escape) (escaped c ++ rest) = some (c, rest) := by
  rw [escaped]
  by_cases plain : basicChars.holds c = true
  · rw [if_pos plain]
    exact orElse_of_some (one_cons plain)
  · have fails : basicChars.holds c = false := by simpa using plain
    have backslash : one basicChars.holds ('\\' :: 'u' ::
        (['0', '0', Nat.digitChar (c.toNat / 16), Nat.digitChar (c.toNat % 16)] ++ rest)) = none :=
      one_cons_of_not (by decide)
    rw [if_neg plain]
    exact (orElse_of_none backslash).trans (codePoint_digits (toNat_lt_of_not_basic fails) rest)

/-- No quote is left as it is. -/
theorem exists_escaped_eq_cons (c : Char) :
    ∃ first more, escaped c = first :: more ∧ first ≠ '"' := by
  rw [escaped]
  split
  · next plain =>
      refine ⟨c, [], rfl, ?_⟩
      rintro rfl
      exact absurd plain (by decide)
  · exact ⟨'\\', _, rfl, by decide⟩

theorem basicText_quotation (s : String) (rest : List Char) :
    basicText (quotation s ++ rest) = some (s.toList, rest) := by
  have content : many (one basicChars.holds <|> escape)
      (s.toList.flatMap escaped ++ '"' :: rest) = some (s.toList.map id, '"' :: rest) := by
    refine many_flatMap (fun _ => True) (fun c _ rest _ => one_or_escape_escaped c rest)
      (fun c _ => ?_) (fun _ _ _ => trivial) trivial ?_
    · obtain ⟨first, more, same, -⟩ := exists_escaped_eq_cons c
      simp [same]
    · exact (orElse_of_none (one_cons_of_not (by decide))).trans
        (bind_of_none (char_of_head?_ne (by simp)))
  rw [List.map_id] at content
  have opened : quotation s ++ rest = '"' :: (s.toList.flatMap escaped ++ '"' :: rest) := by
    simp [quotation]
  rw [opened, basicText, bind_of_some (char_cons _ _), bind_of_some content,
    bind_of_some (char_cons _ _)]
  rfl

/-- A quotation without content is not mistaken for three quotes, unless one stands after it. -/
theorem quoted_quotation (s : String) (apart : rest.head? ≠ some '"') :
    quoted (quotation s ++ rest) = some (s, rest) := by
  have opened : quotation s ++ rest = '"' :: (s.toList.flatMap escaped ++ '"' :: rest) := by
    simp [quotation]
  have notThree : ∀ more, s.toList.flatMap escaped ++ '"' :: rest ≠ '"' :: '"' :: more := by
    intro more same
    cases content : s.toList with
    | nil =>
        rw [content] at same
        obtain rfl : rest = '"' :: more := by simpa using same
        exact apart rfl
    | cons c others =>
        obtain ⟨first, others, spelled, notQuote⟩ := exists_escaped_eq_cons c
        rw [content, List.flatMap_cons, spelled] at same
        exact notQuote (List.head_eq_of_cons_eq same)
  have onOneLine : quoted (quotation s ++ rest) =
      (String.ofList <$> basicText) (quotation s ++ rest) := by
    rw [opened, quoted]
    exact notThree
  rw [onOneLine, map_of_some (basicText_quotation s rest), String.ofList_toList]

/-! ## Keys -/

theorem spaces_of_head (solid : isSpace c = false) : spaces (c :: rest) = some ((), c :: rest) := by
  show some ((), (c :: rest).dropWhile isSpace) = _
  rw [List.dropWhile_cons_of_neg (by simp [solid])]

theorem keyPart_quotation (name : String) (rest : List Char) :
    keyPart (quotation name ++ rest) = some (name, rest) := by
  have opened : keyPart (quotation name ++ rest) =
      (String.ofList <$> basicText) (quotation name ++ rest) := rfl
  rw [opened, map_of_some (basicText_quotation name rest), String.ofList_toList]

theorem key_quotation (name : String) (rest : List Char) :
    key (quotation name ++ '=' :: rest) = some ([name], '=' :: rest) := by
  have part : (do spaces; let part ← keyPart; spaces; return part : Reader String)
      (quotation name ++ '=' :: rest) = some (name, '=' :: rest) := by
    have before : spaces (quotation name ++ '=' :: rest) =
        some ((), quotation name ++ '=' :: rest) := spaces_of_head (by decide)
    rw [bind_of_some before, bind_of_some (keyPart_quotation name _),
      bind_of_some (spaces_of_head (by decide))]
    rfl
  have noMore : (do char '.'; spaces; let part ← keyPart; spaces; return part : Reader String)
      ('=' :: rest) = none := bind_of_none (char_of_head?_ne (by simp))
  have parts : separated (char '.') (do spaces; let part ← keyPart; spaces; return part)
      (quotation name ++ '=' :: rest) = some ([name], '=' :: rest) := by
    rw [separated, bind_of_some part, bind_of_some (many_of_none noMore)]
    rfl
  rw [key, bind_of_some parts]
  rfl

theorem assignment_writtenField {item : Reader Datum} {f : String × Datum}
    (solid : ∃ c more, written f.2 = c :: more ∧ isSpace c = false)
    (takes : item (written f.2 ++ rest) = some (f.2, rest)) :
    assignment item (writtenField f ++ rest) = some (([f.1], f.2), rest) := by
  obtain ⟨c, more, spelled, notSpace⟩ := solid
  have opened : writtenField f ++ rest = quotation f.1 ++ '=' :: (written f.2 ++ rest) := by
    simp [writtenField]
  have before : spaces (written f.2 ++ rest) = some ((), written f.2 ++ rest) := by
    rw [spelled]
    exact spaces_of_head notSpace
  rw [opened, assignment, bind_of_some (key_quotation f.1 _), bind_of_some (char_cons _ _),
    bind_of_some before, bind_of_some takes]
  rfl

/-! ## Items with commas between them -/

/-- What stands after an item: a comma, or the bracket that closes. -/
def Closing (cs : List Char) : Prop := ∃ c rest, cs = c :: rest ∧ c ∈ [',', ']', '\x7d']

theorem Closing.head?_ne (closing : Closing cs) : cs.head? ≠ some '"' := by
  obtain ⟨c, rest, rfl, mem⟩ := closing
  intro same
  cases Option.some.inj same
  exact absurd mem (by decide)

theorem Closing.spaces (closing : Closing cs) : spaces cs = some ((), cs) := by
  obtain ⟨c, rest, rfl, mem⟩ := closing
  have solid : ∀ c ∈ [',', ']', '\x7d'], isSpace c = false := by simp [isSpace]
  exact spaces_of_head (solid c mem)

/-- The characters that a filler begins with. -/
def beginsFiller (c : Char) : Bool := isSpace c || c == '\n' || c == '\r' || c == '#'

theorem fillers_of_head (solid : beginsFiller c = false) :
    fillers (c :: rest) = some ((), c :: rest) := by
  simp only [beginsFiller, Bool.or_eq_false_iff, beq_eq_false_iff_ne] at solid
  obtain ⟨⟨⟨notSpace, notLine⟩, notReturn⟩, notHash⟩ := solid
  have noSpace : discard (one isSpace) (c :: rest) = none :=
    discard_of_none (one_cons_of_not notSpace)
  have noLine : newline (c :: rest) = none := by
    refine (orElse_of_none (char_of_head?_ne (by simpa using notLine))).trans (if_neg ?_)
    simp [Ne.symm notReturn]
  have noComment : comment (c :: rest) = none :=
    bind_of_none (char_of_head?_ne (by simpa using notHash))
  have stops : (discard (one isSpace) <|> newline <|> comment) (c :: rest) = none := by
    rw [orElse_of_none noSpace, orElse_of_none noLine, noComment]
  exact discard_of_some (many_of_none stops)

theorem Closing.fillers (closing : Closing cs) : fillers cs = some ((), cs) := by
  obtain ⟨c, rest, rfl, mem⟩ := closing
  have solid : ∀ c ∈ [',', ']', '\x7d'], beginsFiller c = false := by
    simp [beginsFiller, isSpace]
  exact fillers_of_head (solid c mem)

theorem separated_commas {item : β → α} {write : β → List Char} {first : β} {more : List β}
    (takes : ∀ b ∈ first :: more, ∀ rest, Closing rest → r (write b ++ rest) = some (item b, rest))
    (closing : Closing stop) (noComma : stop.head? ≠ some ',') :
    separated (char ',') r (commas ((first :: more).map write) ++ stop) =
      some ((first :: more).map item, stop) := by
  obtain ⟨takesFirst, takesMore⟩ := List.forall_mem_cons.1 takes
  have spelled : commas ((first :: more).map write) ++ stop =
      write first ++ (more.flatMap (fun b => ',' :: write b) ++ stop) := by
    simp [commas, List.flatMap_map]
  have next : Closing (more.flatMap (fun b => ',' :: write b) ++ stop) := by
    cases more with
    | nil => exact closing
    | cons b others => exact ⟨',', _, rfl, by simp⟩
  have others : many (do char ','; r) (more.flatMap (fun b => ',' :: write b) ++ stop) =
      some (more.map item, stop) := by
    refine many_flatMap Closing (fun b mem rest closing => ?_) (by simp) (fun b _ rest => ?_)
      closing (bind_of_none (char_of_head?_ne noComma))
    · exact (bind_of_some (char_cons _ _)).trans (takesMore b mem rest closing)
    · exact ⟨',', _, rfl, by simp⟩
  rw [spelled, separated, bind_of_some (takesFirst _ next), bind_of_some others]
  rfl

/-! ## Values -/

/-- A plain value begins with none of the characters that may stand before it, and is not the end
of what it stands in. -/
theorem Plain.exists_written_eq_cons (plain : Plain depth d) :
    ∃ c more, written d = c :: more ∧ beginsFiller c = false := by
  cases plain with
  | text s => exact ⟨'"', _, by rw [written, quotation], by decide⟩
  | boolean b =>
      cases b
      · exact ⟨'f', _, by rw [written], by decide⟩
      · exact ⟨'t', _, by rw [written], by decide⟩
  | list => exact ⟨'[', _, by rw [written], by decide⟩
  | record => exact ⟨'\x7b', _, by rw [written], by decide⟩

theorem isSpace_of_beginsFiller (solid : beginsFiller c = false) : isSpace c = false := by
  simp only [beginsFiller, Bool.or_eq_false_iff] at solid
  exact solid.1.1.1

/-- Items that are read back one by one are read back as an array. -/
theorem array_written {item : Reader Datum} {items : List Datum}
    (solid : ∀ d ∈ items, ∃ c more, written d = c :: more ∧ beginsFiller c = false)
    (takes : ∀ d ∈ items, ∀ rest, Closing rest → item (written d ++ rest) = some (d, rest))
    (stops : ∀ rest, item (']' :: rest) = none) (rest : List Char) :
    array item ('[' :: (commas (items.map written) ++ ']' :: rest)) = some (.list items, rest) := by
  have closing : Closing (']' :: rest) := ⟨']', rest, rfl, by simp⟩
  rw [array, bind_of_some (char_cons _ _)]
  cases items with
  | nil =>
      have nothing : separated (char ',') (do fillers; let v ← item; fillers; return v)
          (commas ([].map written) ++ ']' :: rest) = none :=
        bind_of_none ((bind_of_some closing.fillers).trans (bind_of_none (stops rest)))
      rw [bind_of_some (optional_of_none nothing)]
      exact (bind_of_some closing.fillers).trans (bind_of_some (char_cons _ _))
  | cons first more =>
      have padded : ∀ d ∈ first :: more, ∀ rest, Closing rest →
          (do fillers; let v ← item; fillers; return v : Reader Datum) (written d ++ rest) =
            some (d, rest) := by
        intro d mem rest closing
        obtain ⟨c, others, spelled, notFiller⟩ := solid d mem
        have before : fillers (written d ++ rest) = some ((), written d ++ rest) := by
          rw [spelled]
          exact fillers_of_head notFiller
        rw [bind_of_some before, bind_of_some (takes d mem rest closing),
          bind_of_some closing.fillers]
        rfl
      have items : separated (char ',') (do fillers; let v ← item; fillers; return v)
          (commas ((first :: more).map written) ++ ']' :: rest) =
          some ((first :: more).map fun d => d, ']' :: rest) :=
        separated_commas padded closing (by simp)
      rw [List.map_id'] at items
      rw [bind_of_some (optional_of_some items)]
      have noComma : skip (char ',') (']' :: rest) = some (false, ']' :: rest) :=
        skip_of_none (char_of_head?_ne (by simp))
      exact (bind_of_some (discard_of_some noComma)).trans
        ((bind_of_some closing.fillers).trans (bind_of_some (char_cons _ _)))

/-! ## Tables -/

/-- The fields of a table that holds these values. -/
def nodes (fields : List (String × Datum)) : Fields := fields.map fun f => (f.1, .value f.2)

theorem data_nodes (fields : List (String × Datum)) : Fields.data (nodes fields) = fields := by
  have same : (fun f : String × Datum => (f.1, (Node.value f.2).datum)) = id := by
    funext f
    rw [Node.datum]
    rfl
  rw [Fields.data_eq_map, nodes, List.map_map]
  exact (congrArg (List.map · fields) same).trans (List.map_id fields)

theorem assign?_nodes (done : List (String × Datum)) (f : String × Datum)
    (fresh : f.1 ∉ done.map (·.1)) :
    (nodes done).assign? [f.1] f.2 .byHeader = some (nodes (done ++ [f])) := by
  have absent : Fields.get? f.1 (nodes done) = none := by
    refine NameMap.Entries.get?_eq_none fun e mem same => fresh ?_
    obtain ⟨g, inDone, rfl⟩ := List.mem_map.1 mem
    exact List.mem_map.2 ⟨g, inDone, same⟩
  have added : (nodes done).assign? [f.1] f.2 .byHeader =
      if (Fields.get? f.1 (nodes done)).isSome then none
      else some ((nodes done).add f.1 (.value f.2)) := rfl
  rw [added, absent, Fields.add, nodes, nodes, List.map_append]
  rfl

/-- Keys that are given once each are added one after the other. -/
theorem foldlM_adding {σ ε : Type} {step : σ → ε → Option σ} {entry : String × Datum → ε}
    (state : List (String × Datum) → σ)
    (adds : ∀ done f, f.1 ∉ done.map (·.1) →
      step (state done) (entry f) = some (state (done ++ [f])))
    (done : List (String × Datum)) {fields : List (String × Datum)}
    (names : ((done ++ fields).map (·.1)).Nodup) :
    (fields.map entry).foldlM step (state done) = some (state (done ++ fields)) := by
  induction fields generalizing done with
  | nil => rw [List.append_nil]; rfl
  | cons f rest ih =>
      have fresh : f.1 ∉ done.map (·.1) := by
        rw [List.map_append, List.map_cons, List.nodup_middle] at names
        exact fun mem => (List.nodup_cons.1 names).1 (List.mem_append_left _ mem)
      rw [List.append_cons] at names
      rw [List.map_cons, List.foldlM_cons, adds done f fresh, List.append_cons done f rest]
      exact ih (done ++ [f]) names

theorem bracedTable_written {item : Reader Datum} {fields : List (String × Datum)}
    (names : (fields.map (·.1)).Nodup)
    (takes : ∀ f ∈ fields, ∀ rest, Closing rest →
      assignment item (writtenField f ++ rest) = some (([f.1], f.2), rest)) (rest : List Char) :
    bracedTable item ('\x7b' :: (commas (fields.map writtenField) ++ '\x7d' :: rest)) =
      some (.record fields, rest) := by
  have closing : Closing ('\x7d' :: rest) := ⟨'\x7d', rest, rfl, by simp⟩
  have made : (fields.map fun f => ([f.1], f.2)).foldlM
      (fun (fields : Fields) e => fields.assign? e.1 e.2 .byHeader) [] = some (nodes fields) :=
    foldlM_adding nodes assign?_nodes [] names
  have finished : (Datum.record (Fields.data (nodes fields)), rest) = (.record fields, rest) := by
    rw [data_nodes]
  rw [bracedTable, bind_of_some (char_cons _ _), ← finished]
  cases fields with
  | nil =>
      have nothing : separated (char ',') (do let e ← assignment item; spaces; return e)
          (commas ([].map writtenField) ++ '\x7d' :: rest) = none := rfl
      rw [bind_of_some (optional_of_none nothing)]
      exact (bind_of_some closing.spaces).trans (bind_of_some (char_cons _ _))
  | cons first more =>
      have spaced : ∀ f ∈ first :: more, ∀ rest, Closing rest →
          (do let e ← assignment item; spaces; return e : Reader (List String × Datum))
            (writtenField f ++ rest) = some (([f.1], f.2), rest) := by
        intro f mem rest closing
        rw [bind_of_some (takes f mem rest closing), bind_of_some closing.spaces]
        rfl
      have entries : separated (char ',') (do let e ← assignment item; spaces; return e)
          (commas ((first :: more).map writtenField) ++ '\x7d' :: rest) =
          some ((first :: more).map fun f => ([f.1], f.2), '\x7d' :: rest) :=
        separated_commas spaced closing (by simp)
      rw [bind_of_some (optional_of_some entries)]
      refine (bind_of_some closing.spaces).trans ((bind_of_some (char_cons _ _)).trans ?_)
      rw [Option.getD_some, made]
      rfl

/-! ## All plain values -/

theorem value_bracket (rest : List Char) : value depth (']' :: rest) = none := by
  cases depth <;> rfl

theorem value_quotation (s : String) (rest : List Char) :
    value depth (quotation s ++ rest) = (Datum.text <$> quoted) (quotation s ++ rest) := by
  cases depth <;> rfl

theorem value_boolean (b : Bool) (rest : List Char) :
    value depth (written (.boolean b) ++ rest) = some (.boolean b, rest) := by
  cases b <;> cases depth <;> rfl

theorem value_array (rest : List Char) :
    value (depth + 1) ('[' :: rest) = array (value depth) ('[' :: rest) := rfl

theorem value_bracedTable (rest : List Char) :
    value (depth + 1) ('\x7b' :: rest) = bracedTable (value depth) ('\x7b' :: rest) := rfl

theorem value_written (plain : Plain depth d) :
    ∀ rest : List Char, rest.head? ≠ some '"' →
      value depth (written d ++ rest) = some (d, rest) := by
  induction plain with
  | text s =>
      intro rest apart
      rw [written, value_quotation, map_of_some (quoted_quotation s apart)]
  | boolean b => exact fun rest _ => value_boolean b rest
  | @list depth items plain each =>
      intro rest _
      have solid : ∀ d ∈ items, ∃ c more, written d = c :: more ∧ beginsFiller c = false :=
        fun d mem => (plain d mem).exists_written_eq_cons
      have takes : ∀ d ∈ items, ∀ rest, Closing rest →
          value depth (written d ++ rest) = some (d, rest) :=
        fun d mem rest closing => each d mem rest closing.head?_ne
      have spelled : written (.list items) ++ rest =
          '[' :: (commas (items.map written) ++ ']' :: rest) := by
        rw [written, writtenItems_eq_map]
        simp
      rw [spelled, value_array]
      exact array_written solid takes value_bracket rest
  | @record depth fields names plain each =>
      intro rest _
      have takes : ∀ f ∈ fields, ∀ rest, Closing rest →
          assignment (value depth) (writtenField f ++ rest) = some (([f.1], f.2), rest) := by
        intro f mem rest closing
        obtain ⟨c, more, spelled, solid⟩ := (plain f mem).exists_written_eq_cons
        exact assignment_writtenField ⟨c, more, spelled, isSpace_of_beginsFiller solid⟩
          (each f mem rest closing.head?_ne)
      have spelled : written (.record fields) ++ rest =
          '\x7b' :: (commas (fields.map writtenField) ++ '\x7d' :: rest) := by
        rw [written, writtenFields_eq_map]
        simp
      rw [spelled, value_bracedTable]
      exact bracedTable_written names takes rest

/-! ## Documents -/

theorem line_writtenField {f : String × Datum} (plain : Plain (nestingLimit - 1) f.2)
    (rest : List Char) :
    line ((writtenField f ++ ['\n']) ++ rest) = some (some (.assign [f.1] f.2), rest) := by
  obtain ⟨c, more, spelled, solid⟩ := plain.exists_written_eq_cons
  have assigned : assignment (value (nestingLimit - 1)) (writtenField f ++ '\n' :: rest) =
      some (([f.1], f.2), '\n' :: rest) :=
    assignment_writtenField ⟨c, more, spelled, isSpace_of_beginsFiller solid⟩
      (value_written plain _ (by simp))
  have ended : trailing ('\n' :: rest) = some ((), rest) := rfl
  have whole : assignLine (writtenField f ++ '\n' :: rest) = some (.assign [f.1] f.2, rest) := by
    rw [assignLine, bind_of_some assigned]
    exact bind_of_some ended
  have opened : line (writtenField f ++ '\n' :: rest) =
      (some <$> assignLine) (writtenField f ++ '\n' :: rest) := rfl
  rw [List.append_assoc, List.singleton_append, opened, map_of_some whole]

/-- What stands before a line: nothing more, or the quote that the line begins with. -/
def AtLine (cs : List Char) : Prop := cs = [] ∨ ∃ rest, cs = '"' :: rest

theorem AtLine.spaces (here : AtLine cs) : spaces cs = some ((), cs) := by
  rcases here with rfl | ⟨rest, rfl⟩
  · rfl
  · exact spaces_of_head (by decide)

theorem atLine_document (fields : List (String × Datum)) : AtLine (document fields) := by
  cases fields with
  | nil => exact .inl rfl
  | cons f rest => exact .inr ⟨_, rfl⟩

theorem statements_document {fields : List (String × Datum)}
    (plain : ∀ f ∈ fields, Plain (nestingLimit - 1) f.2) :
    statements (document fields) = some (fields.map fun f => .assign [f.1] f.2, []) := by
  have unmarked : (document fields).head? ≠ some '\ufeff' := by
    rcases atLine_document fields with same | ⟨rest, same⟩ <;> simp [same]
  have lines : many (do let s ← line; spaces; return s) (document fields ++ []) =
      some (fields.map fun f => some (.assign [f.1] f.2), []) := by
    refine many_flatMap AtLine (fun f mem rest here => ?_) (by simp) (fun f _ rest => .inr ⟨_, rfl⟩)
      (.inl rfl) rfl
    rw [bind_of_some (line_writtenField (plain f mem) rest), bind_of_some here.spaces]
    rfl
  rw [List.append_nil] at lines
  rw [statements, bind_of_some (discard_of_some (skip_of_none (char_of_head?_ne unmarked))),
    bind_of_some (atLine_document fields).spaces, bind_of_some lines]
  have given : (fields.map fun f => some (Statement.assign [f.1] f.2)).filterMap id =
      fields.map fun f => .assign [f.1] f.2 := by
    rw [List.filterMap_map]
    exact congrFun List.filterMap_eq_map fields
  exact congrArg (fun found => some (found, [])) given

theorem step?_nodes (done : List (String × Datum)) (f : String × Datum)
    (fresh : f.1 ∉ done.map (·.1)) :
    Progress.step? ⟨nodes done, []⟩ (.assign [f.1] f.2) = some ⟨nodes (done ++ [f]), []⟩ := by
  have assigned : Progress.step? ⟨nodes done, []⟩ (.assign [f.1] f.2) =
      ((nodes done).assign? [f.1] f.2 .byHeader).bind fun root => some (Progress.mk root []) := rfl
  rw [assigned, assign?_nodes done f fresh, Option.bind_some]

/-- **What is written is read back**: a document of plain values under distinct names is the record
of them, in order. -/
theorem read?_document {fields : List (String × Datum)} (names : (fields.map (·.1)).Nodup)
    (plain : ∀ f ∈ fields, Plain (nestingLimit - 1) f.2) :
    read? (String.ofList (document fields)) = some (.record fields) := by
  have run : (fields.map fun f => Statement.assign [f.1] f.2).foldlM Progress.step? ⟨[], []⟩ =
      some ⟨nodes fields, []⟩ :=
    foldlM_adding (fun done => Progress.mk (nodes done) []) step?_nodes [] names
  rw [read?, String.toList_ofList, statements_document plain]
  show (List.foldlM Progress.step? ⟨[], []⟩ (fields.map fun f => .assign [f.1] f.2)).bind
    (fun final => some (Datum.record (Fields.data final.root))) = _
  rw [run, Option.bind_some, data_nodes]

end EdgeResolution.Toml
