/-
# EdgeResolution.Proofs.Selector.Legible -- which modules can be read from their text

The text of a module names its group and itself, and shows its version constraint unless
that is empty.  What is empty and what shows nothing are told by different rules:
`Silent` are the constraints that are not empty and still show nothing but blanks, a
branch with nothing beside it and a blank version (`silent_iff`).  Their text ends in
a colon, which no notation does.

* `trimChars_text`: the text without blanks at its ends joins the parts that it shows;
* `read_text`: so reading it comes down to these parts;
* `read_text_iff_not_silent`: exactly the modules whose constraint is not silent are read
  from their text, with the same group and the same name, and with what their constraint
  shows for a version.
-/
import EdgeResolution.Proofs.Selector.Notation

namespace EdgeResolution

set_option autoImplicit false

open Text (Trimmed trimChars trimLeft trimRight isBlank)

/-! ## What a constraint shows -/

namespace Version.Constraint

/-- All texts that the constraint holds. -/
def texts (c : Constraint) : List String :=
  c.require.toList ++ c.prefer.toList ++ c.strictly.toList ++ c.reject ++ c.branch.toList

/-- The constraint is not empty, but its text is. -/
inductive Silent : Constraint → Prop
  | branchAlone (branch : String) : Silent ⟨none, none, none, [], some branch⟩
  | blankVersion {version : String} (blank : ∀ c ∈ version.toList, isBlank c)
      (prefer branch : Option String) : Silent ⟨some version, prefer, none, [], branch⟩

variable {c : Constraint} {x : Char}

theorem mem_text_iff :
    x ∈ c.text.toList ↔
      (∃ t ∈ c.effectiveText.toList ++ c.rejectText.toList, x ∈ t.toList) ∨
        (x = ' ' ∧ 1 < (c.effectiveText.toList ++ c.rejectText.toList).length) := by
  have space : x ∈ " ".toList ↔ x = ' ' := List.mem_singleton
  rw [text, String.toList_intercalate, Text.mem_intercalate_iff, space, List.length_map]
  simp only [List.mem_map, exists_exists_and_eq_and]

theorem brace_mem_rejectText (some : c.reject ≠ []) : ∃ t ∈ c.rejectText, '\x7b' ∈ t.toList := by
  have filled : c.reject.isEmpty ≠ true := by simpa using some
  exact ⟨_, if_neg filled, by simp⟩

theorem silent_iff : c.Silent ↔ c.isEmpty = false ∧ ∀ x ∈ c.text.toList, isBlank x := by
  constructor
  · intro silent
    cases silent with
    | branchAlone branch => exact ⟨rfl, nofun⟩
    | blankVersion blank prefer branch => exact ⟨rfl, blank⟩
  · rintro ⟨some, blank⟩
    -- a brace is seen
    have noBrace : '\x7b' ∉ c.text.toList := fun mem => absurd (blank _ mem) (by decide)
    obtain ⟨require, prefer, strictly, reject, branch⟩ := c
    cases reject with
    | cons r rest =>
        obtain ⟨t, shown, brace⟩ := brace_mem_rejectText
          (c := ⟨require, prefer, strictly, r :: rest, branch⟩) (List.cons_ne_nil r rest)
        refine absurd (mem_text_iff.2 (Or.inl ⟨t, ?_, brace⟩)) noBrace
        exact List.mem_append_right _ (Option.mem_toList.2 shown)
    | nil =>
        cases strictly with
        | some v =>
            have brace : '\x7b' ∈ ("\x7bstrictly " ++ v ++ "\x7d").toList := by simp
            exact absurd brace noBrace
        | none =>
            cases require with
            | some v => exact .blankVersion blank prefer branch
            | none =>
                cases prefer with
                | some v =>
                    have brace : '\x7b' ∈ ("\x7bprefer " ++ v ++ "\x7d").toList := by simp
                    exact absurd brace noBrace
                | none =>
                    cases branch with
                    | some branch => exact .branchAlone branch
                    | none => cases some

theorem colon_not_mem_effectiveText (plain : ∀ t ∈ c.texts, ':' ∉ t.toList) :
    ∀ t ∈ c.effectiveText, ':' ∉ t.toList := by
  obtain ⟨require, prefer, strictly, reject, branch⟩ := c
  cases strictly with
  | some v =>
      rintro t ⟨⟩
      simpa using plain v (by simp [texts])
  | none =>
      cases require with
      | some v =>
          rintro t ⟨⟩
          exact plain v (by simp [texts])
      | none =>
          cases prefer with
          | some v =>
              rintro t ⟨⟩
              simpa using plain v (by simp [texts])
          | none => nofun

theorem colon_not_mem_rejectText (plain : ∀ t ∈ c.texts, ':' ∉ t.toList) :
    ∀ t ∈ c.rejectText, ':' ∉ t.toList := by
  intro t shown
  have each : ∀ r ∈ c.reject, ':' ∉ r.toList := fun r mem => plain r (by simp [texts, mem])
  unfold rejectText at shown
  split at shown
  · cases shown
  · cases shown
    simpa [String.toList_intercalate, Text.mem_intercalate_iff] using each

/-- No colon is shown but from a text that holds one. -/
theorem colon_not_mem_text (plain : ∀ t ∈ c.texts, ':' ∉ t.toList) : ':' ∉ c.text.toList := by
  rw [mem_text_iff]
  rintro (⟨t, shown, colon⟩ | ⟨other, -⟩)
  · rcases List.mem_append.1 shown with deciding | rejected
    · exact colon_not_mem_effectiveText plain t (Option.mem_toList.1 deciding) colon
    · exact colon_not_mem_rejectText plain t (Option.mem_toList.1 rejected) colon
  · cases other

end Version.Constraint

namespace Selector

/-! ## The text of a module in parts -/

/-- Group and name of the module are told apart in its text, whatever version it shows. -/
structure Module.Addressed (s : Module) : Prop where
  group : Plain s.group
  name : Plain s.module
  trimmedGroup : Trimmed s.group.toList
  trimmedName : Trimmed s.module.toList
  unmarked : ¬ projectMark <+: s.group.toList
  version : ∀ t ∈ s.version.texts, ':' ∉ t.toList

/-- What the text of the module shows between its colons, without the blanks at its end. -/
def Module.shownParts (s : Module) : List (List Char) :=
  [s.group.toList, s.module.toList] ++
    if s.version.isEmpty then [] else [trimRight s.version.text.toList]

variable {s : Module}

theorem toList_text (s : Module) :
    s.text.toList = s.group.toList ++ ':' :: s.module.toList ++
      if s.version.isEmpty then [] else ':' :: s.version.text.toList := by
  rw [Module.text, Module.key]
  split <;> simp

theorem trimChars_text (addressed : s.Addressed) :
    trimChars s.text.toList = [':'].intercalate s.shownParts := by
  have someGroup : s.group.toList ≠ [] := by simpa using addressed.group.1
  -- the group has no blank in front, so the text is cut at its end only
  have kept : trimLeft s.text.toList = s.text.toList := by
    refine Text.trimLeft_eq_self_iff.2 fun c head => ?_
    rw [toList_text, List.append_assoc, List.head?_append_of_ne_nil _ someGroup] at head
    exact addressed.trimmedGroup.first c head
  have colon : isBlank ':' = false := by decide
  rw [trimChars, kept, toList_text, Module.shownParts]
  cases s.version.isEmpty with
  | true =>
      have nameKept : trimRight s.module.toList = s.module.toList :=
        Text.trimRight_eq_self_iff.2 addressed.trimmedName.last
      simp [Text.trimRight_append_cons colon, nameKept, List.intercalate_cons_cons]
  | false =>
      have cut := Text.trimRight_append_cons colon (s.group.toList ++ ':' :: s.module.toList)
        s.version.text.toList
      simp only [Bool.false_eq_true, if_false, cut]
      simp [List.intercalate_cons_cons]

theorem colon_not_mem_shownParts (addressed : s.Addressed) : ∀ part ∈ s.shownParts, ':' ∉ part := by
  have inVersion : ':' ∉ trimRight s.version.text.toList := by
    intro mem
    have shown := (Text.trimRight_prefix s.version.text.toList).subset mem
    exact Version.Constraint.colon_not_mem_text addressed.version shown
  refine List.forall_mem_append.2 ⟨?_, ?_⟩
  · simp [addressed.group.2, addressed.name.2]
  · split
    · exact List.forall_mem_nil _
    · simpa using inVersion

theorem prefix_of_prefix_append_cons {cs xs ys : List Char} {c : Char} (absent : c ∉ cs)
    (starts : cs <+: xs ++ c :: ys) : cs <+: xs := by
  rcases List.prefix_or_prefix_of_prefix starts (List.prefix_append xs (c :: ys)) with
    shorter | ⟨rest, rfl⟩
  · exact shorter
  · rw [List.prefix_append_right_inj, List.prefix_cons_iff] at starts
    rcases starts with rfl | ⟨t, rfl, -⟩
    · simp
    · exact absurd (by simp) absent

theorem not_marked (addressed : s.Addressed) : ¬ projectMark <+: trimChars s.text.toList := by
  intro marked
  obtain ⟨more, shown⟩ : ∃ more, trimChars s.text.toList = s.group.toList ++ ':' :: more := by
    rw [trimChars_text addressed, Module.shownParts]
    generalize (if s.version.isEmpty then [] else [trimRight s.version.text.toList]) = version
    refine ⟨[':'].intercalate (s.module.toList :: version), ?_⟩
    simp [List.intercalate_cons_cons]
  rw [shown] at marked
  have noColon : ':' ∉ projectMark := by decide
  exact addressed.unmarked (prefix_of_prefix_append_cons noColon marked)

/-! ## Reading the text -/

theorem read_text (addressed : s.Addressed) :
    read s.text =
      match moduleOfParts? s.shownParts with
      | some m => .ok (.module m)
      | none => .error (.notASelector s.text) := by
  have split : (trimChars s.text.toList).splitOn ':' = s.shownParts := by
    rw [trimChars_text addressed]
    exact List.splitOn_intercalate ':' (colon_not_mem_shownParts addressed) (List.cons_ne_nil _ _)
  have parsed := read_of_unmarked (not_marked addressed)
  rw [split] at parsed
  exact parsed

/-- The constraint that is read where this one is shown. -/
def shownConstraint (c : Version.Constraint) : Version.Constraint :=
  if c.isEmpty then .free else .requiring (String.ofList (trimRight c.text.toList))

theorem moduleOfParts?_shownParts (addressed : s.Addressed) :
    moduleOfParts? s.shownParts =
      if s.version.isEmpty = false ∧ trimRight s.version.text.toList = [] then none
      else some (s.withVersion (shownConstraint s.version)) := by
  have someGroup : s.group ≠ "" := addressed.group.1
  have someName : s.module ≠ "" := addressed.name.1
  rw [Module.shownParts, shownConstraint]
  cases s.version.isEmpty with
  | true => simp [moduleOfParts?, someGroup, someName, Module.withVersion]
  | false =>
      by_cases silent : trimRight s.version.text.toList = []
      · simp [moduleOfParts?, silent]
      · simp [moduleOfParts?, someGroup, someName, silent, Module.withVersion]

theorem silent_iff_trimRight {c : Version.Constraint} :
    c.Silent ↔ c.isEmpty = false ∧ trimRight c.text.toList = [] := by
  rw [Version.Constraint.silent_iff, Text.trimRight_eq_nil_iff]

/-- **Exactly the modules whose constraint is not silent are read from their text**, as the same
module with what their constraint shows; the text of any other is no selector. -/
theorem read_text_iff_not_silent (addressed : s.Addressed) :
    ((∃ v, read s.text = .ok (.module ⟨s.group, s.module, v⟩)) ↔ ¬s.version.Silent) ∧
    (¬s.version.Silent →
      read s.text = .ok (.module (s.withVersion (shownConstraint s.version)))) ∧
    (s.version.Silent → read s.text = .error (.notASelector s.text)) := by
  have shown : ¬s.version.Silent →
      read s.text = .ok (.module (s.withVersion (shownConstraint s.version))) := by
    intro heard
    rw [silent_iff_trimRight] at heard
    rw [read_text addressed, moduleOfParts?_shownParts addressed, if_neg heard]
  have hidden : s.version.Silent → read s.text = .error (.notASelector s.text) := by
    intro silent
    rw [silent_iff_trimRight] at silent
    rw [read_text addressed, moduleOfParts?_shownParts addressed, if_pos silent]
  refine ⟨⟨?_, fun heard => ⟨_, shown heard⟩⟩, shown, hidden⟩
  rintro ⟨v, ok⟩ silent
  rw [hidden silent] at ok
  cases ok

namespace Example

/-- A module of which a branch is asked for, and nothing else. -/
def onBranch : Module := ⟨"com.example", "lib", Version.Constraint.free.onBranch "main"⟩

/-- The blanks before the rejected version are kept, and those after the whole are not. -/
def guarded : Module := ⟨"project", "lib core", ⟨some "\t", some "2", none, ["1 | 1.1"], none⟩⟩

theorem addressed_onBranch : onBranch.Addressed where
  group := ⟨by decide, by decide⟩
  name := ⟨by decide, by decide⟩
  trimmedGroup := Text.trimChars_eq_self_iff.1 (by decide)
  trimmedName := Text.trimChars_eq_self_iff.1 (by decide)
  unmarked := by decide
  version := by decide

theorem addressed_guarded : guarded.Addressed where
  group := ⟨by decide, by decide⟩
  name := ⟨by decide, by decide⟩
  trimmedGroup := Text.trimChars_eq_self_iff.1 (by decide)
  trimmedName := Text.trimChars_eq_self_iff.1 (by decide)
  unmarked := by decide
  version := by decide

end Example

open Example in
/-- A branch alone is silent; a rejected version makes up for a blank one. -/
theorem read_text_iff_not_silent_branch :
    (onBranch.Addressed ∧ onBranch.version.Silent ∧ onBranch.text = "com.example:lib:" ∧
      read "com.example:lib:" = .error (.notASelector "com.example:lib:")) ∧
    (guarded.Addressed ∧ ¬guarded.version.Silent ∧
      guarded.text = "project:lib core:\t \x7breject 1 | 1.1\x7d" ∧
      read "project:lib core:\t \x7breject 1 | 1.1\x7d" =
        .ok (.module ⟨"project", "lib core", .requiring "\t \x7breject 1 | 1.1\x7d"⟩)) := by
  have silent : onBranch.version.Silent := .branchAlone "main"
  have heard : ¬guarded.version.Silent := nofun
  have text : onBranch.text = "com.example:lib:" := by decide
  have text' : guarded.text = "project:lib core:\t \x7breject 1 | 1.1\x7d" := by decide
  have kept : guarded.withVersion (shownConstraint guarded.version) =
      ⟨"project", "lib core", .requiring "\t \x7breject 1 | 1.1\x7d"⟩ := by decide
  have refused := (read_text_iff_not_silent addressed_onBranch).2.2 silent
  have accepted := (read_text_iff_not_silent addressed_guarded).2.1 heard
  rw [text] at refused
  rw [text', kept] at accepted
  exact ⟨⟨addressed_onBranch, silent, text, refused⟩, addressed_guarded, heard, text', accepted⟩

open Example in
/-- Not every module is read from its text. -/
theorem not_read_text :
    ¬∀ s : Module, s.Addressed → ∃ v, read s.text = .ok (.module ⟨s.group, s.module, v⟩) := by
  intro legible
  obtain ⟨v, ok⟩ := legible onBranch addressed_onBranch
  have refused : read onBranch.text = .error (.notASelector onBranch.text) := rfl
  rw [refused] at ok
  cases ok

end Selector
end EdgeResolution
