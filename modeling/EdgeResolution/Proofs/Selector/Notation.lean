/-
# EdgeResolution.Proofs.Selector.Notation -- reading a selector and writing it

`Selector.Notated` says which selectors have a notation: modules whose parts are
`Plain`, required at one version or not at all, and projects of the root build with an
absolute path; none of them with blanks at the ends of its text.

* `Module.Parts` is the notation of a module before its parts are joined:
  `moduleOfParts?` reads exactly these (`moduleOfParts?_eq_some_iff`), and the text of
  the module joins them (`toList_text_of_parts`);
* `Reads` are the two ways in which a trimmed text is read (`read_eq_ok_iff`);
* `notated_of_read` and `read_text_of_notated`: what is read has a notation, and what
  has a notation is read from its text.

`read_inverts_text` puts them together.
-/
import EdgeResolution.Selector
import EdgeResolution.Proofs.Text.Pieces

namespace EdgeResolution.Selector

set_option autoImplicit false

open Text (Trimmed trimChars isBlank)

/-! ## What has a notation -/

/-- A part of the notation of a module: some text without a colon. -/
def Plain (part : String) : Prop := part ≠ "" ∧ ':' ∉ part.toList

/-- The parts of the module can be told apart in its text. -/
structure Module.Separable (s : Module) : Prop where
  group : Plain s.group
  name : Plain s.module
  version : s.version = .free ∨ ∃ v, Plain v ∧ s.version = .requiring v

/-- The selector has a notation. -/
inductive Notated : Selector → Prop
  | module {s : Module} (separable : s.Separable) (trimmed : Trimmed s.text.toList)
      (unmarked : ¬ projectMark <+: s.text.toList) : Notated (.module s)
  | project {path : String} (absolute : path.toList.head? = some ':')
      (trimmed : ∀ c, path.toList.getLast? = some c → isBlank c = false) :
      Notated (.project (inRootBuild path))

/-! ## Modules in parts -/

/-- The notation of a module in its parts, none of them empty. -/
inductive Module.Parts : Module → List (List Char) → Prop
  | free {group name : String} (hasGroup : group ≠ "") (hasName : name ≠ "") :
      Parts ⟨group, name, .free⟩ [group.toList, name.toList]
  | requiring {group name version : String} (hasGroup : group ≠ "") (hasName : name ≠ "")
      (hasVersion : version ≠ "") :
      Parts ⟨group, name, .requiring version⟩ [group.toList, name.toList, version.toList]

variable {n : String} {s : Module} {selector : Selector} {cs rest : List Char}
  {parts : List (List Char)}

theorem parts_of_moduleOfParts? (read : moduleOfParts? parts = some s) : s.Parts parts := by
  have filled : ∀ {part : List Char}, part.isEmpty ≠ true → String.ofList part ≠ "" := by
    intro part some
    simpa using some
  unfold moduleOfParts? at read
  split at read
  · next group name =>
      split at read
      · cases read
      · next each =>
          cases read
          rw [Bool.or_eq_true, not_or] at each
          simpa using Module.Parts.free (filled each.1) (filled each.2)
  · next group name version =>
      split at read
      · cases read
      · next each =>
          cases read
          rw [Bool.or_eq_true, not_or, Bool.or_eq_true, not_or] at each
          simpa using Module.Parts.requiring (filled each.1.1) (filled each.1.2) (filled each.2)
  · cases read

theorem moduleOfParts?_eq_some_iff : moduleOfParts? parts = some s ↔ s.Parts parts := by
  refine ⟨parts_of_moduleOfParts?, fun known => ?_⟩
  cases known with
  | free hasGroup hasName => simp [moduleOfParts?, hasGroup, hasName]
  | requiring hasGroup hasName hasVersion =>
      simp [moduleOfParts?, hasGroup, hasName, hasVersion]

/-- The text of a module joins its parts by colons. -/
theorem toList_text_of_parts (known : s.Parts parts) :
    s.text.toList = [':'].intercalate parts := by
  have colon : ":".toList = [':'] := rfl
  cases known with
  | free =>
      have silent : Version.Constraint.free.isEmpty = true := rfl
      simp [Module.text, Module.key, silent, colon, List.intercalate_cons_cons]
  | @requiring group name version =>
      have shown : (Version.Constraint.requiring version).isEmpty = false := rfl
      have bare : (Version.Constraint.requiring version).text = version := rfl
      simp [Module.text, Module.key, shown, bare, colon, List.intercalate_cons_cons]

/-- A separable module is one whose parts hold no colon. -/
theorem Module.separable_iff :
    s.Separable ↔ ∃ parts, s.Parts parts ∧ ∀ part ∈ parts, ':' ∉ part := by
  constructor
  · obtain ⟨group, name, version⟩ := s
    rintro ⟨hasGroup, hasName, rfl | ⟨v, hasVersion, rfl⟩⟩
    · exact ⟨_, .free hasGroup.1 hasName.1, by simp [hasGroup.2, hasName.2]⟩
    · exact ⟨_, .requiring hasGroup.1 hasName.1 hasVersion.1,
        by simp [hasGroup.2, hasName.2, hasVersion.2]⟩
  · rintro ⟨parts, known, plain⟩
    cases known with
    | free hasGroup hasName =>
        exact ⟨⟨hasGroup, plain _ (by simp)⟩, ⟨hasName, plain _ (by simp)⟩, .inl rfl⟩
    | requiring hasGroup hasName hasVersion =>
        exact ⟨⟨hasGroup, plain _ (by simp)⟩, ⟨hasName, plain _ (by simp)⟩,
          .inr ⟨_, ⟨hasVersion, plain _ (by simp)⟩, rfl⟩⟩

/-- The text of a separable module splits into its parts. -/
theorem Module.Separable.splitOn_text (separable : s.Separable) :
    s.Parts (s.text.toList.splitOn ':') := by
  obtain ⟨parts, known, plain⟩ := Module.separable_iff.1 separable
  have some : parts ≠ [] := by cases known <;> exact List.cons_ne_nil _ _
  rw [toList_text_of_parts known, List.splitOn_intercalate ':' plain some]
  exact known

/-! ## The two ways of reading -/

theorem afterProjectMark?_append (rest : List Char) :
    afterProjectMark? (projectMark ++ rest) = some rest := by
  have mark : projectMark.isPrefixOf (projectMark ++ rest) = true :=
    List.isPrefixOf_iff_prefix.2 (List.prefix_append projectMark rest)
  rw [afterProjectMark?, if_pos mark, List.drop_left]

theorem afterProjectMark?_of_unmarked (unmarked : ¬ projectMark <+: cs) :
    afterProjectMark? cs = none := by
  rw [afterProjectMark?, if_neg fun mark => unmarked (List.isPrefixOf_iff_prefix.1 mark)]

theorem read_of_marked (marked : trimChars n.toList = projectMark ++ rest) :
    read n =
      if (trimChars rest).head? = some ':' then
        .ok (.project (inRootBuild (String.ofList (trimChars rest))))
      else .error (.relativeProject n) := by
  simp only [read, marked, afterProjectMark?_append]

theorem read_of_unmarked (unmarked : ¬ projectMark <+: trimChars n.toList) :
    read n =
      match moduleOfParts? ((trimChars n.toList).splitOn ':') with
      | some s => .ok (.module s)
      | none => .error (.notASelector n) := by
  cases known : moduleOfParts? ((trimChars n.toList).splitOn ':') with
  | none => simp only [read, afterProjectMark?_of_unmarked unmarked, known]
  | some s => simp only [read, afterProjectMark?_of_unmarked unmarked, known]

/-- What a trimmed text is read as: a project when an absolute path follows the mark of projects,
and a module when there is no such mark and it splits into the parts of one. -/
inductive Reads (cs : List Char) : Selector → Prop
  | module {s : Module} (unmarked : ¬ projectMark <+: cs) (parts : s.Parts (cs.splitOn ':')) :
      Reads cs (.module s)
  | project {rest : List Char} (marked : cs = projectMark ++ rest)
      (absolute : (trimChars rest).head? = some ':') :
      Reads cs (.project (inRootBuild (String.ofList (trimChars rest))))

theorem read_eq_ok_iff : read n = .ok selector ↔ Reads (trimChars n.toList) selector := by
  constructor
  · intro ok
    by_cases marked : projectMark <+: trimChars n.toList
    · obtain ⟨rest, split⟩ := marked
      rw [read_of_marked split.symm] at ok
      split at ok
      · next absolute =>
          cases ok
          exact .project split.symm absolute
      · cases ok
    · rw [read_of_unmarked marked] at ok
      split at ok
      · next known =>
          cases ok
          exact .module marked (moduleOfParts?_eq_some_iff.1 known)
      · cases ok
  · intro reads
    cases reads with
    | module unmarked parts => rw [read_of_unmarked unmarked, moduleOfParts?_eq_some_iff.2 parts]
    | project marked absolute => rw [read_of_marked marked, if_pos absolute]

/-! ## There and back -/

/-- A module is read from its own text, blanks around it apart. -/
theorem text_of_read_module (ok : read n = .ok (.module s)) : s.text = Text.trim n := by
  cases read_eq_ok_iff.1 ok with
  | module _ parts =>
      have joined : s.text.toList = trimChars n.toList :=
        (toList_text_of_parts parts).trans (List.intercalate_splitOn ':')
      rw [Text.trim, ← joined, String.ofList_toList]

theorem notated_of_read (ok : read n = .ok selector) : Notated selector := by
  cases read_eq_ok_iff.1 ok with
  | @module s unmarked parts =>
      have joined : s.text.toList = trimChars n.toList :=
        (toList_text_of_parts parts).trans (List.intercalate_splitOn ':')
      have separable : s.Separable :=
        Module.separable_iff.2 ⟨_, parts, fun _ => Text.not_mem_of_mem_splitOn⟩
      exact .module separable (joined ▸ Text.trimmed_trimChars _) (joined ▸ unmarked)
  | @project rest marked absolute =>
      have kept : (String.ofList (trimChars rest)).toList = trimChars rest := String.toList_ofList
      refine .project ?_ ?_
      · rw [kept, absolute]
      · rw [kept]
        exact (Text.trimmed_trimChars rest).last

theorem text_inRootBuild (path : String) : (inRootBuild path).text = "project " ++ path := by
  have own : (inRootBuild path).build = ProjectPath.rootBuild := rfl
  rw [ProjectPath.text, if_pos own, String.append_empty]
  rfl

theorem read_text_of_notated (notated : Notated selector) : read selector.text = .ok selector := by
  rw [read_eq_ok_iff]
  cases notated with
  | @module s separable trimmed unmarked =>
      show Reads (trimChars s.text.toList) _
      rw [Text.trimChars_of_trimmed trimmed]
      exact .module unmarked separable.splitOn_text
  | @project path absolute trimmed =>
      have some : path.toList ≠ [] := by
        intro none
        rw [none] at absolute
        cases absolute
      have alone : Trimmed path.toList := by
        refine ⟨fun c first => ?_, trimmed⟩
        cases absolute.symm.trans first
        rfl
      have marked : Trimmed (projectMark ++ path.toList) := by
        refine Text.trimmed_append (List.cons_ne_nil _ _) some (fun c first => ?_) trimmed
        cases first
        rfl
      have kept : trimChars path.toList = path.toList := Text.trimChars_of_trimmed alone
      have text : (inRootBuild path).text.toList = projectMark ++ path.toList := by
        rw [text_inRootBuild, String.toList_append]
        rfl
      have reads : Reads (projectMark ++ path.toList)
          (.project (inRootBuild (String.ofList (trimChars path.toList)))) :=
        .project rfl (kept.symm ▸ absolute)
      rw [kept, String.ofList_toList] at reads
      show Reads (trimChars (inRootBuild path).text.toList) _
      rw [text, Text.trimChars_of_trimmed marked]
      exact reads

/-- **Reading a selector inverts writing it**, and exactly the selectors with a notation are read. -/
theorem read_inverts_text :
    (∀ n selector, read n = .ok selector →
      read selector.text = .ok selector ∧
        ∀ s, selector = .module s → selector.text = Text.trim n) ∧
    (∀ selector, Notated selector → read selector.text = .ok selector) ∧
    (∀ n selector, read n = .ok selector → Notated selector) := by
  refine ⟨?_, ?_, ?_⟩
  · intro n selector ok
    refine ⟨read_text_of_notated (notated_of_read ok), ?_⟩
    rintro s rfl
    exact text_of_read_module ok
  · intro selector notated
    exact read_text_of_notated notated
  · intro n selector ok
    exact notated_of_read ok

namespace Example

/-- The group is not marked as a project: a tab stands where the mark has a space. -/
def tabbed : Selector := .module ⟨"project\tx", "lib core", .requiring "[1.0, 2.0)"⟩

def core : Selector := .project (inRootBuild ":lib core")

end Example

open Example in
theorem read_inverts_text_tabbed :
    (read "\u00a0project\tx:lib core:[1.0, 2.0)\n" = .ok tabbed ∧
      read tabbed.text = .ok tabbed ∧
      tabbed.text = Text.trim "\u00a0project\tx:lib core:[1.0, 2.0)\n") ∧
    (read "project  :lib core " = .ok core ∧ read core.text = .ok core ∧ Notated core) := by
  obtain ⟨inverse, complete, sound⟩ := read_inverts_text
  have module : read "\u00a0project\tx:lib core:[1.0, 2.0)\n" = .ok tabbed := by decide +kernel
  have project : read "project  :lib core " = .ok core := by decide +kernel
  have notated : Notated core := by
    have lastChar : ":lib core".toList.getLast? = some 'e' := by decide +kernel
    refine .project (by decide +kernel) fun c last => ?_
    cases lastChar.symm.trans last
    rfl
  obtain ⟨again, text⟩ := inverse _ _ module
  exact ⟨⟨module, again, text _ rfl⟩, project, complete _ notated, sound _ _ project⟩

end EdgeResolution.Selector
