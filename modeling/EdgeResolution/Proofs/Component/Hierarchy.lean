/-
# EdgeResolution.Proofs.Component.Hierarchy -- the hierarchy of a configuration under construction

A configuration is made from its name by a chain of calls: it is extended, again and
again, and given attributes, artifacts and dependencies in between.  Of its hierarchy
only the names that it was told to extend count, in the order in which they came
(`mentioned`):

* `hierarchy_ofCalls`: the hierarchy is its own name and then these names, each at its
  first place only.  So its own name, mentioned again, adds nothing;
* `eraseDups_ascending`: the names stand in the order of their first mention.

`hierarchy_in_order_of_mention` says this of every chain.  What an expansion goes on
to, the hierarchy without its first entry, is therefore never the configuration itself.
-/
import EdgeResolution.Proofs.Ancestry.Walk
import Mathlib.Data.List.Basic
import Mathlib.Data.List.Induction

namespace EdgeResolution

set_option autoImplicit false

/-! ## Names at their first place -/

section FirstPlaces

variable {names : List String} {name : String}

theorem eraseDups_concat_of_mem (mem : name ∈ names) :
    (names ++ [name]).eraseDups = names.eraseDups := by
  rw [List.eraseDups_append]
  simp [List.removeAll, mem]

theorem eraseDups_concat_of_not_mem (fresh : name ∉ names) :
    (names ++ [name]).eraseDups = names.eraseDups ++ [name] := by
  rw [List.eraseDups_append]
  simp [List.removeAll, fresh, List.eraseDups_cons]

theorem eraseDups_ascending (names : List String) :
    names.eraseDups.Pairwise fun a b => names.idxOf a < names.idxOf b := by
  induction names using List.reverseRecOn with
  | nil => exact List.Pairwise.nil
  | append_singleton names name ih =>
      -- one more name at the end moves the first place of no other
      have kept : ∀ a ∈ names, (names ++ [name]).idxOf a = names.idxOf a :=
        fun a mem => by rw [List.idxOf_append, if_pos mem]
      have earlier : names.eraseDups.Pairwise fun a b =>
          (names ++ [name]).idxOf a < (names ++ [name]).idxOf b := by
        refine ih.imp_of_mem fun {a b} memA memB lt => ?_
        rwa [kept a (List.mem_eraseDups.1 memA), kept b (List.mem_eraseDups.1 memB)]
      by_cases mem : name ∈ names
      · rwa [eraseDups_concat_of_mem mem]
      · rw [eraseDups_concat_of_not_mem mem]
        refine List.pairwise_append.2 ⟨earlier, List.pairwise_singleton _ _, ?_⟩
        intro a memA b last
        rw [List.mem_singleton.1 last, kept a (List.mem_eraseDups.1 memA), List.idxOf_append,
          if_neg mem]
        exact Nat.lt_of_lt_of_le (List.idxOf_lt_length_iff.2 (List.mem_eraseDups.1 memA))
          (Nat.le_add_left _ _)

theorem eraseDups_nodup (names : List String) : names.eraseDups.Nodup := by
  apply (eraseDups_ascending names).imp
  rintro a b lt rfl
  exact Nat.lt_irrefl _ lt

end FirstPlaces

namespace Configuration

/-! ## Chains of calls -/

/-- One call on a configuration under construction. -/
inductive Call where
  | extend (parents : List String)
  | attributes (attributes : Attributes)
  | artifact (artifact : Artifact)
  | dependencies (has : Bool)

/-- The names that a call tells the configuration to extend. -/
def Call.mentions : Call → List String
  | .extend parents => parents
  | .attributes _ | .artifact _ | .dependencies _ => []

def build (c : Configuration) : Call → Configuration
  | .extend parents => c.extend parents
  | .attributes attributes => c.withAttributes attributes
  | .artifact artifact => c.addArtifact artifact
  | .dependencies has => c.withDependencies has

/-- The configuration of this name after these calls. -/
def ofCalls (name : String) (calls : List Call) : Configuration :=
  calls.foldl build (named name)

/-- All names that the calls mention, in order and with repetitions. -/
def mentioned (calls : List Call) : List String := calls.flatMap Call.mentions

variable {c : Configuration} {name parent : String} {names parents : List String}
  {calls : List Call}

theorem hierarchy_addParent (c : Configuration) (parent : String) :
    (c.addParent parent).hierarchy =
      if parent ∈ c.hierarchy then c.hierarchy else c.hierarchy ++ [parent] := by
  rw [addParent]
  by_cases mem : parent ∈ c.name :: c.parents
  · rw [dif_pos mem, if_pos (show parent ∈ c.hierarchy from mem)]
  · rw [dif_neg mem, if_neg (show parent ∉ c.hierarchy from mem)]
    rfl

/-- Where a hierarchy stands for a list of names, one more parent is one more name. -/
theorem hierarchy_addParent_of (stands : c.hierarchy = names.eraseDups) :
    (c.addParent parent).hierarchy = (names ++ [parent]).eraseDups := by
  rw [hierarchy_addParent, stands]
  by_cases mem : parent ∈ names
  · rw [if_pos (List.mem_eraseDups.2 mem), eraseDups_concat_of_mem mem]
  · rw [if_neg fun inErased => mem (List.mem_eraseDups.1 inErased),
      eraseDups_concat_of_not_mem mem]

theorem hierarchy_extend_of (stands : c.hierarchy = names.eraseDups) :
    (c.extend parents).hierarchy = (names ++ parents).eraseDups := by
  induction parents generalizing c names with
  | nil =>
      rw [List.append_nil]
      exact stands
  | cons parent rest ih =>
      rw [List.append_cons]
      exact ih (hierarchy_addParent_of stands)

theorem hierarchy_build_of (stands : c.hierarchy = names.eraseDups) (call : Call) :
    (c.build call).hierarchy = (names ++ call.mentions).eraseDups := by
  cases call with
  | extend parents => exact hierarchy_extend_of stands
  | attributes | artifact | dependencies =>
      rw [Call.mentions, List.append_nil]
      exact stands

theorem extend_extend (c : Configuration) (parents more : List String) :
    (c.extend parents).extend more = c.extend (parents ++ more) :=
  List.foldl_append.symm

theorem ofCalls_append (name : String) (calls more : List Call) :
    ofCalls name (calls ++ more) = more.foldl build (ofCalls name calls) :=
  List.foldl_append

theorem hierarchy_ofCalls (name : String) (calls : List Call) :
    (ofCalls name calls).hierarchy = (name :: mentioned calls).eraseDups := by
  induction calls using List.reverseRecOn with
  | nil => rfl
  | append_singleton calls call ih =>
      have last : ofCalls name (calls ++ [call]) = (ofCalls name calls).build call :=
        ofCalls_append name calls [call]
      rw [last, hierarchy_build_of ih, mentioned, mentioned, List.flatMap_append,
        List.flatMap_singleton, List.cons_append]

/-- The name a chain starts from, and what it leaves as parents. -/
theorem ofCalls_head_tail (name : String) (calls : List Call) :
    (ofCalls name calls).name = name ∧
      (ofCalls name calls).parents = ((mentioned calls).filter (· != name)).eraseDups := by
  have whole := hierarchy_ofCalls name calls
  rw [List.eraseDups_cons] at whole
  exact List.cons.inj whole

theorem mem_parents_ofCalls_iff :
    parent ∈ (ofCalls name calls).parents ↔ parent ∈ mentioned calls ∧ parent ≠ name := by
  rw [(ofCalls_head_tail name calls).2, List.mem_eraseDups, List.mem_filter, bne_iff_ne]

/-- The parents stand in the order in which they are first mentioned. -/
theorem parents_ofCalls_ascending (name : String) (calls : List Call) :
    (ofCalls name calls).parents.Pairwise fun a b =>
      (mentioned calls).idxOf a < (mentioned calls).idxOf b := by
  have whole : (name :: (ofCalls name calls).parents).Pairwise fun a b =>
      (name :: mentioned calls).idxOf a < (name :: mentioned calls).idxOf b := by
    have ascending := eraseDups_ascending (name :: mentioned calls)
    rw [← hierarchy_ofCalls, hierarchy, (ofCalls_head_tail name calls).1] at ascending
    exact ascending
  -- in front of all mentions the own name moves every other name by one place
  refine (List.pairwise_cons.1 whole).2.imp_of_mem fun {a b} memA memB lt => ?_
  have otherA : name ≠ a := (mem_parents_ofCalls_iff.1 memA).2.symm
  have otherB : name ≠ b := (mem_parents_ofCalls_iff.1 memB).2.symm
  rw [List.idxOf_cons_ne _ otherA, List.idxOf_cons_ne _ otherB] at lt
  exact Nat.succ_lt_succ_iff.1 lt

theorem extends_ofCalls_iff {t : Component}
    (held : t.configuration? name = some (ofCalls name calls)) :
    t.Extends name parent ↔ parent ∈ mentioned calls ∧ parent ≠ name := by
  rw [← mem_parents_ofCalls_iff]
  constructor
  · rintro ⟨c, found, declared⟩
    cases held.symm.trans found
    exact declared
  · intro declared
    exact ⟨ofCalls name calls, held, declared⟩

/-- **The hierarchy of a configuration under construction.**  Whatever the calls, it starts with
the configuration's own name, repeats none, and goes on with the other names that the calls told
it to extend, in the order of their first mention.  To extend twice is to extend once by both
lists.  An expansion, which goes on to what comes after the first entry, never comes back to the
configuration as its own parent. -/
theorem hierarchy_in_order_of_mention (name : String) (calls : List Call) :
    ((ofCalls name calls).name = name ∧ (ofCalls name calls).hierarchy.head? = some name) ∧
    (ofCalls name calls).hierarchy.Nodup ∧
    (∀ parent, parent ∈ (ofCalls name calls).hierarchy.drop 1 ↔
      parent ∈ mentioned calls ∧ parent ≠ name) ∧
    ((ofCalls name calls).hierarchy.drop 1).Pairwise (fun a b =>
      (mentioned calls).idxOf a < (mentioned calls).idxOf b) ∧
    (∀ parents more after,
      ofCalls name (calls ++ .extend parents :: .extend more :: after) =
        ofCalls name (calls ++ .extend (parents ++ more) :: after)) ∧
    ∀ t : Component, t.configuration? name = some (ofCalls name calls) →
      (∀ parent, t.Extends name parent ↔ parent ∈ (ofCalls name calls).hierarchy.drop 1) ∧
      ¬ t.Extends name name := by
  have named := (ofCalls_head_tail name calls).1
  refine ⟨⟨named, congrArg some named⟩, ?_, fun parent => mem_parents_ofCalls_iff,
    parents_ofCalls_ascending name calls, ?_, ?_⟩
  · rw [hierarchy_ofCalls]
    exact eraseDups_nodup _
  · intro parents more after
    rw [ofCalls_append, ofCalls_append, List.foldl_cons, List.foldl_cons, List.foldl_cons]
    exact congrArg (after.foldl build) (extend_extend (ofCalls name calls) parents more)
  · intro t held
    constructor
    · intro parent
      exact (extends_ofCalls_iff held).trans mem_parents_ofCalls_iff.symm
    · intro own
      exact ((extends_ofCalls_iff held).1 own).2 rfl

namespace Example

/-- Extended three times, by names it has already, by itself and by nothing. -/
def runtime : List Call :=
  [.extend ["implementation", "api"], .attributes (NameMap.ofList [("usage", "java-runtime")]),
    .extend ["runtime", "api", "base"], .dependencies true, .extend []]

def target : Component :=
  (Component.empty (.project ⟨":", ":lib"⟩) .project).addConfiguration (ofCalls "runtime" runtime)

end Example

open Example in
theorem hierarchy_in_order_of_mention_runtime :
    target.configuration? "runtime" = some (ofCalls "runtime" runtime) ∧
    (ofCalls "runtime" runtime).hierarchy = ["runtime", "implementation", "api", "base"] ∧
    target.Extends "runtime" "base" ∧ ¬ target.Extends "runtime" "runtime" := by
  have held : target.configuration? "runtime" = some (ofCalls "runtime" runtime) := by decide
  have shown : (ofCalls "runtime" runtime).hierarchy =
      ["runtime", "implementation", "api", "base"] := by decide
  obtain ⟨-, -, -, -, -, expanded⟩ := hierarchy_in_order_of_mention "runtime" runtime
  obtain ⟨extended, notSelf⟩ := expanded target held
  refine ⟨held, shown, (extended "base").2 ?_, notSelf⟩
  rw [shown]
  decide

end Configuration
end EdgeResolution
