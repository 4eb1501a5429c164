/-
# EdgeResolution.Proofs.Matching.Stability -- what a match does not depend on

A match is decided by the candidates with the best key (`foremost`) and by nothing
else (`select_eq_verdict`).  Another order of the variants lists the same foremost
ones in another order, and a variant that is not foremost might as well not be there
(`foremost_of_not_mem`): a loser does not shift what the others are compared by.

`select_stable` says what follows for the outcomes: a variant that does not fit has
no part in any of them, a loser none in a choice, and one that is not tied none in
a tie.
-/
import EdgeResolution.Proofs.Matching.Optimum

namespace EdgeResolution.Matching

set_option autoImplicit false

variable {schema : Schema} {consumer : Attributes} {variants variants' before after best best' :
  List Configuration} {v w : Configuration} {names : List String}

/-! ## The foremost candidates -/

/-- The candidates that share the best key, in order of declaration. -/
def foremost (schema : Schema) (consumer : Attributes) (variants : List Configuration) :
    List Configuration :=
  leastBy (key schema consumer) (candidates schema consumer variants)

theorem select_eq_verdict_foremost :
    select schema consumer variants = verdict (foremost schema consumer variants) :=
  select_eq_verdict schema consumer variants

theorem fits_of_mem_foremost (mem : v ∈ foremost schema consumer variants) :
    Fits schema consumer v :=
  of_decide_eq_true (List.mem_filter.1 (mem_leastBy.1 mem).1).2

theorem foremost_perm (perm : variants.Perm variants') :
    (foremost schema consumer variants).Perm (foremost schema consumer variants') :=
  leastBy_perm (perm.filter _)

theorem candidates_append : candidates schema consumer (before ++ after) =
    candidates schema consumer before ++ candidates schema consumer after :=
  List.filter_append before after

theorem candidates_cons_of_fits (fits : Fits schema consumer w) :
    candidates schema consumer (w :: after) = w :: candidates schema consumer after :=
  List.filter_cons_of_pos (decide_eq_true fits)

theorem candidates_cons_of_not_fits (misfit : ¬Fits schema consumer w) :
    candidates schema consumer (w :: after) = candidates schema consumer after :=
  List.filter_cons_of_neg (by simpa using misfit)

theorem foremost_of_not_mem (beaten : w ∉ foremost schema consumer (before ++ w :: after)) :
    foremost schema consumer (before ++ w :: after) =
      foremost schema consumer (before ++ after) := by
  rw [foremost, candidates_append] at beaten ⊢
  rw [foremost, candidates_append]
  by_cases fits : Fits schema consumer w
  · rw [candidates_cons_of_fits fits] at beaten ⊢
    exact leastBy_of_not_mem beaten
  · rw [candidates_cons_of_not_fits fits]

/-- Equal variants are foremost together. -/
theorem count_foremost (mem : v ∈ foremost schema consumer variants) :
    (foremost schema consumer variants).count v = variants.count v := by
  have least : decide (∀ w ∈ candidates schema consumer variants,
      key schema consumer v ≤ key schema consumer w) = true :=
    decide_eq_true (mem_leastBy.1 mem).2
  have fits : decide (Fits schema consumer v) = true := decide_eq_true (fits_of_mem_foremost mem)
  calc (foremost schema consumer variants).count v
      = (candidates schema consumer variants).count v := List.count_filter least
    _ = variants.count v := List.count_filter fits

/-! ## The outcomes -/

/-- The same outcome, but for the order of the names in a tie. -/
inductive Rearranged : Except Mismatch Configuration → Except Mismatch Configuration → Prop
  | noneCompatible : Rearranged (.error .noneCompatible) (.error .noneCompatible)
  | chosen (v : Configuration) : Rearranged (.ok v) (.ok v)
  | tie {names names' : List String} (perm : names.Perm names') :
      Rearranged (.error (.tie names)) (.error (.tie names'))

theorem rearranged_verdict (perm : best.Perm best') : Rearranged (verdict best) (verdict best') := by
  match best, best' with
  | [], [] => exact .noneCompatible
  | [], w :: rest => exact absurd perm.length_eq (by simp)
  | [v], best' =>
      obtain rfl := List.singleton_perm.1 perm
      exact .chosen v
  | v :: w :: rest, [] => exact absurd perm.length_eq (by simp)
  | v :: w :: rest, [v'] => exact absurd perm.length_eq (by simp)
  | v :: w :: rest, v' :: w' :: rest' => exact .tie (perm.map (·.name))

theorem select_of_not_mem_foremost
    (beaten : w ∉ foremost schema consumer (before ++ w :: after)) :
    select schema consumer (before ++ w :: after) = select schema consumer (before ++ after) := by
  rw [select_eq_verdict_foremost, select_eq_verdict_foremost, foremost_of_not_mem beaten]

theorem foremost_of_select (ok : select schema consumer variants = .ok v) :
    foremost schema consumer variants = [v] := by
  rw [select_eq_verdict_foremost] at ok
  exact (verdict_eq_ok_iff _ v).1 ok

theorem map_name_foremost_of_select (tied : select schema consumer variants = .error (.tie names)) :
    names = (foremost schema consumer variants).map (·.name) := by
  rw [select_eq_verdict_foremost] at tied
  exact ((verdict_eq_tie_iff _ names).1 tied).2

/-- **A match is stable.**  The order of the variants shows only in the order of a tie, and what
is neither chosen nor tied can be left out, the more so what does not fit. -/
theorem select_stable (schema : Schema) (consumer : Attributes) :
    (∀ variants variants', variants.Perm variants' →
      Rearranged (select schema consumer variants) (select schema consumer variants')) ∧
    (∀ variants v, select schema consumer variants = .ok v →
      variants.count v = 1 ∧
      ∀ before w after, variants = before ++ w :: after → w ≠ v →
        select schema consumer (before ++ after) = .ok v) ∧
    (∀ variants names, select schema consumer variants = .error (.tie names) →
      names = (foremost schema consumer variants).map (·.name) ∧
      ∀ before w after, variants = before ++ w :: after → w ∉ foremost schema consumer variants →
        select schema consumer (before ++ after) = .error (.tie names)) ∧
    (∀ before w after, ¬Fits schema consumer w →
      select schema consumer (before ++ w :: after) = select schema consumer (before ++ after)) := by
  refine ⟨?_, ?_, ?_, ?_⟩
  · intro variants variants' perm
    rw [select_eq_verdict_foremost, select_eq_verdict_foremost]
    exact rearranged_verdict (foremost_perm perm)
  · intro variants v ok
    have only : foremost schema consumer variants = [v] := foremost_of_select ok
    have mem : v ∈ foremost schema consumer variants := by rw [only]; exact List.mem_cons_self
    refine ⟨?_, ?_⟩
    · rw [← count_foremost mem, only, List.count_singleton_self]
    · rintro before w after rfl other
      rw [← select_of_not_mem_foremost, ok]
      rw [only]
      exact fun same => other (List.mem_singleton.1 same)
  · intro variants names tied
    refine ⟨map_name_foremost_of_select tied, ?_⟩
    rintro before w after rfl beaten
    rw [← select_of_not_mem_foremost beaten, tied]
  · intro before w after misfit
    exact select_of_not_mem_foremost fun mem => misfit (fits_of_mem_foremost mem)

namespace Example

def offering (name usage format : String) : Configuration :=
  (Configuration.named name).withAttributes
    (NameMap.ofList [("usage", usage), ("format", format)])

def jar : Configuration := offering "jar" "api" "jar"

def classes : Configuration := offering "classes" "api" "classes"

def runtime : Configuration := offering "runtime" "runtime" "jar"

def docs : Configuration := offering "docs" "docs" "jar"

def forApi : Attributes := NameMap.ofList [("usage", "api")]

/-- A consumer of an API takes what is for the runtime too. -/
def lenient : Schema := Schema.allow NameMap.empty "usage" "api" "runtime"

end Example

open Example in
/-- `runtime` fits and loses, `docs` does not fit; between the other two a preference decides. -/
theorem select_stable_docs :
    select (lenient.favour "format" "classes") forApi [jar, classes, docs] = .ok classes ∧
    select lenient forApi ([docs, jar] ++ [classes]) = .error (.tie ["jar", "classes"]) ∧
    select lenient forApi ([] ++ [jar, runtime, classes]) = .error (.tie ["jar", "classes"]) ∧
    ∃ names, select lenient forApi [classes, docs, runtime, jar] = .error (.tie names) ∧
      ["jar", "classes"].Perm names := by
  have chosen : select (lenient.favour "format" "classes") forApi [jar, runtime, classes, docs] =
      .ok classes := by decide
  have tied : select lenient forApi [docs, jar, runtime, classes] =
      .error (.tie ["jar", "classes"]) := by decide
  have misfit : ¬Fits lenient forApi docs := by decide
  have loses : runtime ∉ foremost lenient forApi [docs, jar, runtime, classes] := by
    intro mem
    have named := ((select_stable lenient forApi).2.2.1 _ _ tied).1
    have listed : "runtime" ∈ ["jar", "classes"] := named ▸ List.mem_map_of_mem mem
    exact absurd listed (by decide)
  have turned : [docs, jar, runtime, classes].Perm [classes, docs, runtime, jar] := by decide
  refine ⟨((select_stable _ forApi).2.1 _ _ chosen).2 [jar] runtime [classes, docs] rfl (by decide),
    ((select_stable lenient forApi).2.2.1 _ _ tied).2 [docs, jar] runtime [classes] rfl loses,
    ((select_stable lenient forApi).2.2.2 [] docs _ misfit).symm.trans tied, ?_⟩
  have outcome := (select_stable lenient forApi).1 _ _ turned
  rw [tied] at outcome
  cases outcome with
  | tie perm => exact ⟨_, rfl, perm⟩

end EdgeResolution.Matching
