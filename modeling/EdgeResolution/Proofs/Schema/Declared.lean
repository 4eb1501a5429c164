/-
# EdgeResolution.Proofs.Schema.Declared -- a schema told from its declarations

A schema is declared call by call, for one attribute after another and back again.
Each call extends the entry of its attribute, or makes it.  What a schema answers is
stated here of the list of calls:

* `ruleOn_ofCalls`: an attribute's rules are the pairs and the values of its own
  calls, in their order (`allowedOn`, `favouredOn`);
* `accepts_ofCalls_iff`, `rank?_ofCalls`, `mem_preferred_ofCalls_iff`: so is every
  answer.  An attribute that has pairs only is not among the preferred ones, and a
  value that is preferred again keeps its first rank.

Calls for different attributes, and accepting and preferring, may be interleaved in
any way (`answers_of_calls`).
-/
import EdgeResolution.Proofs.Matching.Optimum
import Mathlib.Data.List.Induction
import Mathlib.Data.List.Sort

namespace EdgeResolution.Schema

set_option autoImplicit false

/-- One declaration of a schema. -/
inductive Call where
  | allow (name consumer producer : String)
  | favour (name value : String)
  deriving DecidableEq

namespace Call

/-- The attribute that the call is for. -/
def name : Call → String
  | .allow name _ _ => name
  | .favour name _ => name

def extend (rule : AttributeRule) : Call → AttributeRule
  | .allow _ consumer producer =>
      { rule with compatible := rule.compatible ++ [(consumer, producer)] }
  | .favour _ value => { rule with prefer := rule.prefer ++ [value] }

end Call

def declare (s : Schema) : Call → Schema
  | .allow name consumer producer => s.allow name consumer producer
  | .favour name value => s.favour name value

/-- The schema with these declarations, in order. -/
def ofCalls (calls : List Call) : Schema := calls.foldl declare NameMap.empty

variable {s : Schema} {calls calls' : List Call} {call : Call}
  {name consumer producer value : String}

/-! ## The calls for one attribute -/

/-- The pairs of values that the calls accept for an attribute. -/
def allowedOn (name : String) (calls : List Call) : List (String × String) :=
  calls.filterMap fun
    | .allow n consumer producer => if n = name then some (consumer, producer) else none
    | .favour _ _ => none

/-- The values that the calls prefer for an attribute. -/
def favouredOn (name : String) (calls : List Call) : List String :=
  calls.filterMap fun
    | .allow _ _ _ => none
    | .favour n value => if n = name then some value else none

theorem allowedOn_append : allowedOn name (calls ++ calls') =
    allowedOn name calls ++ allowedOn name calls' :=
  List.filterMap_append

theorem favouredOn_append : favouredOn name (calls ++ calls') =
    favouredOn name calls ++ favouredOn name calls' :=
  List.filterMap_append

theorem mem_allowedOn_iff :
    (consumer, producer) ∈ allowedOn name calls ↔ .allow name consumer producer ∈ calls := by
  rw [allowedOn, List.mem_filterMap]
  constructor
  · rintro ⟨call, mem, found⟩
    cases call with
    | allow n c p =>
        obtain ⟨rfl, same⟩ := Option.ite_none_right_eq_some.1 found
        cases same
        exact mem
    | favour n v => cases found
  · intro mem
    exact ⟨.allow name consumer producer, mem, if_pos rfl⟩

theorem mem_favouredOn_iff : value ∈ favouredOn name calls ↔ .favour name value ∈ calls := by
  rw [favouredOn, List.mem_filterMap]
  constructor
  · rintro ⟨call, mem, found⟩
    cases call with
    | allow n c p => cases found
    | favour n v =>
        obtain ⟨rfl, same⟩ := Option.ite_none_right_eq_some.1 found
        cases same
        exact mem
  · intro mem
    exact ⟨.favour name value, mem, if_pos rfl⟩

/-! ## The rules on one attribute -/

/-- The rules on an attribute, none at all where the schema does not name it. -/
def ruleOn (s : Schema) (name : String) : AttributeRule := (s.get? name).getD .empty

theorem accepts_eq_ruleOn : s.accepts name consumer producer =
    (consumer == producer || (s.ruleOn name).compatible.contains (consumer, producer)) := by
  rw [accepts, ruleOn]
  cases s.get? name <;> rfl

theorem rank?_eq_ruleOn : s.rank? name value = (s.ruleOn name).prefer.idxOf? value := by
  rw [rank?, ruleOn]
  cases s.get? name <;> rfl

theorem mem_preferred_iff_ruleOn : name ∈ s.preferred ↔ (s.ruleOn name).prefer ≠ [] := by
  rw [Matching.mem_preferred_iff, ruleOn]
  cases s.get? name with
  | none => simp [AttributeRule.empty]
  | some rule => simp

/-- A call extends the rules on its attribute and leaves those on any other alone. -/
theorem ruleOn_declare (s : Schema) (call : Call) (name : String) : (s.declare call).ruleOn name =
    if name = call.name then call.extend (s.ruleOn name) else s.ruleOn name := by
  have upserted : s.declare call =
      s.upsert call.name fun present => call.extend (present.getD .empty) := by
    cases call <;> rfl
  rw [upserted, ruleOn, NameMap.get?_upsert]
  split
  · next same => rw [same]; rfl
  · rfl

theorem ruleOn_ofCalls :
    (ofCalls calls).ruleOn name = ⟨allowedOn name calls, favouredOn name calls⟩ := by
  induction calls using List.reverseRecOn with
  | nil => rfl
  | append_singleton calls call ih =>
      have step : ofCalls (calls ++ [call]) = (ofCalls calls).declare call :=
        List.foldl_concat declare NameMap.empty call calls
      rw [step, ruleOn_declare, ih, allowedOn_append, favouredOn_append]
      split
      · next own =>
          subst own
          cases call <;> simp [Call.name, Call.extend, allowedOn, favouredOn]
      · next other =>
          cases call with
          | allow n c p => simp [allowedOn, favouredOn, show n ≠ name from Ne.symm other]
          | favour n v => simp [allowedOn, favouredOn, show n ≠ name from Ne.symm other]

/-! ## Answers -/

theorem accepts_ofCalls_iff : (ofCalls calls).accepts name consumer producer = true ↔
    consumer = producer ∨ .allow name consumer producer ∈ calls := by
  rw [accepts_eq_ruleOn, ruleOn_ofCalls, Bool.or_eq_true, beq_iff_eq, List.contains_iff_mem,
    mem_allowedOn_iff]

theorem rank?_ofCalls : (ofCalls calls).rank? name value = (favouredOn name calls).idxOf? value := by
  rw [rank?_eq_ruleOn, ruleOn_ofCalls]

theorem mem_preferred_ofCalls_iff :
    name ∈ (ofCalls calls).preferred ↔ ∃ value, .favour name value ∈ calls := by
  rw [mem_preferred_iff_ruleOn, ruleOn_ofCalls]
  constructor
  · intro some
    obtain ⟨value, mem⟩ := List.exists_mem_of_ne_nil _ some
    exact ⟨value, mem_favouredOn_iff.1 mem⟩
  · rintro ⟨value, mem⟩
    exact List.ne_nil_of_mem (mem_favouredOn_iff.2 mem)

/-- Other calls in another order, but each attribute's preferences in the same one. -/
def Reordered (calls calls' : List Call) : Prop :=
  calls.Perm calls' ∧ ∀ name, favouredOn name calls = favouredOn name calls'

/-- **What a schema answers is determined by its declarations**, however they are interleaved.
Values are accepted if some call says so, a value's rank is its first place among the values
preferred for that attribute alone, and the preferred attributes are those with such a value, in
ascending order. -/
theorem answers_of_calls (calls : List Call) :
    (∀ name consumer producer, (ofCalls calls).accepts name consumer producer = true ↔
      consumer = producer ∨ .allow name consumer producer ∈ calls) ∧
    (∀ name value,
      (ofCalls calls).rank? name value = (favouredOn name calls).idxOf? value ∧
      ((ofCalls calls).rank? name value = none ↔ .favour name value ∉ calls)) ∧
    ((ofCalls calls).preferred.Pairwise (· < ·) ∧
      ∀ name, name ∈ (ofCalls calls).preferred ↔ ∃ value, .favour name value ∈ calls) ∧
    ∀ calls', Reordered calls calls' →
      (∀ name consumer producer, (ofCalls calls).accepts name consumer producer =
        (ofCalls calls').accepts name consumer producer) ∧
      (∀ name value, (ofCalls calls).rank? name value = (ofCalls calls').rank? name value) ∧
      (ofCalls calls).preferred = (ofCalls calls').preferred := by
  refine ⟨fun _ _ _ => accepts_ofCalls_iff, fun name value => ⟨rank?_ofCalls, ?_⟩,
    ⟨Matching.preferred_ascending _, fun _ => mem_preferred_ofCalls_iff⟩, ?_⟩
  · rw [rank?_ofCalls, List.idxOf?_eq_none_iff, mem_favouredOn_iff]
  · rintro calls' ⟨perm, order⟩
    refine ⟨fun name consumer producer => ?_, fun name value => ?_, ?_⟩
    · rw [Bool.eq_iff_iff, accepts_ofCalls_iff, accepts_ofCalls_iff, perm.mem_iff]
    · rw [rank?_ofCalls, rank?_ofCalls, order]
    · apply (Matching.preferred_ascending _).eq_of_mem_iff (Matching.preferred_ascending _)
      intro name
      simp only [mem_preferred_ofCalls_iff, perm.mem_iff]

namespace Example

/-- Calls for two attributes in turn; a value is preferred twice. -/
def interleaved : List Call :=
  [.favour "format" "jar", .allow "usage" "api" "runtime", .favour "usage" "runtime",
    .favour "format" "classes", .favour "usage" "api", .allow "status" "release" "milestone",
    .favour "format" "jar"]

def grouped : List Call :=
  [.allow "status" "release" "milestone", .favour "usage" "runtime", .favour "usage" "api",
    .allow "usage" "api" "runtime", .favour "format" "jar", .favour "format" "classes",
    .favour "format" "jar"]

end Example

open Example in
theorem answers_of_calls_interleaved :
    Reordered interleaved grouped ∧
    (ofCalls interleaved).rank? "format" "classes" = (ofCalls grouped).rank? "format" "classes" ∧
    (ofCalls interleaved).rank? "format" "classes" = some 1 ∧
    (ofCalls grouped).preferred = ["format", "usage"] := by
  have reordered : Reordered interleaved grouped := by
    refine ⟨by decide, fun name => ?_⟩
    by_cases format : "format" = name
    · simp [favouredOn, interleaved, grouped, ← format]
    · by_cases usage : "usage" = name <;>
        simp [favouredOn, interleaved, grouped, format, usage]
  obtain ⟨-, rank, preferred⟩ := (answers_of_calls interleaved).2.2.2 grouped reordered
  exact ⟨reordered, rank "format" "classes", by decide, preferred ▸ by decide⟩

end EdgeResolution.Schema
