/-
# EdgeResolution.Proofs.Matching.Optimum -- a match is a lexicographic optimum

The choice among variants drops candidates in several passes.  Here it is one
comparison of keys: how many attributes a candidate offers with the very value
asked for, the more the better, and then, for each attribute with preferences in
ascending order, the place of its value among them, the lower the better and no
place the worst (`key`).  `passes_eq_leastBy_key` is the equality of the two, and
`select_eq_verdict` says that the shortcuts for few candidates do not show;
`select_lexicographic_optimum` is what it means for the three outcomes.

The candidates, the number of exact values and the places are stated of the
attribute sets and of the lists in the schema's rules, not through the passes nor
through what the schema computes from its rules: a value goes with an equal one and
with those it is paired with, and its place is its position among the preferred ones.
`accepts_eq_true_iff` and `place_eq_rank?` say that the schema computes just these.
-/
import EdgeResolution.Matching
import EdgeResolution.Proofs.Matching.Least
import Mathlib.Data.Prod.Lex
import Mathlib.Order.WithBot

namespace EdgeResolution.Matching

set_option autoImplicit false

variable (schema : Schema) (consumer : Attributes)

/-! ## Candidates and their keys -/

/-- Every value that the variant offers for an attribute asked for is the one asked for, or
the attribute's rule pairs the two. -/
def Fits (v : Configuration) : Prop :=
  ∀ name wanted, consumer.get? name = some wanted →
    ∀ offered, v.attributes.get? name = some offered →
      wanted = offered ∨
        ∃ rule, schema.get? name = some rule ∧ (wanted, offered) ∈ rule.compatible

/-- How many attributes the variant offers with the very value that is asked for. -/
def exactlyMatched (v : Configuration) : Nat :=
  (consumer.keys.filter fun name => v.attributes.get? name = consumer.get? name).length

/-- Where the variant's value stands among the preferred ones of the attribute's rule; `⊤` when
it does not stand there. -/
def place (v : Configuration) (name : String) : WithTop Nat :=
  match schema.get? name, v.attributes.get? name with
  | some rule, some offered =>
      if offered ∈ rule.prefer then WithTop.some (rule.prefer.idxOf offered) else ⊤
  | _, _ => ⊤

theorem mem_preferred_iff {name : String} :
    name ∈ schema.preferred ↔ ∃ rule, schema.get? name = some rule ∧ rule.prefer ≠ [] := by
  rw [Schema.preferred, List.mem_map]
  constructor
  · rintro ⟨⟨n, rule⟩, mem, rfl⟩
    obtain ⟨held, some⟩ := List.mem_filter.1 mem
    exact ⟨rule, schema.get?_eq_some_iff.2 held, by simpa using some⟩
  · rintro ⟨rule, found, some⟩
    have held : (name, rule) ∈ schema.entries := schema.get?_eq_some_iff.1 found
    exact ⟨(name, rule), List.mem_filter.2 ⟨held, by simpa using some⟩, rfl⟩

theorem preferred_ascending : schema.preferred.Pairwise (· < ·) := by
  rw [Schema.preferred, List.pairwise_map]
  exact schema.ascending.filter _

/-- What candidates are compared by; the least key is the best. -/
abbrev Key : Type := Natᵒᵈ ×ₗ List (WithTop Nat)

def key (v : Configuration) : Key :=
  toLex (OrderDual.toDual (exactlyMatched consumer v), schema.preferred.map (place schema v))

theorem accepts_eq_true_iff {name wanted offered : String} :
    schema.accepts name wanted offered = true ↔
      wanted = offered ∨
        ∃ rule, schema.get? name = some rule ∧ (wanted, offered) ∈ rule.compatible := by
  rw [Schema.accepts, Bool.or_eq_true, beq_iff_eq, Option.any_eq_true]
  simp only [List.contains_iff_mem]

theorem isCompatible_iff (v : Configuration) :
    isCompatible schema consumer v.attributes = true ↔ Fits schema consumer v := by
  simp only [isCompatible, List.all_eq_true, Option.all_eq_true, Fits, accepts_eq_true_iff]
  constructor
  · intro all name wanted asked offered found
    exact all (name, wanted) ((consumer.get?_eq_some_iff).1 asked) offered found
  · intro fits e mem offered found
    exact fits e.1 e.2 ((consumer.get?_eq_some_iff).2 mem) offered found

instance : DecidablePred (Fits schema consumer) := fun v =>
  decidable_of_iff _ (isCompatible_iff schema consumer v)

/-- The variants that fit, in order of declaration. -/
def candidates (variants : List Configuration) : List Configuration :=
  variants.filter fun v => decide (Fits schema consumer v)

theorem exactCount_eq_exactlyMatched (v : Configuration) :
    exactCount consumer v.attributes = exactlyMatched consumer v := by
  rw [exactCount, exactlyMatched, NameMap.keys, List.filter_map, List.length_map,
    List.countP_eq_length_filter]
  refine congrArg List.length (List.filter_congr fun e mem => ?_)
  have asked : consumer.get? e.1 = some e.2 := (consumer.get?_eq_some_iff).2 mem
  simp [asked, Bool.beq_eq_decide_eq]

/-- The rank that the schema computes is the place. -/
theorem place_eq_rank? (v : Configuration) (name : String) :
    place schema v name =
      match rank? schema name v with
      | none => ⊤
      | some rank => WithTop.some rank := by
  rw [place, rank?]
  cases offers : v.attributes.get? name with
  | none => cases schema.get? name <;> rfl
  | some offered =>
      cases rules : schema.get? name with
      | none => simp [Schema.rank?, rules]
      | some rule =>
          simp only [Option.bind_some, Schema.rank?, rules]
          cases ranked : rule.prefer.idxOf? offered with
          | none => rw [if_neg (List.idxOf?_eq_none_iff.1 ranked)]
          | some rank =>
              have listed : offered ∈ rule.prefer := by
                by_contra absent
                rw [List.idxOf?_eq_none_iff.2 absent] at ranked
                cases ranked
              rw [if_pos listed, List.idxOf_eq_getD_idxOf?, ranked, Option.getD_some]

theorem place_eq_top_iff {v : Configuration} {name : String} :
    place schema v name = ⊤ ↔ rank? schema name v = none := by
  rw [place_eq_rank?]
  cases rank? schema name v <;> simp

theorem place_eq_coe_iff {v : Configuration} {name : String} {rank : Nat} :
    place schema v name = WithTop.some rank ↔ rank? schema name v = some rank := by
  rw [place_eq_rank?]
  cases rank? schema name v <;> simp

/-! ## The passes -/

theorem keepMostExact_eq_leastBy (variants : List Configuration) :
    keepMostExact consumer variants =
      leastBy (fun v => OrderDual.toDual (exactlyMatched consumer v)) variants := by
  rw [keepMostExact, leastBy]
  refine List.filter_congr fun v memV => ?_
  -- some variant has the greatest count, because `v` is one of them
  obtain ⟨most, found⟩ : ∃ most, (variants.map (exactlyMatched consumer)).max? = some most := by
    refine Option.ne_none_iff_exists'.1 fun none => ?_
    rw [List.max?_eq_none_iff, List.map_eq_nil_iff] at none
    subst none
    cases memV
  obtain ⟨mem, greatest⟩ := List.max?_eq_some_iff.1 found
  obtain ⟨top, inVariants, rfl⟩ := List.mem_map.1 mem
  have upper : ∀ w ∈ variants, exactlyMatched consumer w ≤ exactlyMatched consumer top :=
    fun w memW => greatest _ (List.mem_map_of_mem memW)
  simp only [exactCount_eq_exactlyMatched, found]
  rw [Option.getD_some, Bool.beq_eq_decide_eq, decide_eq_decide]
  constructor
  · intro same w memW
    rw [OrderDual.toDual_le_toDual, same]
    exact upper w memW
  · intro least
    exact Nat.le_antisymm (upper v memV) (OrderDual.toDual_le_toDual.1 (least top inVariants))

theorem keepMostPreferred_eq_leastBy (variants : List Configuration) (name : String) :
    keepMostPreferred schema variants name = leastBy (place schema · name) variants := by
  rw [keepMostPreferred]
  split
  · next noRank =>
      have unranked : ∀ v ∈ variants, place schema v name = ⊤ := by
        intro v mem
        have all : ∀ w ∈ variants, rank? schema name w = none := by simpa using noRank
        exact (place_eq_top_iff schema).2 (all v mem)
      rw [leastBy, eq_comm, List.filter_eq_self]
      intro v mem
      refine decide_eq_true fun w memW => ?_
      rw [unranked w memW]
      exact le_top
  · next best found =>
      obtain ⟨mem, least⟩ := List.min?_eq_some_iff.1 found
      obtain ⟨top, inVariants, ranked⟩ := List.mem_filterMap.1 mem
      have bestIsLeast : ∀ w ∈ variants, WithTop.some best ≤ place schema w name := by
        intro w memW
        cases rankedW : rank? schema name w with
        | none =>
            rw [(place_eq_top_iff schema).2 rankedW]
            exact le_top
        | some rank =>
            rw [(place_eq_coe_iff schema).2 rankedW]
            exact WithTop.coe_le_coe.2 (least rank (List.mem_filterMap.2 ⟨w, memW, rankedW⟩))
      rw [leastBy]
      refine List.filter_congr fun v memV => ?_
      rw [Bool.beq_eq_decide_eq, decide_eq_decide, ← place_eq_coe_iff schema]
      constructor
      · intro same w memW
        rw [same]
        exact bestIsLeast w memW
      · intro leastV
        refine le_antisymm ?_ (bestIsLeast v memV)
        rw [← (place_eq_coe_iff schema).2 ranked]
        exact leastV top inVariants

/-- A single variant is the most preferred one, so stopping there changes nothing. -/
theorem narrow_eq_leastBy (names : List String) (variants : List Configuration) :
    narrow schema names variants = leastBy (fun v => names.map (place schema v)) variants := by
  induction names generalizing variants with
  | nil => exact (leastBy_const _ variants).symm
  | cons name names ih =>
      rw [narrow]
      split
      · next single =>
          obtain ⟨v, rfl⟩ := List.length_eq_one_iff.1 single
          exact (leastBy_singleton _ v).symm
      · rw [ih, keepMostPreferred_eq_leastBy]
        exact leastBy_leastBy variants fun v w => cons_le_cons_iff

/-- All passes together keep the variants with the best key. -/
theorem passes_eq_leastBy_key (variants : List Configuration) :
    narrow schema schema.preferred (keepMostExact consumer variants) =
      leastBy (key schema consumer) variants := by
  rw [keepMostExact_eq_leastBy, narrow_eq_leastBy]
  exact leastBy_leastBy variants fun v w => Prod.Lex.toLex_le_toLex

/-! ## The outcomes -/

/-- What the candidates with the best key decide. -/
def verdict : List Configuration → Except Mismatch Configuration
  | [] => .error .noneCompatible
  | [v] => .ok v
  | tied => .error (.tie (tied.map (·.name)))

theorem verdict_eq_noneCompatible_iff (best : List Configuration) :
    verdict best = .error .noneCompatible ↔ best = [] := by
  unfold verdict
  split <;> simp_all

theorem verdict_eq_ok_iff (best : List Configuration) (v : Configuration) :
    verdict best = .ok v ↔ best = [v] := by
  unfold verdict
  split <;> simp_all

theorem verdict_eq_tie_iff (best : List Configuration) (names : List String) :
    verdict best = .error (.tie names) ↔ 2 ≤ best.length ∧ names = best.map (·.name) := by
  cases best with
  | nil => simp [verdict]
  | cons v rest =>
      cases rest with
      | nil => simp [verdict]
      | cons w rest => simp [verdict, eq_comm]

theorem select_eq_verdict (variants : List Configuration) :
    select schema consumer variants =
      verdict (leastBy (key schema consumer) (candidates schema consumer variants)) := by
  have kept : (variants.filter fun v => isCompatible schema consumer v.attributes) =
      candidates schema consumer variants := by
    refine List.filter_congr fun v _ => ?_
    rw [Bool.eq_iff_iff, isCompatible_iff, decide_eq_true_iff]
  rw [select, kept]
  cases fitting : candidates schema consumer variants with
  | nil => rfl
  | cons v others =>
      cases others with
      | nil => rw [leastBy_singleton, verdict]
      | cons w others =>
          have someBest : leastBy (key schema consumer) (v :: w :: others) ≠ [] := by
            intro none
            cases leastBy_eq_nil_iff.1 none
          change disambiguate schema consumer (v :: w :: others) = _
          rw [disambiguate, passes_eq_leastBy_key]
          cases best : leastBy (key schema consumer) (v :: w :: others) with
          | nil => exact absurd best someBest
          | cons first tied => cases tied <;> rfl

theorem select_eq_noneCompatible_iff (variants : List Configuration) :
    select schema consumer variants = .error .noneCompatible ↔
      candidates schema consumer variants = [] := by
  rw [select_eq_verdict, verdict_eq_noneCompatible_iff]
  exact leastBy_eq_nil_iff

theorem select_eq_ok_iff (variants : List Configuration) (v : Configuration) :
    select schema consumer variants = .ok v ↔
      ∃ before after, candidates schema consumer variants = before ++ v :: after ∧
        ∀ w ∈ before ++ after, key schema consumer v < key schema consumer w := by
  rw [select_eq_verdict, verdict_eq_ok_iff]
  exact leastBy_eq_singleton_iff

theorem select_eq_tie_iff (variants : List Configuration) (names : List String) :
    select schema consumer variants = .error (.tie names) ↔
      2 ≤ (leastBy (key schema consumer) (candidates schema consumer variants)).length ∧
        names =
          (leastBy (key schema consumer) (candidates schema consumer variants)).map (·.name) := by
  rw [select_eq_verdict]
  exact verdict_eq_tie_iff _ names

/-- **A match is a lexicographic optimum**: nothing when no variant fits, the candidate whose key
is strictly the best when there is one, and else all that share the best key, at least two.  The
places in a key are those of the attributes with preferences, by ascending names. -/
theorem select_lexicographic_optimum (target : Component) :
    ((∀ name, name ∈ schema.preferred ↔
        ∃ rule, schema.get? name = some rule ∧ rule.prefer ≠ []) ∧
      schema.preferred.Pairwise (· < ·)) ∧
    (select schema consumer target.variants = .error .noneCompatible ↔
      candidates schema consumer target.variants = []) ∧
    (∀ v, select schema consumer target.variants = .ok v ↔
      ∃ before after, candidates schema consumer target.variants = before ++ v :: after ∧
        ∀ w ∈ before ++ after, key schema consumer v < key schema consumer w) ∧
    (∀ names, select schema consumer target.variants = .error (.tie names) ↔
      2 ≤ (leastBy (key schema consumer) (candidates schema consumer target.variants)).length ∧
        names = (leastBy (key schema consumer)
          (candidates schema consumer target.variants)).map (·.name)) := by
  refine ⟨⟨?_, preferred_ascending schema⟩, ?_, ?_, ?_⟩
  · intro name
    exact mem_preferred_iff schema
  · exact select_eq_noneCompatible_iff schema consumer target.variants
  · exact select_eq_ok_iff schema consumer target.variants
  · exact select_eq_tie_iff schema consumer target.variants

/-- A value that is asked for counts before a preferred one. -/
example :
    let offering (usage : String) :=
      (Configuration.named usage).withAttributes (NameMap.ofList [("usage", usage)])
    let schema := (Schema.allow NameMap.empty "usage" "api" "runtime").favour "usage" "runtime"
    select schema (NameMap.ofList [("usage", "api")]) [offering "runtime", offering "api"] =
      .ok (offering "api") := by cbv

end EdgeResolution.Matching
