/-
# EdgeResolution.Proofs.Ancestry.Composition -- one selection expanded after another

To expand two lists of configurations is to expand the first, and then the second on
top of what is listed.  What a finished walk has listed is closed under parents, so
a later walk passes over it: it opens the same names in the same order as it would
alone, less those that are listed already, and stops at the same absent name
(`Listing.walk_onTop`).

`Requester.expand_composes` says this of the expansions of configurations that the
target holds.  No more is asked of it: extensions may run in cycles, and parents may
be absent.
-/
import EdgeResolution.Proofs.Ancestry.Expansion

namespace EdgeResolution

set_option autoImplicit false

namespace Component

variable {t : Component} {opened todo more : List String} {name : String}
  {old done listed selected selected' : List Configuration}

/-! ## Walking on top of a listing -/

/-- Held names that are open or listed add nothing. -/
theorem walk_of_known
    (known : ∀ n ∈ todo, Known opened done n ∧ ∃ c, t.configuration? n = some c) :
    t.walk opened todo done = .ok done := by
  induction todo with
  | nil => rw [walk]
  | cons n rest ih =>
      obtain ⟨knownN, c, held⟩ := known n List.mem_cons_self
      rw [walk_pass knownN held]
      exact ih fun m mem => known m (List.mem_cons_of_mem _ mem)

/-- The listed configurations that are not in `old`, in order. -/
def newTo (old listed : List Configuration) : List Configuration :=
  listed.filter fun c => c.name ∉ old.map (·.name)

theorem newTo_concat_of_mem {c : Configuration} (mem : c.name ∈ old.map (·.name)) :
    newTo old (listed ++ [c]) = newTo old listed := by
  simpa [newTo, List.filter_append] using mem

theorem newTo_concat_of_not_mem {c : Configuration} (fresh : c.name ∉ old.map (·.name)) :
    newTo old (listed ++ [c]) = newTo old listed ++ [c] := by
  simpa [newTo, List.filter_append] using fresh

theorem Known.of_mem_left (inOld : name ∈ old.map (·.name)) :
    Known opened (old ++ listed) name :=
  Or.inr (by rw [List.map_append]; exact List.mem_append_left _ inOld)

/-- What is known to a walk is known to the same walk on top of `old`. -/
theorem Known.onTop (known : Known opened done name) :
    Known (opened.filter (· ∉ old.map (·.name))) (old ++ newTo old done) name := by
  by_cases inOld : name ∈ old.map (·.name)
  · exact .of_mem_left inOld
  · rcases known with stillOpen | inDone
    · exact Or.inl (List.mem_filter.2 ⟨stillOpen, by simpa using inOld⟩)
    · obtain ⟨d, mem, rfl⟩ := List.mem_map.1 inDone
      have kept : d ∈ newTo old done := List.mem_filter.2 ⟨mem, by simpa using inOld⟩
      exact Or.inr (List.mem_map_of_mem (List.mem_append_right _ kept))

/-- A name outside `old` that is known on top of it is known to the walk alone. -/
theorem Known.of_onTop (outside : name ∉ old.map (·.name))
    (known : Known (opened.filter (· ∉ old.map (·.name))) (old ++ newTo old done) name) :
    Known opened done name := by
  rcases known with stillOpen | listedName
  · exact Or.inl (List.mem_filter.1 stillOpen).1
  · rw [List.map_append] at listedName
    rcases List.mem_append.1 listedName with inOld | inNew
    · exact absurd inOld outside
    · obtain ⟨d, kept, rfl⟩ := List.mem_map.1 inNew
      exact Or.inr (List.mem_map_of_mem (List.mem_filter.1 kept).1)

/-- On top of a finished listing the parents of what is listed there add nothing. -/
theorem Listing.walk_parents (state : t.Listing [] old) {c : Configuration}
    (held : t.configuration? c.name = some c) (inOld : c.name ∈ old.map (·.name)) :
    t.walk opened c.parents (old ++ listed) = .ok (old ++ listed) := by
  refine walk_of_known fun parent declared => ?_
  have step : t.Reaches c.name parent := Relation.ReflTransGen.single ⟨c, held, declared⟩
  have inListed : parent ∈ old.map (·.name) := state.mem_of_reaches step inOld
  obtain ⟨p, mem, rfl⟩ := List.mem_map.1 inListed
  exact ⟨.of_mem_left inListed, p, state.held p mem⟩

/-- On top of a finished listing a walk does what it does alone, less what is listed there. -/
theorem Listing.walk_onTop (state : t.Listing [] old) (opened todo : List String)
    (done : List Configuration) :
    t.walk (opened.filter (· ∉ old.map (·.name))) todo (old ++ newTo old done) =
      (t.walk opened todo done).map fun listed => old ++ newTo old listed := by
  fun_induction walk t opened todo done with
  | case1 => rw [walk]; rfl
  | case2 opened done name rest absent => exact walk_absent absent
  | case3 opened done name rest c held known ih => rw [walk_pass (Known.onTop known) held, ih]
  | case4 opened done name rest c held fresh _ ihInside ihAfter =>
      obtain rfl : c.name = name := name_of_configuration? held
      by_cases inOld : c.name ∈ old.map (·.name)
      · -- alone, the walk enters a name of `old`: all that it lists there is in `old` too
        rw [state.walk_parents held inOld] at ihInside
        cases inside : t.walk (c.name :: opened) c.parents done with
        | error missing =>
            rw [inside] at ihInside
            cases ihInside
        | ok ancestors =>
            rw [inside] at ihInside
            have nothingNew : newTo old done = newTo old ancestors := by
              simpa [Except.map] using ihInside
            rw [walk_pass (.of_mem_left inOld) held, nothingNew, ← newTo_concat_of_mem inOld]
            exact ihAfter ancestors
      · have freshThere : ¬ Known (opened.filter (· ∉ old.map (·.name)))
            (old ++ newTo old done) c.name := fun known => fresh (known.of_onTop inOld)
        have openedThere : (c.name :: opened).filter (· ∉ old.map (·.name)) =
            c.name :: opened.filter (· ∉ old.map (·.name)) :=
          List.filter_cons_of_pos (by simpa using inOld)
        rw [walk_enter freshThere held, ← openedThere, ihInside]
        cases inside : t.walk (c.name :: opened) c.parents done with
        | error missing => rfl
        | ok ancestors =>
            have grown : old ++ newTo old ancestors ++ [c] =
                old ++ newTo old (ancestors ++ [c]) := by
              rw [newTo_concat_of_not_mem inOld, List.append_assoc]
            show t.walk _ rest (old ++ newTo old ancestors ++ [c]) = _
            rw [grown]
            exact ihAfter ancestors

theorem expand_append (held : t.Holds selected) (held' : t.Holds selected') :
    t.expand (selected ++ selected') = (t.expand selected).bind fun first =>
      (t.expand selected').map fun second => first ++ newTo first second := by
  have inTurn : t.expand (selected ++ selected') =
      (t.expand selected).bind fun first => selected'.foldlM t.expandOne first :=
    List.foldlM_append
  rw [inTurn]
  cases ok : t.expand selected with
  | error missing => rfl
  | ok first =>
      have onTop := (listing_of_expand_eq_ok held ok).walk_onTop [] (selected'.map (·.name)) []
      have start : first ++ newTo first [] = first := List.append_nil first
      rw [start] at onTop
      show selected'.foldlM t.expandOne first = _
      rw [foldlM_expandOne_eq_walk held', expand_eq_walk held']
      exact onTop

end Component

namespace Requester

open Component

variable {r : Requester} {t : Component}

/-- **Expansions compose.** -/
theorem expand_composes (r : Requester) (t : Component) (selected selected' : List Configuration)
    (held : ∀ c ∈ selected, t.configuration? c.name = some c)
    (held' : ∀ c ∈ selected', t.configuration? c.name = some c) :
    (∀ f, r.expand t selected = .error f → r.expand t (selected ++ selected') = .error f) ∧
    (∀ first f, r.expand t selected = .ok first → r.expand t selected' = .error f →
      r.expand t (selected ++ selected') = .error f) ∧
    (∀ first second, r.expand t selected = .ok first → r.expand t selected' = .ok second →
      r.expand t (selected ++ selected') =
        .ok (first ++ second.filter fun c => c.name ∉ first.map (·.name))) := by
  refine ⟨?_, ?_, ?_⟩
  · intro f failed
    obtain ⟨missing, stopped, rfl⟩ := expand_eq_error_iff.1 failed
    refine expand_eq_error_iff.2 ⟨missing, ?_, rfl⟩
    rw [expand_append held held', stopped]
    rfl
  · intro first f ok failed
    obtain ⟨missing, stopped, rfl⟩ := expand_eq_error_iff.1 failed
    refine expand_eq_error_iff.2 ⟨missing, ?_, rfl⟩
    rw [expand_append held held', expand_eq_ok_iff.1 ok, stopped]
    rfl
  · intro first second ok ok'
    refine expand_eq_ok_iff.2 ?_
    rw [expand_append held held', expand_eq_ok_iff.1 ok, expand_eq_ok_iff.1 ok']
    rfl

namespace Example

/-- One configuration that is whole, and two that extend different absent ones. -/
def frayed : Component :=
  target [extending "whole" [], extending "left" ["whole", "first"], extending "right" ["second"]]

end Example

open Example in
/-- Alone, `a` would list `b` between the ancestors that it shares with `c`. -/
theorem expand_composes_knot :
    app.expand knot ([extending "c" ["d"]] ++ [extending "a" ["b", "c"]]) =
      .ok [extending "d" [], extending "c" ["d"], extending "b" ["a", "d"],
        extending "a" ["b", "c"]] ∧
    app.expand frayed ([extending "whole" []] ++ [extending "left" ["whole", "first"]]) =
      .error (app.missing frayed "first") ∧
    app.expand frayed ([extending "right" ["second"]] ++ [extending "left" ["whole", "first"]]) =
      .error (app.missing frayed "second") := by
  have shared : app.expand knot [extending "c" ["d"]] =
      .ok [extending "d" [], extending "c" ["d"]] := expand_eq_ok_iff.2 (by cbv)
  have round : app.expand knot [extending "a" ["b", "c"]] =
      .ok [extending "d" [], extending "b" ["a", "d"], extending "c" ["d"],
        extending "a" ["b", "c"]] := expand_eq_ok_iff.2 (by cbv)
  have whole : app.expand frayed [extending "whole" []] = .ok [extending "whole" []] :=
    expand_eq_ok_iff.2 (by cbv)
  have left : app.expand frayed [extending "left" ["whole", "first"]] =
      .error (app.missing frayed "first") := expand_eq_error_iff.2 ⟨"first", by cbv, rfl⟩
  have right : app.expand frayed [extending "right" ["second"]] =
      .error (app.missing frayed "second") := expand_eq_error_iff.2 ⟨"second", by cbv, rfl⟩
  have heldC : ∀ c ∈ [extending "c" ["d"]], knot.configuration? c.name = some c :=
    List.forall_mem_singleton.2 (by cbv)
  have heldA : ∀ c ∈ [extending "a" ["b", "c"]], knot.configuration? c.name = some c :=
    List.forall_mem_singleton.2 (by cbv)
  have heldWhole : ∀ c ∈ [extending "whole" []], frayed.configuration? c.name = some c :=
    List.forall_mem_singleton.2 (by cbv)
  have heldLeft : ∀ c ∈ [extending "left" ["whole", "first"]],
      frayed.configuration? c.name = some c := List.forall_mem_singleton.2 (by cbv)
  have heldRight : ∀ c ∈ [extending "right" ["second"]], frayed.configuration? c.name = some c :=
    List.forall_mem_singleton.2 (by cbv)
  exact ⟨(expand_composes app knot _ _ heldC heldA).2.2 _ _ shared round,
    (expand_composes app frayed _ _ heldWhole heldLeft).2.1 _ _ whole left,
    (expand_composes app frayed _ _ heldRight heldLeft).1 _ right⟩

end Requester
end EdgeResolution
