/-
# EdgeResolution.Ancestry -- selected configurations with everything they extend

`Component.expand` lists configurations together with all their ancestors in the
target.  The configurations are listed as they are given, and their ancestors as the
target holds them.  The walk goes to the parents of a configuration before it lists
it, so ancestors come first; each name is listed once.  A name whose own walk is
still open is on a cycle of extensions and is passed over there.  The walk stops at
the first name the target does not have.

Walking into the parents of a name opens a name of the target that was not open
before, and walking on leaves fewer names to do: this is why the walk ends,
whatever the cycles.
-/
import EdgeResolution.Component

namespace EdgeResolution

set_option autoImplicit false

namespace Component

/-- How many names of the target have no open walk. -/
def closedCount (t : Component) (opened : List String) : Nat :=
  (t.configurations.keys.filter fun name => !opened.contains name).length

theorem closedCount_lt {t : Component} {opened : List String} {name : String}
    (held : (t.configuration? name).isSome) (fresh : name ∉ opened) :
    t.closedCount (name :: opened) < t.closedCount opened := by
  have member : name ∈ t.configurations.keys := (t.configurations.mem_keys_iff name).2 held
  have narrower : ∀ names : List String,
      (names.filter fun n => !(name :: opened).contains n) =
        (names.filter fun n => !opened.contains n).filter fun n => n != name := by
    intro names
    rw [List.filter_filter]
    refine List.filter_congr fun n _ => ?_
    by_cases h : n = name <;> simp [h]
  rw [closedCount, closedCount, narrower]
  exact List.length_filter_lt_length_iff_exists.2 ⟨name, by simp [member, fresh], by simp⟩

/-- Walk the names `todo`, of which the names `opened` have an open walk and the
configurations `done` are listed.  An error is a name that the target does not have. -/
def walk (t : Component) (opened : List String) (todo : List String) (done : List Configuration) :
    Except String (List Configuration) :=
  match todo with
  | [] => .ok done
  | name :: rest =>
      match found : t.configuration? name with
      | none => .error name
      | some c =>
          if known : name ∈ opened ∨ name ∈ done.map (·.name) then walk t opened rest done
          else
            have : t.closedCount (name :: opened) < t.closedCount opened :=
              closedCount_lt (by simp [found]) (fun h => known (Or.inl h))
            do
              let ancestors ← walk t (name :: opened) c.parents done
              walk t opened rest (ancestors ++ [c])
  termination_by (t.closedCount opened, todo.length)

/-- List a configuration after its ancestors, unless its name is listed already. -/
def expandOne (t : Component) (done : List Configuration) (c : Configuration) :
    Except String (List Configuration) :=
  if c.name ∈ done.map (·.name) then .ok done
  else (t.walk [c.name] c.parents done).map fun ancestors => ancestors ++ [c]

/-- Configurations of the target with all their ancestors, ancestors first. -/
def expand (t : Component) (selected : List Configuration) : Except String (List Configuration) :=
  selected.foldlM t.expandOne []

/-- Two configurations that extend each other: the cycle is entered once. -/
example :
    let a := (Configuration.named "a").extend ["b"]
    let b := (Configuration.named "b").extend ["a", "c"]
    let c := Configuration.named "c"
    let t := (((empty (.project ⟨":", ":p"⟩) .project).addConfiguration a).addConfiguration
      b).addConfiguration c
    t.expand [a] = .ok [c, b, a] := by cbv

end Component
end EdgeResolution
