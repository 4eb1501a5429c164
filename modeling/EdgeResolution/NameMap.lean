/-
# EdgeResolution.NameMap -- finite maps from names, in one canonical form

Attribute sets, schemas, the configurations of a component and the mappings of a
declaration are all finite maps whose keys are names.  A `NameMap` keeps its
entries in strictly ascending code point order of the name, so there is one
value per map and equality of values is equality of lookups:

* `get?_upsert`: writing at a name changes the lookup of that name only;
* `get?_merged`: in a merge the later map wins;
* `get?_ofList`: of several pairs with one name the last one counts;
* `ext`: two maps that answer every lookup alike are equal.
-/

namespace EdgeResolution

set_option autoImplicit false

/-- Entries in strictly ascending order of their names. -/
structure NameMap (α : Type) where
  entries : List (String × α)
  ascending : entries.Pairwise (fun a b => a.1 < b.1)
  deriving DecidableEq

namespace NameMap

variable {α : Type}

/-! ## Entry lists -/

namespace Entries

/-- The value of the first entry with this name. -/
def get? (name : String) : List (String × α) → Option α
  | [] => none
  | (n, v) :: rest => if n = name then some v else get? name rest

/-- Put `f` of the present value at `name`, keeping the order of names. -/
def upsert (name : String) (f : Option α → α) : List (String × α) → List (String × α)
  | [] => [(name, f none)]
  | (n, v) :: rest =>
      if name < n then (name, f none) :: (n, v) :: rest
      else if n = name then (n, f (some v)) :: rest
      else (n, v) :: upsert name f rest

theorem get?_isSome_iff (name : String) (es : List (String × α)) :
    (get? name es).isSome ↔ name ∈ es.map (·.1) := by
  induction es with
  | nil => simp [get?]
  | cons e rest ih =>
      obtain ⟨n, v⟩ := e
      by_cases h : n = name
      · simp [get?, h]
      · simp [get?, h, ih, Ne.symm h]

theorem mem_of_get? {name : String} {v : α} {es : List (String × α)}
    (found : get? name es = some v) : (name, v) ∈ es := by
  induction es with
  | nil => simp [get?] at found
  | cons e rest ih =>
      obtain ⟨n, w⟩ := e
      by_cases h : n = name
      · simp only [get?, h, if_true, Option.some.injEq] at found
        simp [h, found]
      · simp only [get?, h, if_false] at found
        exact List.mem_cons_of_mem _ (ih found)

theorem get?_eq_none {name : String} {es : List (String × α)} (absent : ∀ e ∈ es, e.1 ≠ name) :
    get? name es = none := by
  cases found : get? name es with
  | none => rfl
  | some v => exact absurd rfl (absent _ (mem_of_get? found))

/-- Names below every name of the list are absent from it. -/
theorem get?_eq_none_of_lt {name : String} {es : List (String × α)}
    (below : ∀ e ∈ es, name < e.1) : get? name es = none :=
  get?_eq_none fun e mem same => String.lt_irrefl name (same ▸ below e mem)

/-- Ascending entries name each key once, so every entry is found. -/
theorem get?_of_mem {e : String × α} {es : List (String × α)}
    (sorted : es.Pairwise (fun a b => a.1 < b.1)) (mem : e ∈ es) : get? e.1 es = some e.2 := by
  induction es with
  | nil => cases mem
  | cons d rest ih =>
      have below := (List.pairwise_cons.1 sorted).1
      rcases List.mem_cons.1 mem with rfl | mem
      · simp [get?]
      · have other : d.1 ≠ e.1 := fun same => String.lt_irrefl _ (same ▸ below e mem)
        simp [get?, other, ih (List.pairwise_cons.1 sorted).2 mem]

theorem mem_upsert {name : String} {f : Option α → α} {es : List (String × α)} {e : String × α}
    (h : e ∈ upsert name f es) : e.1 = name ∨ e ∈ es := by
  induction es with
  | nil => simp [upsert] at h; simp [h]
  | cons hd rest ih =>
      obtain ⟨n, v⟩ := hd
      rw [upsert] at h
      split at h
      · rcases List.mem_cons.1 h with h | h
        · exact Or.inl (by rw [h])
        · exact Or.inr h
      · split at h
        · next same =>
            rcases List.mem_cons.1 h with h | h
            · exact Or.inl (by rw [h]; exact same)
            · exact Or.inr (List.mem_cons_of_mem _ h)
        · rcases List.mem_cons.1 h with h | h
          · exact Or.inr (by simp [h])
          · exact (ih h).imp id (List.mem_cons_of_mem _)

theorem upsert_ascending (name : String) (f : Option α → α) {es : List (String × α)}
    (sorted : es.Pairwise (fun a b => a.1 < b.1)) :
    (upsert name f es).Pairwise (fun a b => a.1 < b.1) := by
  induction es with
  | nil => simp [upsert]
  | cons hd rest ih =>
      obtain ⟨n, v⟩ := hd
      have below := (List.pairwise_cons.1 sorted).1
      have tail := (List.pairwise_cons.1 sorted).2
      rw [upsert]
      split
      · next lt =>
          refine List.pairwise_cons.2 ⟨fun e mem => ?_, sorted⟩
          rcases List.mem_cons.1 mem with rfl | mem
          · exact lt
          · exact String.lt_trans lt (below e mem)
      · next notLt =>
          split
          · exact List.pairwise_cons.2 ⟨fun e mem => below e mem, tail⟩
          · next ne =>
              refine List.pairwise_cons.2 ⟨fun e mem => ?_, ih tail⟩
              rcases mem_upsert mem with same | mem
              · rw [same]
                rcases Decidable.em (n < name) with lt | ge
                · exact lt
                · exact absurd (String.le_antisymm (String.not_lt.1 notLt) (String.not_lt.1 ge)) ne
              · exact below e mem

theorem get?_upsert (name other : String) (f : Option α → α) {es : List (String × α)}
    (sorted : es.Pairwise (fun a b => a.1 < b.1)) :
    get? other (upsert name f es) =
      if other = name then some (f (get? name es)) else get? other es := by
  induction es with
  | nil => simp [upsert, get?, eq_comm]
  | cons hd rest ih =>
      obtain ⟨n, v⟩ := hd
      have below := (List.pairwise_cons.1 sorted).1
      have tail := (List.pairwise_cons.1 sorted).2
      rw [upsert]
      split
      · next lt =>
          have absent : get? name ((n, v) :: rest) = none := by
            refine get?_eq_none_of_lt fun e mem => ?_
            rcases List.mem_cons.1 mem with rfl | mem
            · exact lt
            · exact String.lt_trans lt (below e mem)
          rw [get?]
          by_cases h : other = name
          · simp [h, absent]
          · simp [h, Ne.symm h]
      · split
        · next same =>
            by_cases h : other = name
            · simp [get?, same, h]
            · simp [get?, same, h, Ne.symm h]
        · next ne =>
            by_cases h : other = name
            · subst h; simp [get?, ih tail, ne]
            · by_cases here : n = other
              · simp [get?, here, h]
              · simp [get?, here, h, ih tail]

theorem get?_append (name : String) (es fs : List (String × α)) :
    get? name (es ++ fs) = (get? name es).or (get? name fs) := by
  induction es with
  | nil => rfl
  | cons e rest ih => by_cases h : e.1 = name <;> simp [get?, h, ih]

/-- Ascending entries name each key once, so reading them backwards finds the same. -/
theorem get?_reverse (name : String) {es : List (String × α)}
    (sorted : es.Pairwise (fun a b => a.1 < b.1)) : get? name es.reverse = get? name es := by
  induction es with
  | nil => rfl
  | cons e rest ih =>
      have below := (List.pairwise_cons.1 sorted).1
      rw [List.reverse_cons, get?_append, ih (List.pairwise_cons.1 sorted).2]
      by_cases h : e.1 = name
      · subst h
        simp [get?_eq_none_of_lt below, get?]
      · simp [get?, h]

/-- Entries in ascending order are determined by their lookups. -/
theorem ext_of_ascending {xs ys : List (String × α)}
    (hx : xs.Pairwise (fun a b => a.1 < b.1)) (hy : ys.Pairwise (fun a b => a.1 < b.1))
    (same : ∀ name, get? name xs = get? name ys) : xs = ys := by
  induction xs generalizing ys with
  | nil =>
      cases ys with
      | nil => rfl
      | cons e ys => have := same e.1; simp [get?] at this
  | cons x xs ih =>
      obtain ⟨n, v⟩ := x
      cases ys with
      | nil => have := same n; simp [get?] at this
      | cons y ys =>
          obtain ⟨m, w⟩ := y
          have belowX := (List.pairwise_cons.1 hx).1
          have belowY := (List.pairwise_cons.1 hy).1
          have headX : ∀ e ∈ (n, v) :: xs, n ≤ e.1 := by
            intro e mem
            rcases List.mem_cons.1 mem with rfl | mem
            · exact String.le_refl _
            · exact String.not_lt.1 (String.lt_asymm (belowX e mem))
          have headY : ∀ e ∈ (m, w) :: ys, m ≤ e.1 := by
            intro e mem
            rcases List.mem_cons.1 mem with rfl | mem
            · exact String.le_refl _
            · exact String.not_lt.1 (String.lt_asymm (belowY e mem))
          have inY : (n, v) ∈ (m, w) :: ys := mem_of_get? (by rw [← same]; simp [get?])
          have inX : (m, w) ∈ (n, v) :: xs := mem_of_get? (by rw [same]; simp [get?])
          have names : n = m := String.le_antisymm (headX _ inX) (headY _ inY)
          subst names
          have values : v = w := by have := same n; simpa [get?] using this
          subst values
          refine congrArg _ (ih (List.pairwise_cons.1 hx).2 (List.pairwise_cons.1 hy).2 ?_)
          intro name
          by_cases h : n = name
          · subst h
            rw [get?_eq_none_of_lt belowX, get?_eq_none_of_lt belowY]
          · have := same name
            simpa [get?, h] using this

end Entries

/-! ## Maps -/

def empty : NameMap α := ⟨[], List.Pairwise.nil⟩

def get? (m : NameMap α) (name : String) : Option α := Entries.get? name m.entries

def contains (m : NameMap α) (name : String) : Bool := (m.get? name).isSome

def isEmpty (m : NameMap α) : Bool := m.entries.isEmpty

def size (m : NameMap α) : Nat := m.entries.length

def keys (m : NameMap α) : List String := m.entries.map (·.1)

def values (m : NameMap α) : List α := m.entries.map (·.2)

/-- Put `f` of the present value at `name`. -/
def upsert (m : NameMap α) (name : String) (f : Option α → α) : NameMap α :=
  ⟨Entries.upsert name f m.entries, Entries.upsert_ascending name f m.ascending⟩

def insert (m : NameMap α) (name : String) (value : α) : NameMap α :=
  m.upsert name fun _ => value

/-- Lay a list of pairs over a map, one after the other. -/
def insertMany (m : NameMap α) (pairs : List (String × α)) : NameMap α :=
  pairs.foldl (fun acc p => acc.insert p.1 p.2) m

/-- The map of a list of pairs; of pairs with one name the last one counts. -/
def ofList (pairs : List (String × α)) : NameMap α := empty.insertMany pairs

/-- The map `m` with the entries of `overrides` laid over it. -/
def merged (m overrides : NameMap α) : NameMap α := m.insertMany overrides.entries

@[ext] theorem ext {m k : NameMap α} (same : ∀ name, m.get? name = k.get? name) : m = k := by
  cases m; cases k
  congr
  exact Entries.ext_of_ascending ‹_› ‹_› same

@[simp] theorem get?_empty (name : String) : (empty : NameMap α).get? name = none := rfl

theorem get?_upsert (m : NameMap α) (name other : String) (f : Option α → α) :
    (m.upsert name f).get? other =
      if other = name then some (f (m.get? name)) else m.get? other :=
  Entries.get?_upsert name other f m.ascending

theorem get?_insert (m : NameMap α) (name other : String) (value : α) :
    (m.insert name value).get? other = if other = name then some value else m.get? other :=
  m.get?_upsert name other _

theorem mem_keys_iff (m : NameMap α) (name : String) : name ∈ m.keys ↔ (m.get? name).isSome :=
  (Entries.get?_isSome_iff name m.entries).symm

theorem get?_eq_some_iff (m : NameMap α) {name : String} {v : α} :
    m.get? name = some v ↔ (name, v) ∈ m.entries :=
  ⟨Entries.mem_of_get?, Entries.get?_of_mem m.ascending⟩

theorem length_keys (m : NameMap α) : m.keys.length = m.size := List.length_map _

theorem keys_ascending (m : NameMap α) : m.keys.Pairwise (· < ·) :=
  List.pairwise_map.2 m.ascending

theorem keys_nodup (m : NameMap α) : m.keys.Nodup := by
  apply m.keys_ascending.imp
  rintro a b lt rfl
  exact String.lt_irrefl a lt

/-- The last pair with the name, if there is one, and else what the map held. -/
theorem get?_insertMany (m : NameMap α) (pairs : List (String × α)) (name : String) :
    (m.insertMany pairs).get? name = (Entries.get? name pairs.reverse).or (m.get? name) := by
  induction pairs generalizing m with
  | nil => simp [insertMany, Entries.get?]
  | cons p rest ih =>
      have step : m.insertMany (p :: rest) = (m.insert p.1 p.2).insertMany rest := rfl
      rw [step, ih, get?_insert, List.reverse_cons, Entries.get?_append, Option.or_assoc]
      by_cases h : p.1 = name
      · simp [Entries.get?, h]
      · simp [Entries.get?, h, Ne.symm h]

theorem get?_ofList (pairs : List (String × α)) (name : String) :
    (ofList pairs).get? name = Entries.get? name pairs.reverse := by
  simp [ofList, get?_insertMany]

/-- A map is the map of its entries. -/
theorem ofList_entries (m : NameMap α) : ofList m.entries = m := by
  ext1 name
  rw [get?_ofList, Entries.get?_reverse name m.ascending]
  rfl

theorem get?_merged (m overrides : NameMap α) (name : String) :
    (m.merged overrides).get? name = (overrides.get? name).or (m.get? name) := by
  rw [merged, get?_insertMany, Entries.get?_reverse name overrides.ascending]; rfl

end NameMap
end EdgeResolution
