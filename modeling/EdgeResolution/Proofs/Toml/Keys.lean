/-
# EdgeResolution.Proofs.Toml.Keys -- no table of a document holds a key twice

A key is given at most once in a table, however the table came about and whatever
line it is given on: by an assignment, by the dots of a longer key, by a header, or
inside braces.  `Datum.Distinct` says this of a finished value, `Node.Distinct` and
`Fields.Distinct` of the tables while the document is being read.

* `value_gives`: values are distinct as they are read, by induction on how deep they
  are nested; `Reader.Gives` takes this through the readers they are made of;
* `Fields.Distinct.at?`: changing the table that a path leads to keeps the tables
  on the way distinct, if the change does;
* `Progress.distinct_of_step?`: so does every statement, and hence a whole document.

`distinct_of_read?` is the result for documents.
-/
import EdgeResolution.Proofs.Toml.Reading
import EdgeResolution.Toml.Document
import Mathlib.Data.List.Nodup

namespace EdgeResolution

set_option autoImplicit false

/-- No record in the datum has two fields of one name. -/
inductive Datum.Distinct : Datum → Prop
  | null : Distinct .null
  | boolean (b : Bool) : Distinct (.boolean b)
  | number (literal : String) : Distinct (.number literal)
  | text (s : String) : Distinct (.text s)
  | list {items : List Datum} (each : ∀ d ∈ items, Distinct d) : Distinct (.list items)
  | record {fields : List (String × Datum)} (names : (fields.map (·.1)).Nodup)
      (each : ∀ f ∈ fields, Distinct f.2) : Distinct (.record fields)

theorem Datum.distinct_record_iff {fields : List (String × Datum)} :
    (Datum.record fields).Distinct ↔
      (fields.map (·.1)).Nodup ∧ ∀ f ∈ fields, f.2.Distinct := by
  constructor
  · rintro (_ | _ | _ | _ | _ | ⟨names, each⟩)
    exact ⟨names, each⟩
  · rintro ⟨names, each⟩
    exact .record names each

namespace Toml

open Reader (Gives)

/-! ## Tables -/

/-- No table in the node has two fields of one name. -/
inductive Node.Distinct : Node → Prop
  | value {d : Datum} (distinct : d.Distinct) : Distinct (.value d)
  | table {making : Making} {fields : List (String × Node)} (names : (fields.map (·.1)).Nodup)
      (each : ∀ f ∈ fields, Distinct f.2) : Distinct (.table making fields)
  | tables {earlier : List (List (String × Node))} {last : List (String × Node)}
      (names : ∀ fields ∈ earlier ++ [last], (fields.map (·.1)).Nodup)
      (each : ∀ fields ∈ earlier ++ [last], ∀ f ∈ fields, Distinct f.2) :
      Distinct (.tables earlier last)

structure Fields.Distinct (fields : Fields) : Prop where
  names : (fields.map (·.1)).Nodup
  each : ∀ f ∈ fields, f.2.Distinct

variable {making : Making} {fields fields' last : Fields} {earlier : List Fields} {node : Node}
  {key : String} {path : List String} {v d : Datum}

theorem Node.distinct_table_iff : (Node.table making fields).Distinct ↔ fields.Distinct := by
  constructor
  · rintro ⟨⟩
    exact ⟨‹_›, ‹_›⟩
  · rintro ⟨names, each⟩
    exact .table names each

theorem Node.distinct_tables_iff :
    (Node.tables earlier last).Distinct ↔
      (∀ fields ∈ earlier, fields.Distinct) ∧ last.Distinct := by
  constructor
  · rintro (_ | _ | ⟨names, each⟩)
    have all : ∀ fields ∈ earlier ++ [last], fields.Distinct :=
      fun fields mem => ⟨names fields mem, each fields mem⟩
    exact ⟨fun fields mem => all fields (by simp [mem]), all last (by simp)⟩
  · rintro ⟨each, lastDistinct⟩
    have all : ∀ fields ∈ earlier ++ [last], fields.Distinct :=
      List.forall_mem_append.2 ⟨each, List.forall_mem_singleton.2 lastDistinct⟩
    exact .tables (fun fields mem => (all fields mem).names) fun fields mem => (all fields mem).each

namespace Fields

theorem map_fst_set : (fields.set key node).map (·.1) = fields.map (·.1) := by
  induction fields with
  | nil => rfl
  | cons f rest ih =>
      obtain ⟨k, n⟩ := f
      rw [set]
      split
      · rfl
      · rw [List.map_cons, List.map_cons, ih]

theorem mem_set {f : String × Node} (mem : f ∈ fields.set key node) : f ∈ fields ∨ f.2 = node := by
  induction fields with
  | nil => cases mem
  | cons g rest ih =>
      obtain ⟨k, n⟩ := g
      rw [set] at mem
      split at mem
      · rcases List.mem_cons.1 mem with rfl | later
        · exact Or.inr rfl
        · exact Or.inl (List.mem_cons_of_mem _ later)
      · rcases List.mem_cons.1 mem with rfl | later
        · exact Or.inl List.mem_cons_self
        · exact (ih later).imp_left (List.mem_cons_of_mem _)

namespace Distinct

theorem nil : Distinct [] := ⟨List.nodup_nil, by simp⟩

theorem set (distinct : fields.Distinct) (replacing : node.Distinct) :
    (fields.set key node).Distinct where
  names := by
    rw [map_fst_set]
    exact distinct.names
  each := by
    intro f mem
    rcases mem_set mem with old | new
    · exact distinct.each f old
    · exact new ▸ replacing

theorem add (distinct : fields.Distinct) (absent : fields.get? key = none)
    (adding : node.Distinct) : (fields.add key node).Distinct where
  names := by
    have fresh : key ∉ fields.map (·.1) := by
      rw [← NameMap.Entries.get?_isSome_iff, ← get?, absent]
      simp
    rw [Fields.add, List.map_append, List.map_singleton, ← List.concat_eq_append]
    exact distinct.names.concat fresh
  each := by
    intro f mem
    rcases List.mem_append.1 mem with old | last
    · exact distinct.each f old
    · exact List.mem_singleton.1 last ▸ adding

theorem of_get? (distinct : fields.Distinct) (found : fields.get? key = some node) :
    node.Distinct :=
  distinct.each (key, node) (NameMap.Entries.mem_of_get? found)

/-- A change that keeps tables distinct may be made at the end of any path. -/
theorem at? {way : Making} {change : Making → Fields → Option Fields}
    (keeps : ∀ making fields fields', Distinct fields → change making fields = some fields' →
      Distinct fields')
    (distinct : fields.Distinct)
    (changed : Fields.at? way change path making fields = some fields') : fields'.Distinct := by
  induction path generalizing making fields fields' with
  | nil => exact keeps making fields fields' distinct changed
  | cons key path ih =>
      rw [Fields.at?] at changed
      split at changed
      · next absent =>
          obtain ⟨sub, inside, made⟩ := Option.bind_eq_some_iff.1 changed
          cases made
          exact distinct.add absent (Node.distinct_table_iff.2 (ih .nil inside))
      · cases changed
      · next found =>
          split at changed
          · cases changed
          · obtain ⟨sub, inside, made⟩ := Option.bind_eq_some_iff.1 changed
            cases made
            have old := Node.distinct_table_iff.1 (distinct.of_get? found)
            exact distinct.set (Node.distinct_table_iff.2 (ih old inside))
      · next found =>
          obtain ⟨sub, inside, made⟩ := Option.bind_eq_some_iff.1 changed
          cases made
          obtain ⟨earlier, last⟩ := Node.distinct_tables_iff.1 (distinct.of_get? found)
          exact distinct.set (Node.distinct_tables_iff.2 ⟨earlier, ih last inside⟩)

theorem assign? (distinct : fields.Distinct) (given : v.Distinct)
    (assigned : fields.assign? path v making = some fields') : fields'.Distinct := by
  obtain ⟨key, -, changed⟩ := Option.bind_eq_some_iff.1 assigned
  refine distinct.at? (fun making fields fields' distinct added => ?_) changed
  split at added
  · cases added
  · split at added
    · cases added
    · next absent =>
        cases added
        exact distinct.add (by simpa using absent) (.value given)

theorem openTable? (distinct : fields.Distinct) (opened : openTable? key fields = some fields') :
    fields'.Distinct := by
  rw [Fields.openTable?] at opened
  split at opened
  · next absent =>
      cases opened
      exact distinct.add absent (Node.distinct_table_iff.2 .nil)
  · next found =>
      cases opened
      have old := Node.distinct_table_iff.1 (distinct.of_get? found)
      exact distinct.set (Node.distinct_table_iff.2 old)
  · cases opened

theorem openTableOfList? (distinct : fields.Distinct)
    (opened : openTableOfList? key fields = some fields') : fields'.Distinct := by
  rw [Fields.openTableOfList?] at opened
  split at opened
  · next absent =>
      cases opened
      exact distinct.add absent (Node.distinct_tables_iff.2 ⟨by simp, .nil⟩)
  · next found =>
      cases opened
      obtain ⟨earlier, last⟩ := Node.distinct_tables_iff.1 (distinct.of_get? found)
      refine distinct.set (Node.distinct_tables_iff.2 ⟨?_, .nil⟩)
      exact List.forall_mem_append.2 ⟨earlier, List.forall_mem_singleton.2 last⟩
  · cases opened

end Distinct

/-! ## Tables as data -/

theorem data_eq_map : data fields = fields.map fun f => (f.1, f.2.datum) := by
  induction fields with
  | nil => rw [data]; rfl
  | cons f rest ih => rw [data, ih]; rfl

theorem listData_eq_map : listData earlier = earlier.map fun fields => .record (data fields) := by
  induction earlier with
  | nil => rw [listData]; rfl
  | cons fields rest ih => rw [listData, ih]; rfl

end Fields

theorem distinct_record_data (names : (fields.map (·.1)).Nodup)
    (each : ∀ f ∈ fields, f.2.datum.Distinct) : (Datum.record (Fields.data fields)).Distinct := by
  rw [Fields.data_eq_map]
  refine .record ?_ ?_
  · rw [List.map_map]
    exact names
  · intro f mem
    obtain ⟨g, old, rfl⟩ := List.mem_map.1 mem
    exact each g old

theorem Node.Distinct.datum (distinct : node.Distinct) : node.datum.Distinct := by
  induction distinct with
  | value given =>
      rw [Node.datum]
      exact given
  | table names _ each =>
      rw [Node.datum]
      exact distinct_record_data names each
  | @tables earlier last names _ each =>
      have all : Fields.listData earlier ++ [.record (Fields.data last)] =
          (earlier ++ [last]).map fun fields => .record (Fields.data fields) := by
        rw [Fields.listData_eq_map, List.map_append, List.map_singleton]
      rw [Node.datum, all]
      refine .list (List.forall_mem_map.2 fun fields mem => ?_)
      exact distinct_record_data (names fields mem) (each fields mem)

theorem Fields.Distinct.data (distinct : fields.Distinct) :
    (Datum.record (Fields.data fields)).Distinct :=
  distinct_record_data distinct.names fun f mem => (distinct.each f mem).datum

/-! ## Values -/

theorem numberLiteral_gives (r : Reader Unit) : (numberLiteral r).Gives Datum.Distinct := by
  intro cs d rest read
  obtain ⟨⟨⟨⟩, left⟩, -, made⟩ := Option.bind_eq_some_iff.1 read
  cases made
  exact .number _

theorem boolean_gives : boolean.Gives Datum.Distinct :=
  .orElse (.after fun _ => .pure (.boolean true)) (.after fun _ => .pure (.boolean false))

theorem array_gives {item : Reader Datum} (each : item.Gives Datum.Distinct) :
    (array item).Gives Datum.Distinct := by
  have padded : Gives (do fillers; let v ← item; fillers; return v) Datum.Distinct :=
    .after fun _ => each.bind fun v given => .after fun _ => .pure given
  refine .after fun _ => padded.separated.optional.bind fun items given => ?_
  have listed : (Datum.list (items.getD [])).Distinct := by
    cases items with
    | none => exact .list (by simp)
    | some items => exact .list (given items rfl)
  split
  · exact .after fun _ => .after fun _ => .after fun _ => .pure listed
  · exact .after fun _ => .after fun _ => .pure listed

theorem assignment_gives {item : Reader Datum} (given : item.Gives Datum.Distinct) :
    (assignment item).Gives fun e => e.2.Distinct :=
  .after fun _ => .after fun _ => .after fun _ => given.bind fun _ given => .pure given

theorem distinct_of_foldlM_assign? {entries : List (List String × Datum)}
    (given : ∀ e ∈ entries, e.2.Distinct) (distinct : fields.Distinct)
    (assigned : entries.foldlM
      (fun (fields : Fields) e => fields.assign? e.1 e.2 .byHeader) fields = some fields') :
    fields'.Distinct := by
  induction entries generalizing fields with
  | nil =>
      cases assigned
      exact distinct
  | cons e rest ih =>
      obtain ⟨first, others⟩ := List.forall_mem_cons.1 given
      rw [List.foldlM_cons] at assigned
      obtain ⟨next, now, later⟩ := Option.bind_eq_some_iff.1 assigned
      exact ih others (distinct.assign? first now) later

theorem bracedTable_gives {item : Reader Datum} (each : item.Gives Datum.Distinct) :
    (bracedTable item).Gives Datum.Distinct := by
  have spaced : Gives (do let e ← assignment item; spaces; return e) fun e => e.2.Distinct :=
    (assignment_gives each).bind fun e given => .after fun _ => .pure given
  refine .after fun _ => spaced.separated.optional.bind fun entries given => ?_
  refine .after fun _ => .after fun _ => ?_
  intro cs d rest read
  obtain ⟨fields, left, lifted, made⟩ := Reader.bind_eq_some_iff.1 read
  cases made
  obtain ⟨_, assigned, same⟩ := Option.bind_eq_some_iff.1 lifted
  cases same
  refine (distinct_of_foldlM_assign? ?_ .nil assigned).data
  cases entries with
  | none => simp
  | some entries => exact given entries rfl

/-- By induction on how deep arrays and braced tables may be nested. -/
theorem value_gives (depth : Nat) : (value depth).Gives Datum.Distinct := by
  have unnested : (momentDatum <$> moment <|> numberLiteral (float <|> integer) <|>
      boolean).Gives Datum.Distinct := by
    refine .orElse ?_ (.orElse (numberLiteral_gives _) boolean_gives)
    refine .map (.anything _) fun m _ => ?_
    exact .record (List.nodup_singleton _) (List.forall_mem_singleton.2 (.text m.text))
  induction depth with
  | zero =>
      unfold value
      refine .after fun first => ?_
      split
      · exact .map (.anything _) fun s _ => .text s
      · split
        · exact .failure
        · split
          · exact .failure
          · exact unnested
  | succ depth ih =>
      unfold value
      refine .after fun first => ?_
      split
      · exact .map (.anything _) fun s _ => .text s
      · split
        · exact array_gives ih
        · split
          · exact bracedTable_gives ih
          · exact unnested

/-! ## Documents -/

/-- The value that a statement gives is distinct. -/
def Statement.Distinct : Statement → Prop
  | .assign _ v => v.Distinct
  | .table _ | .tableOfList _ => True

theorem assignLine_gives : assignLine.Gives Statement.Distinct :=
  (assignment_gives (value_gives _)).bind fun _ given => .after fun _ => .pure given

theorem line_gives : line.Gives fun s => ∀ statement ∈ s, statement.Distinct := by
  have found {r : Reader Statement} (each : r.Gives Statement.Distinct) :
      (some <$> r).Gives fun s => ∀ statement ∈ s, statement.Distinct :=
    each.map fun s given => by rintro _ ⟨⟩; exact given
  unfold line
  refine .after fun first => ?_
  split
  · exact .after fun _ => .after fun _ => .pure (by rintro _ ⟨⟩)
  · exact .after fun _ => .pure (by rintro _ ⟨⟩)
  · exact .after fun _ => .pure (by rintro _ ⟨⟩)
  · refine found (.orElse ?_ ?_)
    · exact .after fun _ => .after fun _ => .after fun _ => .after fun _ => .pure trivial
    · exact .after fun _ => .after fun _ => .after fun _ => .after fun _ => .pure trivial
  · exact found assignLine_gives

theorem statements_gives : statements.Gives fun found => ∀ s ∈ found, s.Distinct := by
  have lines : Gives (do let s ← line; spaces; return s)
      fun s => ∀ statement ∈ s, statement.Distinct :=
    line_gives.bind fun s given => .after fun _ => .pure given
  refine .after fun _ => .after fun _ => lines.many.bind fun found given => .after fun _ => .pure ?_
  intro s mem
  obtain ⟨line, inFound, same⟩ := List.mem_filterMap.1 mem
  exact given line inFound s same

/-- Every statement keeps the tables distinct. -/
theorem Progress.distinct_of_step? {p p' : Progress} {s : Statement} (distinct : p.root.Distinct)
    (given : s.Distinct) (stepped : p.step? s = some p') : p'.root.Distinct := by
  cases s with
  | assign path v =>
      obtain ⟨root, changed, made⟩ := Option.bind_eq_some_iff.1 stepped
      cases made
      exact distinct.at? (fun _ _ _ distinct assigned => distinct.assign? given assigned) changed
  | table path =>
      obtain ⟨key, -, rest⟩ := Option.bind_eq_some_iff.1 stepped
      obtain ⟨root, changed, made⟩ := Option.bind_eq_some_iff.1 rest
      cases made
      exact distinct.at? (fun _ _ _ distinct opened => distinct.openTable? opened) changed
  | tableOfList path =>
      obtain ⟨key, -, rest⟩ := Option.bind_eq_some_iff.1 stepped
      obtain ⟨root, changed, made⟩ := Option.bind_eq_some_iff.1 rest
      cases made
      exact distinct.at? (fun _ _ _ distinct opened => distinct.openTableOfList? opened) changed

theorem Progress.distinct_of_foldlM {p p' : Progress} {found : List Statement}
    (distinct : p.root.Distinct) (given : ∀ s ∈ found, s.Distinct)
    (run : found.foldlM step? p = some p') : p'.root.Distinct := by
  induction found generalizing p with
  | nil =>
      cases run
      exact distinct
  | cons s rest ih =>
      obtain ⟨first, others⟩ := List.forall_mem_cons.1 given
      rw [List.foldlM_cons] at run
      obtain ⟨next, now, later⟩ := Option.bind_eq_some_iff.1 run
      exact ih (distinct_of_step? distinct first now) others later

/-- **No table of a document holds a key twice**: a document is read as a record, and neither this
nor any record in it has two fields of one name. -/
theorem distinct_of_read? {text : String} (read : read? text = some d) :
    (∃ fields, d = .record fields) ∧ d.Distinct := by
  obtain ⟨⟨found, left⟩, lines, rest⟩ := Option.bind_eq_some_iff.1 read
  obtain ⟨final, run, made⟩ := Option.bind_eq_some_iff.1 rest
  cases made
  have given := statements_gives _ found left lines
  exact ⟨⟨_, rfl⟩, (Progress.distinct_of_foldlM .nil given run).data⟩

/-- A table that the dots of a key have made is not opened by a header. -/
example : (read? "[a]\nb.c = 1\n[a.b]\nd = 2\n").isNone = true := by cbv

end Toml
end EdgeResolution
