/-
# EdgeResolution.Proofs.Toml.Reading -- readers put together

What a reader made of other readers takes from a text follows from what those take:
one lemma for each way of putting readers together, and for each outcome of the first
one.  Single characters are what it starts from.  `many_flatMap` is the repetition:
items that stand one after the other are all taken.

`Reader.Gives` is a property of whatever a reader may give, `Reader.Leaves` says that
it leaves the end of its text; the lemmas take both through the same ways of putting
readers together.
-/
import EdgeResolution.Toml.Reader

namespace EdgeResolution.Toml

set_option autoImplicit false

namespace Reader

variable {α β : Type} {r r' : Reader α} {f : α → Reader β} {holds : α → Prop} {holds' : β → Prop}

/-! ## One after the other -/

theorem bind_eq_some_iff {cs rest : List Char} {b : β} :
    (r >>= f) cs = some (b, rest) ↔
      ∃ a left, r cs = some (a, left) ∧ f a left = some (b, rest) := by
  show (r cs).bind (fun p => f p.1 p.2) = _ ↔ _
  rw [Option.bind_eq_some_iff]
  exact Prod.exists

theorem bind_of_some {cs left : List Char} {a : α} (first : r cs = some (a, left)) :
    (r >>= f) cs = f a left := by
  show (r cs).bind (fun p => f p.1 p.2) = _
  rw [first]
  rfl

theorem bind_of_none {cs : List Char} (first : r cs = none) : (r >>= f) cs = none := by
  show (r cs).bind (fun p => f p.1 p.2) = _
  rw [first]
  rfl

theorem map_of_some {g : α → β} {cs left : List Char} {a : α} (first : r cs = some (a, left)) :
    (g <$> r) cs = some (g a, left) := by
  show (r cs).bind (fun p => some (g p.1, p.2)) = _
  rw [first]
  rfl

theorem map_of_none {g : α → β} {cs : List Char} (first : r cs = none) : (g <$> r) cs = none := by
  show (r cs).bind (fun p => some (g p.1, p.2)) = _
  rw [first]
  rfl

theorem discard_of_some {cs left : List Char} {a : α} (first : r cs = some (a, left)) :
    discard r cs = some ((), left) :=
  map_of_some first

theorem discard_of_none {cs : List Char} (first : r cs = none) : discard r cs = none :=
  map_of_none first

theorem orElse_eq_some_iff {cs : List Char} {p : α × List Char} :
    (r <|> r') cs = some p ↔ r cs = some p ∨ r cs = none ∧ r' cs = some p := by
  show (r cs).orElse (fun _ => r' cs) = _ ↔ _
  cases r cs <;> simp

theorem orElse_of_some {cs : List Char} {p : α × List Char} (first : r cs = some p) :
    (r <|> r') cs = some p := by
  show (r cs).orElse (fun _ => r' cs) = _
  rw [first]
  rfl

theorem orElse_of_none {cs : List Char} (first : r cs = none) : (r <|> r') cs = r' cs := by
  show (r cs).orElse (fun _ => r' cs) = _
  rw [first]
  rfl

theorem optional_of_some {cs left : List Char} {a : α} (first : r cs = some (a, left)) :
    optional r cs = some (some a, left) :=
  orElse_of_some (map_of_some first)

theorem optional_of_none {cs : List Char} (first : r cs = none) :
    optional r cs = some (none, cs) :=
  orElse_of_none (map_of_none first)

theorem skip_of_none {cs : List Char} (first : r cs = none) : skip r cs = some (false, cs) :=
  orElse_of_none (bind_of_none (discard_of_none first))

/-! ## Single characters -/

section Characters

variable {c : Char} {p : Char → Bool} {cs rest : List Char}

theorem one_eq_some_iff : one p cs = some (c, rest) ↔ cs = c :: rest ∧ p c = true := by
  cases cs with
  | nil => simp [one]
  | cons b cs =>
      rw [one, Option.ite_none_right_eq_some]
      constructor
      · rintro ⟨here, ⟨⟩⟩
        exact ⟨rfl, here⟩
      · rintro ⟨⟨⟩, here⟩
        exact ⟨here, rfl⟩

theorem one_cons (holds : p c = true) : one p (c :: rest) = some (c, rest) := if_pos holds

theorem one_cons_of_not (fails : p c = false) : one p (c :: rest) = none :=
  if_neg (by simp [fails])

theorem char_cons (c : Char) (rest : List Char) : char c (c :: rest) = some ((), rest) := by
  have first : one (· == c) (c :: rest) = some (c, rest) := one_cons (beq_self_eq_true c)
  exact discard_of_some first

theorem one_of_head? (fails : ∀ c ∈ cs.head?, p c = false) : one p cs = none := by
  cases cs with
  | nil => rfl
  | cons c rest => exact one_cons_of_not (fails c rfl)

theorem char_of_head?_ne (other : cs.head? ≠ some c) : char c cs = none := by
  have first : one (· == c) cs = none := by
    refine one_of_head? fun b mem => beq_eq_false_iff_ne.2 ?_
    rintro rfl
    exact other mem
  exact discard_of_none first

theorem literal_eq_some_iff {text : List Char} :
    literal text cs = some ((), rest) ↔ cs = text ++ rest := by
  rw [literal, Option.ite_none_right_eq_some, List.isPrefixOf_iff_prefix]
  constructor
  · rintro ⟨⟨more, rfl⟩, same⟩
    simpa using same
  · rintro rfl
    exact ⟨List.prefix_append .., by simp⟩

/-- So many characters of a class are read as they stand. -/
theorem mapM_one {count : Nat} {taken : List Char} (long : taken.length = count)
    (all : ∀ c ∈ taken, p c = true) (rest : List Char) :
    (List.replicate count (one p)).mapM id (taken ++ rest) = some (taken, rest) := by
  subst long
  induction taken with
  | nil => rfl
  | cons c taken ih =>
      obtain ⟨first, others⟩ := List.forall_mem_cons.1 all
      rw [List.length_cons, List.replicate_succ, List.mapM_cons, List.cons_append, id_eq,
        bind_of_some (one_cons first), bind_of_some (ih others)]
      rfl

/-- Nothing is read if there are fewer. -/
theorem mapM_one_of_short {count : Nat} {taken : List Char} (short : taken.length < count)
    (stops : ∀ c ∈ rest.head?, p c = false) :
    (List.replicate count (one p)).mapM id (taken ++ rest) = none := by
  obtain ⟨count, rfl⟩ := Nat.exists_eq_add_one_of_ne_zero (Nat.ne_zero_of_lt short)
  rw [List.replicate_succ, List.mapM_cons, id_eq]
  induction taken generalizing count with
  | nil => exact bind_of_none (one_of_head? stops)
  | cons c taken ih =>
      cases first : p c with
      | false => exact bind_of_none (one_cons_of_not first)
      | true =>
          rw [List.length_cons, Nat.add_lt_add_iff_right] at short
          obtain ⟨count, rfl⟩ := Nat.exists_eq_add_one_of_ne_zero (Nat.ne_zero_of_lt short)
          rw [List.cons_append, bind_of_some (one_cons first), List.replicate_succ, List.mapM_cons,
            id_eq]
          exact bind_of_none (ih count short)

theorem run_append {taken : List Char} (all : ∀ c ∈ taken, p c = true)
    (stops : ∀ c ∈ rest.head?, p c = false) : run p (taken ++ rest) = some (taken, rest) := by
  rw [run, List.takeWhile_append_of_pos all, List.dropWhile_append_of_pos all]
  cases rest with
  | nil => simp
  | cons c rest =>
      have stop : ¬ p c = true := by simp [stops c rfl]
      rw [List.takeWhile_cons_of_neg stop, List.dropWhile_cons_of_neg stop, List.append_nil]

end Characters

/-! ## As many as there are -/

theorem manyFrom_of_none {cs : List Char} (stops : r cs = none) : manyFrom r cs = ([], cs) := by
  rw [manyFrom, stops]

theorem many_of_none {cs : List Char} (stops : r cs = none) : many r cs = some ([], cs) :=
  congrArg some (manyFrom_of_none stops)

/-- A reader that takes items off the front one by one takes all of them, up to where it stops.
What may stand after an item is told by `ends`. -/
theorem many_flatMap (ends : List Char → Prop) {item : β → α} {write : β → List Char}
    {stop : List Char} {items : List β}
    (takes : ∀ b ∈ items, ∀ rest, ends rest → r (write b ++ rest) = some (item b, rest))
    (nonempty : ∀ b ∈ items, write b ≠ []) (starts : ∀ b ∈ items, ∀ rest, ends (write b ++ rest))
    (stopEnds : ends stop) (stops : r stop = none) :
    many r (items.flatMap write ++ stop) = some (items.map item, stop) := by
  refine congrArg Option.some ?_
  induction items with
  | nil => exact manyFrom_of_none stops
  | cons b more ih =>
      obtain ⟨takesB, takesMore⟩ := List.forall_mem_cons.1 takes
      obtain ⟨nonemptyB, nonemptyMore⟩ := List.forall_mem_cons.1 nonempty
      obtain ⟨-, startsMore⟩ := List.forall_mem_cons.1 starts
      have later : ends (more.flatMap write ++ stop) := by
        cases more with
        | nil => exact stopEnds
        | cons c others =>
            rw [List.flatMap_cons, List.append_assoc]
            exact startsMore c List.mem_cons_self _
      have shorter : (more.flatMap write ++ stop).length <
          (write b ++ (more.flatMap write ++ stop)).length := by
        simpa [List.length_pos_iff] using nonemptyB
      rw [List.flatMap_cons, List.append_assoc, manyFrom, takesB _ later]
      simp only [if_pos shorter, ih takesMore nonemptyMore startsMore, List.map_cons]

/-! ## What readers give -/

/-- Whatever the reader takes from a text, this holds of it. -/
def Gives (r : Reader α) (holds : α → Prop) : Prop :=
  ∀ cs a rest, r cs = some (a, rest) → holds a

namespace Gives

theorem anything (r : Reader α) : r.Gives fun _ => True := fun _ _ _ _ => trivial

theorem pure {a : α} (here : holds a) : (Pure.pure a : Reader α).Gives holds := by
  rintro cs b rest ⟨⟩
  exact here

theorem failure : (failure : Reader α).Gives holds := by
  rintro cs a rest ⟨⟩

theorem guarded {a : α} {p : Prop} [Decidable p] (here : p → holds a) :
    (if p then Pure.pure a else Alternative.failure : Reader α).Gives holds := by
  split
  · next test => exact pure (here test)
  · exact failure

theorem one (p : Char → Bool) : (one p).Gives fun c => p c = true :=
  fun _ _ _ read => (one_eq_some_iff.1 read).2

theorem run (p : Char → Bool) : (run p).Gives fun taken => ∀ c ∈ taken, p c = true := by
  rintro cs _ _ ⟨⟩
  exact List.all_eq_true.1 List.all_takeWhile

theorem bind (first : r.Gives holds) (next : ∀ a, holds a → (f a).Gives holds') :
    (r >>= f).Gives holds' := by
  intro cs b rest read
  obtain ⟨a, left, readFirst, readNext⟩ := bind_eq_some_iff.1 read
  exact next a (first cs a left readFirst) left b rest readNext

/-- Of what is read first nothing is asked. -/
theorem after (next : ∀ a, (f a).Gives holds') : (r >>= f).Gives holds' :=
  (anything r).bind fun a _ => next a

theorem map {g : α → β} (item : r.Gives holds) (each : ∀ a, holds a → holds' (g a)) :
    (g <$> r).Gives holds' :=
  item.bind fun a here => pure (each a here)

theorem orElse (first : r.Gives holds) (second : r'.Gives holds) : (r <|> r').Gives holds := by
  intro cs a rest read
  rcases orElse_eq_some_iff.1 read with here | ⟨-, here⟩
  · exact first cs a rest here
  · exact second cs a rest here

theorem optional (item : r.Gives holds) :
    (optional r).Gives fun found => ∀ a ∈ found, holds a := by
  refine orElse (item.bind fun a here => pure ?_) (pure ?_)
  · rintro b ⟨⟩
    exact here
  · rintro a ⟨⟩

theorem manyFrom (item : r.Gives holds) (cs : List Char) :
    ∀ a ∈ (Reader.manyFrom r cs).1, holds a := by
  fun_induction Reader.manyFrom r cs with
  | case1 => simp
  | case2 cs a rest read _ more ih => exact List.forall_mem_cons.2 ⟨item cs a rest read, ih⟩
  | case3 cs a rest read => exact List.forall_mem_singleton.2 (item cs a rest read)

theorem many (item : r.Gives holds) : (many r).Gives fun found => ∀ a ∈ found, holds a := by
  intro cs found rest read
  have same : Reader.manyFrom r cs = (found, rest) := Option.some.inj read
  have each := manyFrom item cs
  rwa [same] at each

theorem separated {separator : Reader Unit} (item : r.Gives holds) :
    (separated separator r).Gives fun found => ∀ a ∈ found, holds a :=
  item.bind fun _ first => (many (after fun _ => item)).bind fun _ more =>
    pure (List.forall_mem_cons.2 ⟨first, more⟩)

end Gives

/-! ## What readers leave -/

/-- The reader leaves the end of the text, having taken something off the front or nothing. -/
def Leaves (r : Reader α) : Prop := ∀ cs a rest, r cs = some (a, rest) → rest <:+ cs

namespace Leaves

theorem pure (a : α) : (Pure.pure a : Reader α).Leaves := by
  rintro cs _ rest ⟨⟩
  exact List.suffix_rfl

theorem failure : (failure : Reader α).Leaves := by
  rintro cs a rest ⟨⟩

theorem guarded {a : α} {p : Prop} [Decidable p] :
    (if p then Pure.pure a else Alternative.failure : Reader α).Leaves := by
  split
  · exact pure a
  · exact failure

theorem one (p : Char → Bool) : (one p).Leaves := by
  intro cs c rest read
  obtain ⟨rfl, -⟩ := one_eq_some_iff.1 read
  exact List.suffix_cons ..

theorem literal (text : List Char) : (literal text).Leaves := by
  rintro cs ⟨⟩ rest read
  obtain rfl := literal_eq_some_iff.1 read
  exact List.suffix_append ..

theorem bind (first : r.Leaves) (next : ∀ a, (f a).Leaves) : (r >>= f).Leaves := by
  intro cs b rest read
  obtain ⟨a, left, readFirst, readNext⟩ := bind_eq_some_iff.1 read
  exact (next a left b rest readNext).trans (first cs a left readFirst)

theorem discard (item : r.Leaves) : (discard r).Leaves := item.bind fun _ => pure _

theorem char (c : Char) : (char c).Leaves := (one _).discard

theorem orElse (first : r.Leaves) (second : r'.Leaves) : (r <|> r').Leaves := by
  intro cs a rest read
  rcases orElse_eq_some_iff.1 read with here | ⟨-, here⟩
  · exact first cs a rest here
  · exact second cs a rest here

theorem optional (item : r.Leaves) : (optional r).Leaves :=
  (item.bind fun _ => pure _).orElse (pure _)

theorem skip (item : r.Leaves) : (skip r).Leaves :=
  (item.discard.bind fun _ => pure _).orElse (pure _)

theorem manyFrom (item : r.Leaves) (cs : List Char) : (Reader.manyFrom r cs).2 <:+ cs := by
  fun_induction Reader.manyFrom r cs with
  | case1 => exact List.suffix_rfl
  | case2 cs a rest read _ more ih => exact ih.trans (item cs a rest read)
  | case3 cs a rest read => exact item cs a rest read

theorem many (item : r.Leaves) : (many r).Leaves := by
  intro cs found rest read
  have same : Reader.manyFrom r cs = (found, rest) := Option.some.inj read
  have left := manyFrom item cs
  rwa [same] at left

end Leaves
end Reader
end EdgeResolution.Toml
