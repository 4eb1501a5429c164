/-
# EdgeResolution.Proofs.Ancestry.Stack -- the walk over extensions as nested visits

`Component.visit` is the walk with its bookkeeping made explicit.  A visit opens the
name of its configuration by pushing it on a stack, visits the parents one after the
other, pops the name and lists the configuration; a visit of a name that is open or
listed does nothing.  All visits share one `Progress`, which also notes every call.
How deep they may be nested is limited, so that the depth of a recursion shows.

* `extended_visit`, `known_visit`: a visit that succeeds leaves the stack as it found
  it, only appends to the list, and leaves its own name open or listed;
* `Disciplined` is what holds at all times, of visits that succeed and of visits that
  stop (`disciplined_visit`): no name is open twice, or both open and listed, open
  names are names of the target, and the names whose parents were visited are just
  those that are open or listed;
* `answer_visitEach`: visits give what the walk gives, as long as they may be nested
  deeper than there are names left to open.  Each level opens one of these.

`visits_keep_stack` puts this together for whole expansions.
-/
import EdgeResolution.Proofs.Ancestry.Expansion
import Mathlib.Data.List.Perm.Subperm

namespace EdgeResolution.Component

set_option autoImplicit false

/-! ## Visits -/

/-- Why a visit stops. -/
inductive Stop where
  | absent (name : String)
  | tooDeep
  deriving DecidableEq

/-- One call of `visit`, with what was open and listed when it was made. -/
structure Call where
  configuration : Configuration
  opened : List String
  listed : List Configuration

/-- What all visits share. -/
structure Progress where
  /-- The names with an open walk, the innermost first. -/
  opened : List String
  listed : List Configuration
  /-- The calls so far, the latest first. -/
  calls : List Call

instance (opened : List String) (listed : List Configuration) (name : String) :
    Decidable (Known opened listed name) :=
  inferInstanceAs (Decidable (_ ∨ _))

/-- Does the call go on to the parents of its configuration? -/
def Call.enters (call : Call) : Bool :=
  !decide (Known call.opened call.listed call.configuration.name)

namespace Progress

def start : Progress := ⟨[], [], []⟩

def note (s : Progress) (c : Configuration) : Progress :=
  { s with calls := ⟨c, s.opened, s.listed⟩ :: s.calls }

def push (s : Progress) (name : String) : Progress := { s with opened := name :: s.opened }

/-- Close the innermost name, and list the configuration. -/
def leave (s : Progress) (c : Configuration) : Progress :=
  { s with opened := s.opened.tail, listed := s.listed ++ [c] }

/-- The names of the configurations whose parents were visited, once for each time. -/
def entered (s : Progress) : List String :=
  (s.calls.filter Call.enters).map (·.configuration.name)

end Progress

/-- Visit the configurations that the target holds under these names. -/
def visitEach (t : Component) (visit : Configuration → EStateM Stop Progress Unit)
    (names : List String) : EStateM Stop Progress Unit :=
  names.forM fun name =>
    match t.configuration? name with
    | none => throw (.absent name)
    | some c => visit c

/-- Visit a configuration and, before it is listed, all its ancestors.  At most `depth` visits
are nested. -/
def visit (t : Component) : Nat → Configuration → EStateM Stop Progress Unit
  | 0, _ => throw .tooDeep
  | depth + 1, c => do
      let s ← get
      set (s.note c)
      unless Known s.opened s.listed c.name do
        modify (·.push c.name)
        visitEach t (visit t depth) c.parents
        modify (·.leave c)

/-! ## Outcomes -/

/-- What visits come to, and how far they got. -/
abbrev Outcome := EStateM.Result Stop Progress Unit

namespace Outcome

def progress : Outcome → Progress
  | .ok _ s => s
  | .error _ s => s

def answer : Outcome → Except Stop (List Configuration)
  | .ok _ s => .ok s.listed
  | .error stop _ => .error stop

/-- Go on where the first visits succeeded. -/
def andThen (first : Outcome) (next : Progress → Outcome) : Outcome :=
  match first with
  | .ok _ s => next s
  | .error stop s => .error stop s

theorem andThen_eq_ok {first : Outcome} {next : Progress → Outcome} {s' : Progress}
    (ok : first.andThen next = .ok () s') : ∃ s, first = .ok () s ∧ next s = .ok () s' := by
  cases first with
  | ok _ s => exact ⟨s, rfl, ok⟩
  | error stop s => cases ok

theorem answer_andThen_of_error {first : Outcome} {next : Progress → Outcome} {stop : Stop}
    (stopped : first.answer = .error stop) : (first.andThen next).answer = .error stop := by
  cases first with
  | ok _ s => cases stopped
  | error _ s => exact stopped

theorem exists_of_answer_eq_ok {outcome : Outcome} {listed : List Configuration}
    (answered : outcome.answer = .ok listed) : ∃ s, outcome = .ok () s ∧ s.listed = listed := by
  cases outcome with
  | ok _ s => exact ⟨s, rfl, Except.ok.inj answered⟩
  | error stop s => cases answered

end Outcome

variable {t : Component} {f : Configuration → EStateM Stop Progress Unit} {depth : Nat}
  {c : Configuration} {selected : List Configuration} {s s' s'' : Progress} {name : String}
  {opened rest names : List String} {listed : List Configuration}

theorem visitEach_absent (absent : t.configuration? name = none) :
    (visitEach t f (name :: rest)).run s = .error (.absent name) s := by
  simp only [visitEach, List.forM_eq_forM, List.forM_cons, EStateM.run_bind, absent,
    EStateM.run_throw]

theorem visitEach_held (held : t.configuration? name = some c) :
    (visitEach t f (name :: rest)).run s =
      Outcome.andThen ((f c).run s) (visitEach t f rest).run := by
  simp only [visitEach, List.forM_eq_forM, List.forM_cons, EStateM.run_bind, held]
  cases (f c).run s <;> rfl

theorem visit_known (known : Known s.opened s.listed c.name) :
    (visit t (depth + 1) c).run s = .ok () (s.note c) := by
  simp [visit, known]

theorem visit_fresh (fresh : ¬ Known s.opened s.listed c.name) :
    (visit t (depth + 1) c).run s =
      Outcome.andThen ((visitEach t (visit t depth) c.parents).run ((s.note c).push c.name))
        fun s' => .ok () (s'.leave c) := by
  simp only [visit, EStateM.run_bind, EStateM.run_get, EStateM.run_set, fresh, if_false,
    EStateM.run_modify]
  cases (visitEach t (visit t depth) c.parents).run ((s.note c).push c.name) <;> rfl

theorem visitEach_eq_ok (ok : (visitEach t f (name :: rest)).run s = .ok () s') :
    ∃ c between, t.configuration? name = some c ∧ (f c).run s = .ok () between ∧
      (visitEach t f rest).run between = .ok () s' := by
  cases held : t.configuration? name with
  | none =>
      rw [visitEach_absent held] at ok
      cases ok
  | some c =>
      rw [visitEach_held held] at ok
      obtain ⟨between, visited, after⟩ := Outcome.andThen_eq_ok ok
      exact ⟨c, between, rfl, visited, after⟩

/-- A visit succeeds because there is nothing to do, or after visits of all parents. -/
theorem visit_eq_ok (ok : (visit t depth c).run s = .ok () s') :
    (Known s.opened s.listed c.name ∧ s' = s.note c) ∨
      ∃ less inside, depth = less + 1 ∧ s' = inside.leave c ∧
        (visitEach t (visit t less) c.parents).run ((s.note c).push c.name) = .ok () inside := by
  cases depth with
  | zero => cases ok
  | succ less =>
      by_cases known : Known s.opened s.listed c.name
      · rw [visit_known known] at ok
        cases ok
        exact Or.inl ⟨known, rfl⟩
      · rw [visit_fresh known] at ok
        obtain ⟨inside, visited, left⟩ := Outcome.andThen_eq_ok ok
        cases left
        exact Or.inr ⟨less, inside, rfl, rfl, visited⟩

/-! ## What a successful visit leaves -/

/-- The stack is as it was, and the list has at most grown at its end. -/
structure Extended (s s' : Progress) : Prop where
  restored : s'.opened = s.opened
  appended : ∃ more, s'.listed = s.listed ++ more

namespace Extended

theorem refl (s : Progress) : Extended s s := ⟨rfl, [], (List.append_nil _).symm⟩

theorem trans (first : Extended s s') (second : Extended s' s'') : Extended s s'' := by
  obtain ⟨more, appended⟩ := first.appended
  obtain ⟨evenMore, appended'⟩ := second.appended
  refine ⟨second.restored.trans first.restored, more ++ evenMore, ?_⟩
  rw [appended', appended, List.append_assoc]

theorem note (s : Progress) (c : Configuration) : Extended s (s.note c) :=
  ⟨rfl, [], (List.append_nil _).symm⟩

/-- A visit that opens a name closes this one again. -/
theorem leave (inside : Extended ((s.note c).push c.name) s') : Extended s (s'.leave c) := by
  obtain ⟨more, appended⟩ := inside.appended
  refine ⟨congrArg List.tail inside.restored, more ++ [c], ?_⟩
  rw [Progress.leave, appended, ← List.append_assoc]
  rfl

end Extended

theorem extended_visitEach (each : ∀ c s s', (f c).run s = .ok () s' → Extended s s')
    (ok : (visitEach t f names).run s = .ok () s') : Extended s s' := by
  induction names generalizing s with
  | nil =>
      cases ok
      exact .refl _
  | cons name rest ih =>
      obtain ⟨c, between, -, visited, after⟩ := visitEach_eq_ok ok
      exact (each c s between visited).trans (ih after)

theorem extended_visit (ok : (visit t depth c).run s = .ok () s') : Extended s s' := by
  induction depth generalizing c s s' with
  | zero => cases ok
  | succ depth ih =>
      rcases visit_eq_ok ok with ⟨-, rfl⟩ | ⟨less, inside, deeper, rfl, visited⟩
      · exact .note _ c
      · cases deeper
        exact (extended_visitEach (fun _ _ _ => ih) visited).leave

/-- The visited name is open or listed afterwards. -/
theorem known_visit (ok : (visit t depth c).run s = .ok () s') :
    Known s'.opened s'.listed c.name := by
  rcases visit_eq_ok ok with ⟨known, rfl⟩ | ⟨less, inside, -, rfl, -⟩
  · exact known
  · exact Or.inr (by simp [Progress.leave])

/-! ## The invariant of the visits -/

/-- No name is open twice, or open and listed, and the target holds what is open. -/
structure Apart (t : Component) (opened : List String) (listed : List Configuration) : Prop where
  distinct : (opened ++ listed.map (·.name)).Nodup
  held : ∀ name ∈ opened, ∃ c, t.configuration? name = some c

structure Disciplined (t : Component) (s : Progress) : Prop where
  now : t.Apart s.opened s.listed
  always : ∀ call ∈ s.calls, t.Apart call.opened call.listed
  entered : s.entered.Perm (s.opened ++ s.listed.map (·.name))

theorem entered_note_known (known : Known s.opened s.listed c.name) :
    (s.note c).entered = s.entered := by
  simp [Progress.entered, Progress.note, Call.enters, known]

theorem entered_note_fresh (fresh : ¬ Known s.opened s.listed c.name) :
    (s.note c).entered = c.name :: s.entered := by
  simp [Progress.entered, Progress.note, Call.enters, fresh]

namespace Disciplined

theorem start (t : Component) : t.Disciplined .start where
  now := ⟨List.nodup_nil, by simp [Progress.start]⟩
  always := by simp [Progress.start]
  entered := .refl _

theorem always_note (state : t.Disciplined s) (c : Configuration) :
    ∀ call ∈ (s.note c).calls, t.Apart call.opened call.listed :=
  List.forall_mem_cons.2 ⟨state.now, state.always⟩

theorem note (state : t.Disciplined s) (known : Known s.opened s.listed c.name) :
    t.Disciplined (s.note c) where
  now := state.now
  always := state.always_note c
  entered := entered_note_known known ▸ state.entered

theorem enter (state : t.Disciplined s) (held : t.configuration? c.name = some c)
    (fresh : ¬ Known s.opened s.listed c.name) : t.Disciplined ((s.note c).push c.name) where
  now := by
    refine ⟨List.nodup_cons.2 ⟨?_, state.now.distinct⟩, ?_⟩
    · exact fun mem => fresh (List.mem_append.1 mem)
    · exact List.forall_mem_cons.2 ⟨⟨c, held⟩, state.now.held⟩
  always := state.always_note c
  entered := by
    have same : ((s.note c).push c.name).entered = c.name :: s.entered := entered_note_fresh fresh
    rw [same]
    exact state.entered.cons c.name

/-- Closing a name and listing it moves the name from one side to the other. -/
theorem leave (state : t.Disciplined s) {opened : List String}
    (innermost : s.opened = c.name :: opened) : t.Disciplined (s.leave c) := by
  have moved : (s.opened ++ s.listed.map (·.name)).Perm
      ((s.leave c).opened ++ (s.leave c).listed.map (·.name)) := by
    rw [Progress.leave, innermost, List.tail_cons, List.map_append, ← List.append_assoc]
    exact (List.perm_append_singleton _ _).symm
  refine ⟨⟨moved.nodup state.now.distinct, fun name mem => ?_⟩, state.always,
    state.entered.trans moved⟩
  exact state.now.held name (List.mem_of_mem_tail mem)

end Disciplined

theorem disciplined_visitEach
    (each : ∀ c, t.configuration? c.name = some c → ∀ s, t.Disciplined s →
      t.Disciplined (Outcome.progress ((f c).run s))) (state : t.Disciplined s) :
    t.Disciplined (Outcome.progress ((visitEach t f names).run s)) := by
  induction names generalizing s with
  | nil => exact state
  | cons name rest ih =>
      cases held : t.configuration? name with
      | none =>
          rw [visitEach_absent held]
          exact state
      | some c =>
          have visited := each c (name_of_configuration? held ▸ held) s state
          rw [visitEach_held held]
          cases outcome : (f c).run s with
          | error stop stopped =>
              rw [outcome] at visited
              exact visited
          | ok _ between =>
              rw [outcome] at visited
              exact ih visited

theorem disciplined_visit (held : t.configuration? c.name = some c) (state : t.Disciplined s) :
    t.Disciplined (Outcome.progress ((visit t depth c).run s)) := by
  induction depth generalizing c s with
  | zero => exact state
  | succ depth ih =>
      by_cases known : Known s.opened s.listed c.name
      · rw [visit_known known]
        exact state.note known
      · have visited : t.Disciplined (Outcome.progress
            ((visitEach t (visit t depth) c.parents).run ((s.note c).push c.name))) :=
          disciplined_visitEach (fun _ heldParent _ => ih heldParent) (state.enter held known)
        rw [visit_fresh known]
        cases outcome : (visitEach t (visit t depth) c.parents).run ((s.note c).push c.name) with
        | error stop stopped =>
            rw [outcome] at visited
            exact visited
        | ok _ inside =>
            rw [outcome] at visited
            exact visited.leave (extended_visitEach (fun _ _ _ => extended_visit) outcome).restored

/-! ## Visits and the walk -/

/-- Visits that may be nested deeper than there are names to open give what the walk gives. -/
theorem answer_visitEach (t : Component) (depth : Nat) (opened todo : List String)
    (done : List Configuration) (calls : List Call) (enough : t.closedCount opened < depth) :
    Outcome.answer ((visitEach t (visit t depth) todo).run ⟨opened, done, calls⟩) =
      (t.walk opened todo done).mapError Stop.absent := by
  fun_induction walk t opened todo done generalizing depth calls with
  | case1 opened done => rfl
  | case2 opened done name rest absent =>
      rw [visitEach_absent absent]
      rfl
  | case3 opened done name rest c held known ih =>
      obtain rfl : c.name = name := name_of_configuration? held
      obtain ⟨less, rfl⟩ := Nat.exists_eq_add_one_of_ne_zero (Nat.ne_zero_of_lt enough)
      have passed : (visit t (less + 1) c).run ⟨opened, done, calls⟩ =
          .ok () ⟨opened, done, ⟨c, opened, done⟩ :: calls⟩ := visit_known known
      rw [visitEach_held held, passed]
      exact ih (less + 1) _ enough
  | case4 opened done name rest c held fresh narrower ihInside ihAfter =>
      obtain rfl : c.name = name := name_of_configuration? held
      obtain ⟨less, rfl⟩ := Nat.exists_eq_add_one_of_ne_zero (Nat.ne_zero_of_lt enough)
      have entered : (visit t (less + 1) c).run ⟨opened, done, calls⟩ = Outcome.andThen
          ((visitEach t (visit t less) c.parents).run
            ⟨c.name :: opened, done, ⟨c, opened, done⟩ :: calls⟩)
          fun s' => .ok () (s'.leave c) := visit_fresh fresh
      -- opening the name leaves one name less to open, and one level less to open it on
      have inside := ihInside less (⟨c, opened, done⟩ :: calls)
        (Nat.lt_of_lt_of_le narrower (Nat.le_of_lt_succ enough))
      rw [visitEach_held held, entered]
      cases walked : t.walk (c.name :: opened) c.parents done with
      | error missing =>
          rw [walked] at inside
          exact Outcome.answer_andThen_of_error (Outcome.answer_andThen_of_error inside)
      | ok ancestors =>
          rw [walked] at inside
          obtain ⟨after, visited, rfl⟩ := Outcome.exists_of_answer_eq_ok inside
          have left : after.leave c = ⟨opened, after.listed ++ [c], after.calls⟩ := by
            rw [Progress.leave, (extended_visitEach (fun _ _ _ => extended_visit) visited).restored]
            rfl
          rw [visited]
          show Outcome.answer ((visitEach t (visit t (less + 1)) rest).run (after.leave c)) =
            (t.walk opened rest (after.listed ++ [c])).mapError Stop.absent
          rw [left]
          exact ihAfter after.listed (less + 1) after.calls enough

/-! ## Whole expansions -/

/-- Visit the selected configurations one after the other. -/
def visitAll (t : Component) (depth : Nat) (selected : List Configuration) : Outcome :=
  (selected.forM (visit t depth)).run .start

theorem forM_eq_visitEach (held : ∀ c ∈ selected, t.configuration? c.name = some c) :
    selected.forM f = visitEach t f (selected.map (·.name)) := by
  induction selected with
  | nil => rfl
  | cons c rest ih =>
      obtain ⟨heldC, heldRest⟩ := List.forall_mem_cons.1 held
      have later := ih heldRest
      simp only [visitEach, List.forM_eq_forM, List.map_cons, List.forM_cons, heldC] at later ⊢
      rw [later]

theorem closedCount_nil (t : Component) : t.closedCount [] = t.configurations.size := by
  simp [closedCount, NameMap.length_keys]

theorem Apart.length_le (apart : t.Apart opened listed) :
    opened.length ≤ t.configurations.size := by
  have distinct : opened.Nodup := (List.nodup_append.1 apart.distinct).1
  have names : opened ⊆ t.configurations.keys := by
    intro name mem
    obtain ⟨c, found⟩ := apart.held name mem
    exact (t.configurations.mem_keys_iff name).2 (Option.isSome_of_eq_some found)
  rw [← NameMap.length_keys]
  exact (distinct.subperm names).length_le

/-- **An expansion keeps its stack.**  It is a run of visits, nested at most one deeper than the
target has configurations.  At every call the open names are distinct names of the target, so no
more than these, and none of them is listed.  The parents of a configuration are visited once if
its name is opened, and else not at all.  A visit that succeeds leaves the stack as it found it and
has only appended to the list, and its own name is open or listed. -/
theorem visits_keep_stack (t : Component) :
    (∀ selected : List Configuration, (∀ c ∈ selected, t.configuration? c.name = some c) →
      (∀ depth, t.configurations.size + 1 ≤ depth →
        (t.visitAll depth selected).answer = (t.expand selected).mapError Stop.absent) ∧
      ∀ depth,
        (∀ call ∈ (t.visitAll depth selected).progress.calls,
          call.opened.Nodup ∧ (∀ name ∈ call.opened, ∃ c, t.configuration? name = some c) ∧
          (∀ name ∈ call.opened, name ∉ call.listed.map (·.name)) ∧
          call.opened.length ≤ t.configurations.size) ∧
        (t.visitAll depth selected).progress.entered.Nodup ∧
        (t.visitAll depth selected).progress.entered.Perm
          ((t.visitAll depth selected).progress.opened ++
            (t.visitAll depth selected).progress.listed.map (·.name))) ∧
    ∀ depth c s s', (t.visit depth c).run s = .ok () s' →
      s'.opened = s.opened ∧ (∃ more, s'.listed = s.listed ++ more) ∧
      (c.name ∈ s'.opened ∨ c.name ∈ s'.listed.map (·.name)) := by
  refine ⟨fun selected held => ⟨fun depth enough => ?_, fun depth => ?_⟩, ?_⟩
  · rw [visitAll, forM_eq_visitEach held, expand_eq_walk held]
    exact answer_visitEach t depth [] _ [] [] (by rw [closedCount_nil]; exact enough)
  · have state : t.Disciplined (t.visitAll depth selected).progress := by
      rw [visitAll, forM_eq_visitEach held]
      exact disciplined_visitEach (fun c heldC s => disciplined_visit heldC) (.start t)
    refine ⟨fun call made => ?_, state.entered.nodup_iff.2 state.now.distinct, state.entered⟩
    have apart := state.always call made
    have split := List.nodup_append.1 apart.distinct
    exact ⟨split.1, apart.held, fun name mem inListed => split.2.2 name mem name inListed rfl,
      apart.length_le⟩
  · intro depth c s s' ok
    have extended := extended_visit ok
    exact ⟨extended.restored, extended.appended, known_visit ok⟩

/-! ## Poles -/

open Requester.Example

namespace Example

/-- Two configurations that extend each other. -/
def pair : Component := target [extending "a" ["b"], extending "b" ["a"]]

end Example

/-- The target has two configurations, and two nested visits are not enough for it. -/
example : (Example.pair.visitAll 2 [extending "a" ["b"]]).answer = .error .tooDeep := rfl

/-- Round the knot, and up to an absent ancestor with the two names below it still open. -/
theorem visits_keep_stack_knot :
    (knot.visitAll 5 [extending "a" ["b", "c"]]).answer =
      .ok [extending "d" [], extending "b" ["a", "d"], extending "c" ["d"],
        extending "a" ["b", "c"]] ∧
    (knot.visitAll 5 [extending "a" ["b", "c"]]).progress.calls.reverse.map
      (·.configuration.name) = ["a", "b", "a", "d", "c", "d"] ∧
    (∃ s, (knot.visit 5 (extending "a" ["b", "c"])).run .start = .ok () s ∧ s.opened = [] ∧
      "a" ∈ s.listed.map (·.name)) ∧
    (broken.visitAll 3 [extending "a" ["b"]]).answer = .error (.absent "d") ∧
    (broken.visitAll 3 [extending "a" ["b"]]).progress.opened = ["b", "a"] := by
  have heldKnot : ∀ c ∈ [extending "a" ["b", "c"]], knot.configuration? c.name = some c :=
    List.forall_mem_singleton.2 (by cbv)
  have heldBroken : ∀ c ∈ [extending "a" ["b"]], broken.configuration? c.name = some c :=
    List.forall_mem_singleton.2 (by cbv)
  have listed : knot.expand [extending "a" ["b", "c"]] =
      .ok [extending "d" [], extending "b" ["a", "d"], extending "c" ["d"],
        extending "a" ["b", "c"]] := by cbv
  have failed : broken.expand [extending "a" ["b"]] = .error "d" := by cbv
  have answered : (knot.visitAll 5 [extending "a" ["b", "c"]]).answer =
      .ok [extending "d" [], extending "b" ["a", "d"], extending "c" ["d"],
        extending "a" ["b", "c"]] := by
    rw [((visits_keep_stack knot).1 _ heldKnot).1 5 (by decide), listed]
    rfl
  have alone : (knot.visit 5 (extending "a" ["b", "c"])).run .start =
      knot.visitAll 5 [extending "a" ["b", "c"]] := rfl
  obtain ⟨s, ok, -⟩ := Outcome.exists_of_answer_eq_ok answered
  obtain ⟨restored, -, known⟩ := (visits_keep_stack knot).2 5 _ .start s (alone.trans ok)
  rw [restored] at known
  refine ⟨answered, rfl,
    ⟨s, alone.trans ok, restored, known.resolve_left List.not_mem_nil⟩, ?_, rfl⟩
  rw [((visits_keep_stack broken).1 _ heldBroken).1 3 (by decide), failed]
  rfl

end EdgeResolution.Component
