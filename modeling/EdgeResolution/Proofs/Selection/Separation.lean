/-
# EdgeResolution.Proofs.Selection.Separation -- the two ways of selecting keep apart

A target is selected from by attributes or by name, and the way is a matter of the
target and the consumer (`Component.MatchedFor`).  What belongs to the other way has no
part in the outcome:

* by attributes, any two edges come to the same, told of different requesters
  (`toldAlike_of_matched`): no declaration, source configuration or mapping shows;
* by name, an edge comes to what its declaration selects (`select_of_not_matched`): no
  schema and no attribute shows.

`selection_ways_keep_apart` compares two selections on each way.
-/
import EdgeResolution.Proofs.Selection.Attribution

namespace EdgeResolution

set_option autoImplicit false

namespace Edge

variable {e : Edge} {consumer : Attributes} {t : Component} {schema : Schema}

/-! ## By attributes -/

/-- One outcome, told of a first and of a second requester: the same configuration, or the same
failure but for the requester. -/
inductive ToldAlike (first second : Requester) :
    Except Failure (List Configuration) → Except Failure (List Configuration) → Prop
  | selected (v : Configuration) : ToldAlike first second (.ok [v]) (.ok [v])
  | noMatchingVariant (target attributes : String) :
      ToldAlike first second (.error (.noMatchingVariant first.text target attributes))
        (.error (.noMatchingVariant second.text target attributes))
  | ambiguousVariant (target : String) (candidates : List String) :
      ToldAlike first second (.error (.ambiguousVariant first.text target candidates))
        (.error (.ambiguousVariant second.text target candidates))

/-- By attributes an edge selects what is matched, and tells of its requester what is not. -/
theorem select_of_matched (e : Edge) (schema : Schema) (matched : t.MatchedFor consumer) :
    e.select consumer t schema =
      match Matching.select schema consumer t.variants with
      | .ok v => .ok [v]
      | .error m => .error (mismatch e.requester consumer t m) := by
  have way : Strategy.forTarget consumer t = .byAttributes :=
    Strategy.forTarget_eq_byAttributes_iff.2 matched
  cases outcome : Matching.select schema consumer t.variants with
  | ok v => simp only [select, way, outcome]
  | error m => simp only [select, way, outcome]

theorem toldAlike_of_matched (first second : Edge) (schema : Schema)
    (matched : t.MatchedFor consumer) :
    ToldAlike first.requester second.requester (first.select consumer t schema)
      (second.select consumer t schema) := by
  rw [select_of_matched first schema matched, select_of_matched second schema matched]
  cases Matching.select schema consumer t.variants with
  | ok v => exact .selected v
  | error m =>
      cases m with
      | noneCompatible => exact .noMatchingVariant _ _
      | tie names => exact .ambiguousVariant _ _

/-! ## By name -/

/-- What the declaration selects by name; it is a failure when that is nothing at all. -/
def byName (e : Edge) (t : Component) : Except Failure (List Configuration) :=
  match e.declaration.selectByName e.requester t with
  | .ok [] => .error (.nothingSelected e.requester.text t.id.text)
  | .ok (c :: rest) => .ok (c :: rest)
  | .error f => .error f

theorem select_of_not_matched (e : Edge) (schema : Schema) (byName : ¬ t.MatchedFor consumer) :
    e.select consumer t schema = e.byName t := by
  rw [select, Strategy.forTarget_of_not_matchedFor byName, Edge.byName]
  cases e.declaration.selectByName e.requester t with
  | error f => rfl
  | ok selected => cases selected <;> rfl

/-! ## Both -/

/-- **The two ways of selecting keep apart**: by attributes all edges come to the same but for the
requester, and by name every edge comes to what its declaration selects, whatever the schema, and
whatever the consumer as long as it keeps to this way. -/
theorem selection_ways_keep_apart (t : Component) :
    (∀ consumer schema, t.MatchedFor consumer → ∀ first second : Edge,
      ToldAlike first.requester second.requester (first.select consumer t schema)
        (second.select consumer t schema)) ∧
    (∀ consumer schema, ¬ t.MatchedFor consumer → ∀ e : Edge,
      e.select consumer t schema = e.byName t) ∧
    (∀ consumer schema consumer' schema', ¬ t.MatchedFor consumer → ¬ t.MatchedFor consumer' →
      ∀ e : Edge, e.select consumer t schema = e.select consumer' t schema') := by
  refine ⟨?_, ?_, ?_⟩
  · intro consumer schema matched first second
    exact toldAlike_of_matched first second schema matched
  · intro consumer schema byName e
    exact select_of_not_matched e schema byName
  · intro consumer schema consumer' schema' byName byName' e
    rw [select_of_not_matched e schema byName, select_of_not_matched e schema' byName']

namespace Example

def pom : Edge where
  requester := ⟨⟨"com.example", "app", "1.0"⟩, Configuration.named "compile"⟩
  declaration := .maven (MavenDeclaration.of ⟨"org.example", "lib", .requiring "1.0"⟩)
  reason := none

/-- Maps everything to the configuration of the same name. -/
def descriptor : Edge where
  requester := ⟨⟨"com.example", "tool", "2.0"⟩, (Configuration.named "test").extend ["runtime"]⟩
  declaration := .ivy ((IvyDeclaration.of ⟨"org.other", "kit", .free⟩).map "*" ["@"])
  reason := some "forced"

def usage (value : String) : Attributes := NameMap.empty.insert "usage" value

/-- Two variants, and a configuration that is no variant. -/
def entries : List Component.Entry :=
  [.variant ((Configuration.named "api").withAttributes (usage "api")),
    .variant ((Configuration.named "runtime").withAttributes (usage "runtime")),
    .configuration (Configuration.named "compile")]

def published : Component :=
  Component.ofEntries (.module ⟨"org.example", "lib", "1.0"⟩) .external entries

def built : Component := Component.ofEntries (.project ⟨":", ":lib"⟩) .project entries

end Example

open Example in
/-- Asked for nothing, the published target is matched, and the one of the build is not. -/
theorem selection_ways_keep_apart_published :
    published.MatchedFor NameMap.empty ∧
    ToldAlike pom.requester descriptor.requester (pom.select NameMap.empty published NameMap.empty)
      (descriptor.select NameMap.empty published NameMap.empty) ∧
    ¬ built.MatchedFor NameMap.empty ∧
    pom.select NameMap.empty built NameMap.empty = pom.byName built ∧
    pom.byName built = .ok [Configuration.named "compile"] ∧
    pom.select NameMap.empty built NameMap.empty =
      pom.select NameMap.empty built (Schema.favour NameMap.empty "usage" "runtime") := by
  have matched : published.MatchedFor NameMap.empty := ⟨by decide +kernel, .inl rfl⟩
  have byName : ¬ built.MatchedFor NameMap.empty := Component.not_matchedFor_empty rfl
  refine ⟨matched, ?_, byName, ?_, by cbv, ?_⟩
  · exact (selection_ways_keep_apart published).1 _ _ matched pom descriptor
  · exact (selection_ways_keep_apart built).2.1 _ _ byName pom
  · exact (selection_ways_keep_apart built).2.2 _ _ _ _ byName byName pom

end Edge
end EdgeResolution
