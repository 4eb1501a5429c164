/-
# EdgeResolution.Session -- the edges of one resolution, and what is done to them

A session keeps the edges that have come up, in order; the place of an edge is its
handle and its identity.  It starts with one module edge.  A module edge pointed at
a project gives a project edge, which keeps the handle of the edge it stands for and
answers everything but its selector from there.

`step` carries out one request.  A derivation that changes nothing answers with the
handle it was asked on; any other derivation that succeeds adds one edge at the end
and answers with the new handle, even if an equal edge is there already.  Edges are
never changed or removed, and what fails adds none.
-/
import EdgeResolution.Edge

namespace EdgeResolution

set_option autoImplicit false

namespace Session

/-- An edge of a session. -/
inductive Node where
  | module (e : Edge)
  | project (path : ProjectPath) (source : Nat)
  deriving DecidableEq

/-- A request on one edge. -/
inductive Request where
  | look
  | source
  | withReason (reason : Option String)
  | withVersion (version : Version.Constraint)
  | withTarget (target : Selector)
  | select (consumer : Attributes) (target : Component) (schema : Schema)
  deriving DecidableEq

inductive Answer where
  | edge (handle : Nat)
  | selected (configurations : List Configuration)
  | failed (failure : Failure)
  /-- The request needs a module edge. -/
  | notAModule
  /-- The request needs a project edge. -/
  | notAProject
  | noSuchEdge
  deriving DecidableEq

end Session

/-- What an edge tells besides its selector, a project edge as the edge it stands for. -/
structure Edge.Shared where
  artifacts : List Artifact
  exclusions : List Exclusion
  isChanging : Bool
  isTransitive : Bool
  isPending : Bool
  reason : Option String
  deriving DecidableEq

def Edge.shared (e : Edge) : Edge.Shared where
  artifacts := e.artifacts
  exclusions := e.exclusions
  isChanging := e.isChanging
  isTransitive := e.isTransitive
  isPending := e.isPending
  reason := e.reason

/-- The edges so far; a handle is a place in the list. -/
structure Session where
  edges : List Session.Node
  deriving DecidableEq

namespace Session

def start (e : Edge) : Session := ⟨[.module e]⟩

def node? (s : Session) (handle : Nat) : Option Node := s.edges[handle]?

/-- Add an edge; its handle is the number of edges before it. -/
def push (s : Session) (n : Node) : Session × Answer :=
  (⟨s.edges ++ [n]⟩, .edge s.edges.length)

/-- Keep what a derivation on the edge at `handle` came to. -/
def keep (s : Session) (handle : Nat) : Edge.Derived → Session × Answer
  | .same => (s, .edge handle)
  | .changed e => s.push (.module e)

/-- A request on the module edge `e`, which is at `handle`. -/
def stepModule (s : Session) (handle : Nat) (e : Edge) : Request → Session × Answer
  | .look => (s, .edge handle)
  | .source => (s, .notAProject)
  | .withReason reason => s.keep handle (e.withReason reason)
  | .withVersion version => s.keep handle (e.withVersion version)
  | .withTarget (.module selector) => s.keep handle (e.withSelector selector)
  | .withTarget (.project path) => s.push (.project path handle)
  | .withTarget (.library library) => (s, .failed (e.libraryFailure library))
  | .select consumer target schema =>
      match e.select consumer target schema with
      | .ok configurations => (s, .selected configurations)
      | .error failure => (s, .failed failure)

/-- A request on the project edge at `handle`, which stands for the edge at `source`. -/
def stepProject (s : Session) (handle source : Nat) : Request → Session × Answer
  | .look => (s, .edge handle)
  | .source => (s, .edge source)
  | .withReason _ | .withVersion _ | .withTarget _ | .select _ _ _ => (s, .notAModule)

def step (s : Session) (handle : Nat) (request : Request) : Session × Answer :=
  match s.node? handle with
  | some (.module e) => s.stepModule handle e request
  | some (.project _ source) => s.stepProject handle source request
  | none => (s, .noSuchEdge)

/-- Carry out requests in order, and collect the answers. -/
def run : Session → List (Nat × Request) → Session × List Answer
  | s, [] => (s, [])
  | s, (handle, request) :: rest =>
      let (next, answer) := s.step handle request
      let (last, answers) := run next rest
      (last, answer :: answers)

/-! ## What an edge tells -/

/-- The module edge that an edge is, or stands for. -/
def origin? (s : Session) (handle : Nat) : Option Edge :=
  match s.node? handle with
  | some (.module e) => some e
  | some (.project _ source) =>
      match s.node? source with
      | some (.module e) => some e
      | _ => none
  | none => none

def selector? (s : Session) (handle : Nat) : Option Selector :=
  match s.node? handle with
  | some (.module e) => some (.module e.selector)
  | some (.project path _) => some (.project path)
  | none => none

/-- The source of a project edge. -/
def source? (s : Session) (handle : Nat) : Option Nat :=
  match s.node? handle with
  | some (.project _ source) => some source
  | _ => none

def isModule (s : Session) (handle : Nat) : Bool :=
  match s.node? handle with
  | some (.module _) => true
  | _ => false

end Session
end EdgeResolution
