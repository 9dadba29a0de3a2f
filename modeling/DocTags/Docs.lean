import DocTags.Model.Reader

/-!
What the documentation blocks of a source say. An endpoint belongs to the resource of the nearest
resource block above it; endpoints without one are left out and reported once. Problems of one
block do not keep the others from being read.
-/

namespace DocTags

/-- Endpoints and models in the order of the sources, with the problems found. -/
structure Docs where
  endpoints : List Endpoint
  models : List Model
  diagnostics : List Diagnostic
  deriving DecidableEq, Repr

namespace Docs

def empty : Docs :=
  ⟨[], [], []⟩

def isEmpty (d : Docs) : Bool :=
  d.endpoints.isEmpty && d.models.isEmpty

/-- What one source says, then what the next one says. -/
def append (d e : Docs) : Docs :=
  ⟨d.endpoints ++ e.endpoints, d.models ++ e.models, d.diagnostics ++ e.diagnostics⟩

def concat (ds : List Docs) : Docs :=
  ds.foldr append empty

end Docs

/-- What a list of blocks says, its problems by kind. -/
structure Reading where
  endpoints : List Endpoint
  models : List Model
  /-- The problems of the endpoint blocks that could not be read. -/
  faults : List Problem
  /-- The first line of the first endpoint block without a resource. -/
  orphan : Option Nat
  warnings : List Problem
  deriving DecidableEq, Repr

namespace Reading

def empty : Reading :=
  ⟨[], [], [], none, []⟩

/-- Reads an endpoint block in front of what has been read below it. -/
def pushEndpoint (resource : Option Resource) (b : Block) (r : Reading) : Reading :=
  match resource with
  | none => { r with orphan := some b.startLine }
  | some resource =>
    match Endpoint.ofBlock resource b with
    | .ok endpoint => { r with endpoints := endpoint :: r.endpoints }
    | .error problem => { r with faults := problem :: r.faults }

/-- Reads a model block in front of what has been read below it. -/
def pushModel (g : Grammar) (b : Block) (r : Reading) : Reading :=
  { r with
    models := Model.ofBlock b :: r.models
    warnings := Model.warnings g b ++ r.warnings }

/-- Reads blocks, given the resource that stands above them. -/
def ofBlocks (g : Grammar) : (resource : Option Resource) → List Block → Reading
  | _, [] => empty
  | resource, b :: below =>
    match b.kind with
    | .resource => ofBlocks g (some (Resource.ofBlock b)) below
    | .endpoint => pushEndpoint resource b (ofBlocks g resource below)
    | .model => pushModel g b (ofBlocks g resource below)
    | .commentary => ofBlocks g resource below

/-- All problems: first of endpoint blocks, then of a missing resource, then of models. -/
def problems (r : Reading) : List Problem :=
  r.faults ++ r.orphan.toList.map .missingResource ++ r.warnings

end Reading

namespace Docs

/-- Reads the blocks of a source. The name of its file goes into the diagnostics. -/
def ofSource (g : Grammar) (file source : Text) : Docs :=
  let r := Reading.ofBlocks g none (Block.ofSource g source)
  { endpoints := r.endpoints
    models := r.models
    diagnostics := r.problems.map fun problem => ⟨file, problem⟩ }

/-- What is said of a source that can not be read. -/
def ofUnreadable (file : Text) (fault : ReadFault) : Docs :=
  { empty with diagnostics := [⟨file, .unreadable file fault⟩] }

end Docs
end DocTags
