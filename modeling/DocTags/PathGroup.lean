import DocTags.Endpoint
import DocTags.OrderedMap
import DocTags.Problem

/-!
Endpoints grouped by their path. Paths that differ only in how a parameter is written, as `:id` or
as `{id}`, are the same path.
-/

namespace DocTags

/-- Writes a segment `:id` as `{id}`. -/
def normalizeSegment : Text → Text
  | ':' :: name => '{' :: name ++ ['}']
  | segment => segment

/-- Writes every parameter of a path in braces. -/
def normalizePath (path : Text) : Text :=
  Text.join ['/'] ((Text.pieces '/' path).map normalizeSegment)

/-- An operation with the resources that it is listed under. -/
structure TaggedOperation where
  tags : List Text
  /-- The description of the resource that the tags name. -/
  resourceDescription : Text
  operation : Operation
  deriving DecidableEq, Repr

/-- The operation of an endpoint; an endpoint of a resource without a name has no tag. -/
def TaggedOperation.ofEndpoint (e : Endpoint) : TaggedOperation where
  tags := (Text.nonempty? e.resource.name).toList
  resourceDescription := e.resource.description
  operation := e.operation

/-- The operations of one path, in the order of their endpoints. -/
structure PathGroup where
  path : Text
  resource : Resource
  operations : List TaggedOperation
  deriving DecidableEq, Repr

namespace PathGroup

/-- The first of two texts, unless it is empty. -/
def firstNonempty (s t : Text) : Text :=
  if s.isEmpty then t else s

/-- The group of a path before any endpoint is in it. -/
def empty (path : Text) : PathGroup :=
  ⟨path, ⟨[], []⟩, []⟩

/-- Adds an endpoint at the end. The first name and the first description that are not empty stand
for the whole group. -/
def push (p : PathGroup) (e : Endpoint) : PathGroup where
  path := p.path
  resource :=
    { name := firstNonempty p.resource.name e.resource.name
      description := firstNonempty p.resource.description e.resource.description }
  operations := p.operations ++ [.ofEndpoint e]

def add (groups : OrderedMap PathGroup) (e : Endpoint) : OrderedMap PathGroup :=
  let path := normalizePath e.path
  groups.alter path fun p => (p.getD (empty path)).push e

/-- Groups endpoints by path, in the order in which the paths first come. -/
def ofEndpoints (endpoints : List Endpoint) : List PathGroup :=
  (endpoints.foldl add []).values

/-- The verbs that are met a second time, given those met before and those already found twice. -/
def repeatedFrom : (seen twice : List Verb) → List Verb → List Verb
  | _, _, [] => []
  | seen, twice, v :: vs =>
    if seen.contains v && !twice.contains v then v :: repeatedFrom seen (v :: twice) vs
    else repeatedFrom (v :: seen) twice vs

/-- The verbs documented more than once, in the order of their second occurrences. -/
def repeatedVerbs (p : PathGroup) : List Verb :=
  repeatedFrom [] [] (p.operations.map (·.operation.verb))

/-- One warning for each path and verb documented more than once. -/
def duplicates (groups : List PathGroup) : List Problem :=
  groups.flatMap fun p => p.repeatedVerbs.map fun v => .duplicateOperation p.path v.name

end PathGroup
end DocTags
