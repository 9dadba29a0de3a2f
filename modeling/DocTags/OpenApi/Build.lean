import DocTags.Json.Reader
import DocTags.Model
import DocTags.OpenApi.Document
import DocTags.PathGroup
import DocTags.Text.Word

/-!
Documents from grouped endpoints and models. Paths, verbs, responses and properties keep the order
of the input; where one of them is documented again, the later account replaces the earlier one in
its place.
-/

namespace DocTags.OpenApi

/-- The data types that are written by name; every other one refers to a model. -/
def primitiveTypes : List Text :=
  ["array", "integer", "string", "double", "long", "short", "char", "number"].map String.toList

def jsonMediaType : Text :=
  "application/json".toList

/-- The schema of a documented data type. Primitive types are known by their letters in any case. It
makes no difference that only ASCII letters are lower-cased here: of all other characters only
U+0130 and U+212A come to ASCII letters in lower case, to an `i` with a combining dot behind it and
to a `k`, and no name of a primitive type has either of these. -/
def Schema.ofDatatype (datatype : Text) : Schema :=
  let datatype := Text.trim datatype
  if datatype.isEmpty then ofType "object".toList
  else
    let lower := Text.lower datatype
    if primitiveTypes.contains lower then ofType lower else ofModel datatype

/-- An example as a JSON value if it is one, and as a string otherwise. -/
def sampleValue (raw : Text) : Json.Value :=
  (Json.Value.ofText? raw).getD (.string raw)

/-- The identifier of an operation that has none of its own: the verb and the segments of the path,
reduced to word characters. -/
def defaultOperationId (verb : Verb) (path : Text) : Text :=
  let segments := (Text.pieces '/' path).map fun segment => segment.filter isWordChar
  Text.join ['_'] (verb.key :: segments.filter (!·.isEmpty))

def jsonContent (schema : Schema) (sample : Option Json.Value) : OrderedMap MediaType :=
  [(jsonMediaType, ⟨schema, sample⟩)]

def Parameter.ofParameter (p : DocTags.Parameter) : Parameter where
  name := p.name
  description := p.description
  required := p.required
  location := p.location.name
  schema := if p.datatype.isEmpty then Schema.any else Schema.ofType p.datatype

/-- The schema of a request body: that of the first body parameter. -/
def requestSchema (parameters : List DocTags.Parameter) : Schema :=
  match parameters.find? fun p => p.location = .body with
  | some p => Schema.ofDatatype p.datatype
  | none => Schema.ofType "object".toList

/-- A response with status 204 has no content; the example belongs to the responses whose status
begins with 2. -/
def Response.ofResponse (op : DocTags.Operation) (r : DocTags.Response) : Response where
  description := r.description
  content :=
    if r.hasNoContent then none
    else
      let sample := if r.code.head? = some '2' then op.responseSample else none
      some (jsonContent (Schema.ofDatatype (op.responseType.getD [])) (sample.map sampleValue))

def Operation.ofTagged (path : Text) (t : TaggedOperation) : Operation :=
  let op := t.operation
  { tags := t.tags
    operationId := op.operationId.getD (defaultOperationId op.verb path)
    parameters := op.parameters.map Parameter.ofParameter
    requestBody := op.requestSample.map fun raw =>
      ⟨jsonContent (requestSchema op.parameters) (some (sampleValue raw))⟩
    responses := OrderedMap.ofEntries (op.responses.map fun r => (r.code, Response.ofResponse op r))
    description := op.description
    summary := op.summary.getD [] }

def Schema.ofProperty (p : Property) : Schema where
  reference := none
  type := Text.nonempty? p.datatype
  description := Text.nonempty? p.description
  nullable := p.nullable
  properties := none
  required := none
  sample := p.sample.map .string

def Schema.ofModelRecord (m : Model) : Schema :=
  let required := (m.properties.filter fun p => p.required = some true).map (·.name)
  { reference := none
    type := some "object".toList
    description := Text.nonempty? m.description
    nullable := none
    properties :=
      some (OrderedMap.ofEntries (m.properties.map fun p => (p.name, Schema.ofProperty p)))
    required := if required.isEmpty then none else some required
    sample := none }

namespace Document

/-- Adds the operations of a path to the ones already there. -/
def addGroup (paths : OrderedMap PathItem) (p : PathGroup) : OrderedMap PathItem :=
  paths.alter p.path fun item =>
    p.operations.foldl
      (fun item t => item.insert t.operation.verb.key (Operation.ofTagged p.path t))
      (item.getD [])

/-- Lists a tag. The first description that is not empty stays. -/
def addTag (description : Text) (tags : OrderedMap Text) (name : Text) : OrderedMap Text :=
  tags.alter name fun old => PathGroup.firstNonempty (old.getD []) description

/-- The tags of all operations, each described by an operation that carries it. -/
def tagTable (groups : List PathGroup) : List ApiTag :=
  let operations := groups.flatMap (·.operations)
  let table := operations.foldl
    (fun tags t => t.tags.foldl (addTag t.resourceDescription) tags) []
  table.map fun (name, description) => ⟨name, description⟩

/-- The names of the models that another model of the same name stands before, in order. -/
def repeatedModels : (seen : List Text) → List Model → List Text
  | _, [] => []
  | seen, m :: ms =>
    if seen.contains m.name then m.name :: repeatedModels seen ms
    else repeatedModels (m.name :: seen) ms

def modelSchemas (models : List Model) : OrderedMap Schema :=
  OrderedMap.ofEntries (models.map fun m => (m.name, Schema.ofModelRecord m))

/-- The description of a document that is given none. -/
def standardInfo : Info where
  title := "Generated API".toList
  description := some "API documentation generated from source annotations".toList
  version := "1.0.0".toList

/-- The servers of a document that is given none. -/
def standardServers : List Text :=
  [['/']]

/-- Builds a document. An empty list of servers stands for the standard one. -/
def build (info : Info) (servers : List Text) (groups : List PathGroup) (models : List Model) :
    Document where
  openapi := "3.0.0".toList
  info := info
  servers := if servers.isEmpty then standardServers else servers
  paths := groups.foldl addGroup []
  tags := tagTable groups
  schemas := modelSchemas models

end Document
end DocTags.OpenApi
