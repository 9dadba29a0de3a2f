import DocTags.OpenApi.Document

/-!
Documents as JSON values. Fields come in the order of their declaration, and an optional field that
is absent is left out.
-/

namespace DocTags.OpenApi

open Json (Value)

def member (name : String) (v : Value) : List (Text × Value) :=
  [(name.toList, v)]

/-- A member that is left out if there is no value. -/
def optional (name : String) (v : Option Value) : List (Text × Value) :=
  match v with
  | some v => [(name.toList, v)]
  | none => []

def objectOf {α : Type} (encode : α → Value) (m : OrderedMap α) : Value :=
  .object (m.map fun (k, v) => (k, encode v))

def arrayOf {α : Type} (encode : α → Value) (xs : List α) : Value :=
  .array (xs.map encode)

def texts (xs : List Text) : Value :=
  arrayOf .string xs

def Info.encode (i : Info) : Value :=
  .object (
    member "title" (.string i.title) ++
    optional "description" (i.description.map .string) ++
    member "version" (.string i.version))

mutual

def Schema.encode : Schema → Value
  | ⟨reference, type, description, nullable, properties, required, sample⟩ =>
    .object (
      optional "$ref" (reference.map .string) ++
      optional "type" (type.map .string) ++
      optional "description" (description.map .string) ++
      optional "nullable" (nullable.map .bool) ++
      Schema.encodeProperties properties ++
      optional "required" (required.map texts) ++
      optional "example" sample)

def Schema.encodeProperties : Option (List (Text × Schema)) → List (Text × Value)
  | none => []
  | some properties => member "properties" (.object (Schema.encodeEntries properties))

def Schema.encodeEntries : List (Text × Schema) → List (Text × Value)
  | [] => []
  | (name, schema) :: rest => (name, schema.encode) :: Schema.encodeEntries rest

end

def MediaType.encode (m : MediaType) : Value :=
  .object (member "schema" m.schema.encode ++ optional "example" m.sample)

def Parameter.encode (p : Parameter) : Value :=
  .object (
    member "name" (.string p.name) ++
    member "description" (.string p.description) ++
    member "required" (.bool p.required) ++
    member "in" (.string p.location) ++
    member "schema" p.schema.encode)

def RequestBody.encode (b : RequestBody) : Value :=
  .object (member "content" (objectOf MediaType.encode b.content))

def Response.encode (r : Response) : Value :=
  .object (
    member "description" (.string r.description) ++
    optional "content" (r.content.map (objectOf MediaType.encode)))

def Operation.encode (o : Operation) : Value :=
  .object (
    member "tags" (texts o.tags) ++
    member "operationId" (.string o.operationId) ++
    member "parameters" (arrayOf Parameter.encode o.parameters) ++
    optional "requestBody" (o.requestBody.map RequestBody.encode) ++
    member "responses" (objectOf Response.encode o.responses) ++
    member "description" (.string o.description) ++
    member "summary" (.string o.summary))

def ApiTag.encode (t : ApiTag) : Value :=
  .object (member "name" (.string t.name) ++ member "description" (.string t.description))

def encodeServer (url : Text) : Value :=
  .object (member "url" (.string url))

def Document.encode (d : Document) : Value :=
  .object (
    member "openapi" (.string d.openapi) ++
    member "info" d.info.encode ++
    member "servers" (arrayOf encodeServer d.servers) ++
    member "paths" (objectOf (objectOf Operation.encode) d.paths) ++
    member "tags" (arrayOf ApiTag.encode d.tags) ++
    member "components" (.object (member "schemas" (objectOf Schema.encode d.schemas))))

end DocTags.OpenApi
