import DocTags.Json.Reader
import DocTags.OpenApi.Document

/-!
Documents from the syntax of JSON text. A record is an object, in which unknown members do not
matter and no known one may be repeated, or an array of all its fields in the order of their
declaration. Arrays, objects and records may be nested up to the depth of JSON values; what is
passed over as unknown has no such bound, except in path items, whose members are read as values
before it is known what they are.
-/

namespace DocTags.OpenApi

open Json (Tree Value)

/-- What a record says of its fields, in the order of their declaration. -/
abbrev Fields := List (Option Tree)

/-- The member with a name; none of that name may be there twice. -/
def field? (members : List (Text × Tree)) (name : Text) : Option (Option Tree) :=
  match members.filter fun m => m.1 == name with
  | [] => some none
  | [m] => some (some m.2)
  | _ => none

def Fields.ofTree? (names : List String) : Tree → Option Fields
  | .array items => if items.length = names.length then some (items.map some) else none
  | .object members => do
    let members ← members.mapM fun (key, t) => key.map fun key => (key, t)
    names.mapM fun name => field? members name.toList
  | _ => none

def required? {α : Type} (read : Tree → Option α) (field : Option Tree) : Option α :=
  field.bind read

/-- Reads a field that may be absent or null. -/
def optional? {α : Type} (read : Tree → Option α) : Option Tree → Option (Option α)
  | none | some .null => some none
  | some t => (read t).map some

def text? : Tree → Option Text
  | .string s => s
  | _ => none

def bool? : Tree → Option Bool
  | .bool b => some b
  | _ => none

/-- Reads an array, given how deep its items may be. -/
def list? {α : Type} (read : Nat → Tree → Option α) : (depth : Nat) → Tree → Option (List α)
  | depth + 1, .array items => items.mapM (read depth)
  | _, _ => none

/-- Reads an object as a map, given how deep its values may be. -/
def map? {α : Type} (read : Nat → Tree → Option α) : (depth : Nat) → Tree → Option (OrderedMap α)
  | depth + 1, .object members => do
    let entries ← members.mapM fun (key, t) => do
      some (← key, ← read depth t)
    some (OrderedMap.ofEntries entries)
  | _, _ => none

/-- Reads a record, given how deep its fields may be. -/
def record? {α : Type} (names : List String) (read : Nat → Fields → Option α) :
    (depth : Nat) → Tree → Option α
  | depth + 1, t => (Fields.ofTree? names t).bind (read depth)
  | 0, _ => none

def value? (depth : Nat) (t : Tree) : Option Value :=
  Value.ofTree? depth t

def texts? (depth : Nat) (t : Tree) : Option (List Text) :=
  list? (fun _ => text?) depth t

def Info.read? : Nat → Tree → Option Info :=
  record? ["title", "description", "version"] fun _ fields =>
    match fields with
    | [title, description, version] => do
      some {
        title := ← required? text? title
        description := ← optional? text? description
        version := ← required? text? version }
    | _ => none

def schemaFields : List String :=
  ["$ref", "type", "description", "nullable", "properties", "required", "example"]

mutual

/-- Reads a schema. The schemas of its properties stand two levels deeper. -/
def Schema.read? : (depth : Nat) → Tree → Option Schema
  | 0, _ => none
  | depth + 1, t => do
    match ← Fields.ofTree? schemaFields t with
    | [reference, type, description, nullable, properties, required, sample] =>
      some {
        reference := ← optional? text? reference
        type := ← optional? text? type
        description := ← optional? text? description
        nullable := ← optional? bool? nullable
        properties := ← optional? (Schema.readProperties? depth) properties
        required := ← optional? (texts? depth) required
        sample := ← optional? (value? depth) sample }
    | _ => none

def Schema.readProperties? : (depth : Nat) → Tree → Option (List (Text × Schema))
  | depth + 1, .object members => do
    let entries ← members.mapM fun (key, t) => do
      some (← key, ← Schema.read? depth t)
    some (OrderedMap.ofEntries entries)
  | _, _ => none

end

def MediaType.read? : Nat → Tree → Option MediaType :=
  record? ["schema", "example"] fun depth fields =>
    match fields with
    | [schema, sample] => do
      some {
        schema := ← required? (Schema.read? depth) schema
        sample := ← optional? (value? depth) sample }
    | _ => none

def Parameter.read? : Nat → Tree → Option Parameter :=
  record? ["name", "description", "required", "in", "schema"] fun depth fields =>
    match fields with
    | [name, description, required, location, schema] => do
      some {
        name := ← required? text? name
        description := ← required? text? description
        required := ← required? bool? required
        location := ← required? text? location
        schema := ← required? (Schema.read? depth) schema }
    | _ => none

def RequestBody.read? : Nat → Tree → Option RequestBody :=
  record? ["content"] fun depth fields =>
    match fields with
    | [content] => do
      some ⟨← required? (map? MediaType.read? depth) content⟩
    | _ => none

def Response.read? : Nat → Tree → Option Response :=
  record? ["description", "content"] fun depth fields =>
    match fields with
    | [description, content] => do
      some {
        description := ← required? text? description
        content := ← optional? (map? MediaType.read? depth) content }
    | _ => none

def Operation.read? : Nat → Tree → Option Operation :=
  record? ["tags", "operationId", "parameters", "requestBody", "responses", "description",
    "summary"] fun depth fields =>
    match fields with
    | [tags, operationId, parameters, requestBody, responses, description, summary] => do
      some {
        tags := ← required? (texts? depth) tags
        operationId := ← required? text? operationId
        parameters := ← required? (list? Parameter.read? depth) parameters
        requestBody := ← optional? (RequestBody.read? depth) requestBody
        responses := ← required? (map? Response.read? depth) responses
        description := ← required? text? description
        summary := ← required? text? summary }
    | _ => none

/-- Reads the operations of a path. All of their members must be values. -/
def readPathItem? (depth : Nat) (t : Tree) : Option PathItem := do
  let _ ← value? depth t
  map? Operation.read? depth t

def ApiTag.read? : Nat → Tree → Option ApiTag :=
  record? ["name", "description"] fun _ fields =>
    match fields with
    | [name, description] => do
      some { name := ← required? text? name, description := ← required? text? description }
    | _ => none

def readServer? : Nat → Tree → Option Text :=
  record? ["url"] fun _ fields =>
    match fields with
    | [url] => required? text? url
    | _ => none

def readComponents? : Nat → Tree → Option (OrderedMap Schema) :=
  record? ["schemas"] fun depth fields =>
    match fields with
    | [schemas] => required? (map? Schema.read? depth) schemas
    | _ => none

def Document.read? : Nat → Tree → Option Document :=
  record? ["openapi", "info", "servers", "paths", "tags", "components"] fun depth fields =>
    match fields with
    | [openapi, info, servers, paths, tags, components] => do
      some {
        openapi := ← required? text? openapi
        info := ← required? (Info.read? depth) info
        servers := ← required? (list? readServer? depth) servers
        paths := ← required? (map? readPathItem? depth) paths
        tags := ← required? (list? ApiTag.read? depth) tags
        schemas := ← required? (readComponents? depth) components }
    | _ => none

def Document.ofText? (s : Text) : Option Document :=
  (Tree.ofText? s).bind (Document.read? Json.maxDepth)

end DocTags.OpenApi
