import DocTags.Json.Value

/-!
OpenAPI documents, reduced to the parts that documentation tags can say something about. Names of
fields are those of the standard where they can be.
-/

namespace DocTags.OpenApi

structure Info where
  title : Text
  description : Option Text
  version : Text
  deriving DecidableEq, Repr

structure Schema where
  reference : Option Text
  type : Option Text
  description : Option Text
  nullable : Option Bool
  properties : Option (List (Text × Schema))
  required : Option (List Text)
  sample : Option Json.Value

structure MediaType where
  schema : Schema
  sample : Option Json.Value

structure Parameter where
  name : Text
  description : Text
  required : Bool
  location : Text
  schema : Schema

structure RequestBody where
  content : OrderedMap MediaType

structure Response where
  description : Text
  /-- None for a response without a body. -/
  content : Option (OrderedMap MediaType)

structure Operation where
  tags : List Text
  operationId : Text
  parameters : List Parameter
  requestBody : Option RequestBody
  responses : OrderedMap Response
  description : Text
  summary : Text

/-- The operations of one path, by the keys of their verbs. -/
abbrev PathItem := OrderedMap Operation

structure ApiTag where
  name : Text
  description : Text
  deriving DecidableEq, Repr

structure Document where
  openapi : Text
  info : Info
  servers : List Text
  paths : OrderedMap PathItem
  tags : List ApiTag
  schemas : OrderedMap Schema

namespace Schema

def any : Schema :=
  ⟨none, none, none, none, none, none, none⟩

def ofType (type : Text) : Schema :=
  { any with type := some type }

def ofModel (name : Text) : Schema :=
  { any with reference := some ("#/components/schemas/".toList ++ name) }

end Schema
end DocTags.OpenApi
