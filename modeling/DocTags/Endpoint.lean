import DocTags.Text.Blank
import DocTags.Text.Case

/-!
Endpoints: one documented HTTP operation each, with its parameters, responses and examples as they
are written in the source.
-/

namespace DocTags

inductive Verb where
  | get
  | post
  | put
  | delete
  deriving DecidableEq, Repr

namespace Verb

def all : List Verb :=
  [get, post, put, delete]

def name : Verb → Text
  | get => "GET".toList
  | post => "POST".toList
  | put => "PUT".toList
  | delete => "DELETE".toList

def key : Verb → Text
  | get => "get".toList
  | post => "post".toList
  | put => "put".toList
  | delete => "delete".toList

/-- Reads a verb; blanks around it and the case of its letters do not matter. -/
def ofToken? (token : Text) : Option Verb :=
  all.find? fun v => Text.sameLetters v.name (Text.trim token)

end Verb

inductive Location where
  | path
  | query
  | body
  | formData
  | header
  deriving DecidableEq, Repr

namespace Location

def all : List Location :=
  [path, query, body, formData, header]

def name : Location → Text
  | path => "path".toList
  | query => "query".toList
  | body => "body".toList
  | formData => "formData".toList
  | header => "header".toList

/-- Reads a location; blanks around it and the case of its letters do not matter. -/
def ofToken? (token : Text) : Option Location :=
  all.find? fun l => Text.sameLetters l.name (Text.trim token)

end Location

structure Parameter where
  name : Text
  location : Location
  /-- The data type as it is written: a primitive type or the name of a model. -/
  datatype : Text
  description : Text
  required : Bool
  deriving DecidableEq, Repr

structure Response where
  /-- The status code as it is written. -/
  code : Text
  description : Text
  deriving DecidableEq, Repr

/-- A response with status 204 has no body. -/
def Response.hasNoContent (r : Response) : Bool :=
  r.code == "204".toList

structure Resource where
  name : Text
  description : Text
  deriving DecidableEq, Repr

/-- What is documented of an operation, its path and resource apart. -/
structure Operation where
  verb : Verb
  description : Text
  summary : Option Text
  operationId : Option Text
  parameters : List Parameter
  responses : List Response
  /-- The data type of a successful response. -/
  responseType : Option Text
  requestSample : Option Text
  responseSample : Option Text
  deriving DecidableEq, Repr

structure Endpoint where
  resource : Resource
  path : Text
  operation : Operation
  deriving DecidableEq, Repr

end DocTags
