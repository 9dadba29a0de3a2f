import DocTags.Text.Basic

/-!
The grammar of documentation tags: which text opens a comment, which text opens a block, and by
which spellings each tag is written. A grammar is data, so that a project can have its own
spellings; `Grammar.standard` is used where it says nothing else.
-/

namespace DocTags

inductive Tag where
  | blockStart
  | resource
  | path
  | parameter
  | response
  | responseType
  /-- An example of a response body or of a property. -/
  | sample
  | requestSample
  | model
  | property
  | summary
  | operationId
  | version
  deriving DecidableEq, Repr

namespace Tag

/-- The tags that stand behind a comment mark, in the order in which they are declared. -/
def declared : List Tag :=
  [resource, path, parameter, response, responseType, sample, requestSample, model, property,
    summary, operationId, version]

def name : Tag → Text
  | blockStart => "block start".toList
  | resource => "resource".toList
  | path => "path".toList
  | parameter => "parameter".toList
  | response => "response".toList
  | responseType => "response_type".toList
  | sample => "example".toList
  | requestSample => "example_request".toList
  | model => "model".toList
  | property => "property".toList
  | summary => "summary".toList
  | operationId => "operation_id".toList
  | version => "version".toList

end Tag

/-- The spellings of a grammar. An empty spelling is never matched. -/
structure Grammar where
  /-- Makes a line a comment. -/
  commentMark : Text
  /-- Makes a line the first one of a block. -/
  blockMark : Text
  resource : List Text
  path : List Text
  parameter : List Text
  response : List Text
  responseType : List Text
  sample : List Text
  requestSample : List Text
  model : List Text
  property : List Text
  summary : List Text
  operationId : List Text
  version : List Text
  deriving DecidableEq, Repr

namespace Grammar

/-- The spellings that hold unless a grammar file changes them. -/
def standard : Grammar where
  commentMark := "#".toList
  blockMark := "##".toList
  resource := ["@resource".toList]
  path := ["@path".toList]
  parameter := ["@parameter".toList]
  response := ["@response".toList]
  responseType := ["@response_type".toList]
  sample := ["@example".toList, "@example_response".toList]
  requestSample := ["@example_request".toList]
  model := ["@!model".toList, "@model".toList]
  property := ["@property".toList]
  summary := ["@summary".toList]
  operationId := ["@operation_id".toList]
  version := ["@version".toList]

def spellings (g : Grammar) : Tag → List Text
  | .blockStart => [g.blockMark]
  | .resource => g.resource
  | .path => g.path
  | .parameter => g.parameter
  | .response => g.response
  | .responseType => g.responseType
  | .sample => g.sample
  | .requestSample => g.requestSample
  | .model => g.model
  | .property => g.property
  | .summary => g.summary
  | .operationId => g.operationId
  | .version => g.version

/-- Whether a spelling of the tag stands anywhere in a text. -/
def mentions (g : Grammar) (tag : Tag) (text : Text) : Bool :=
  (g.spellings tag).any fun m => !m.isEmpty && Text.contains m text

end Grammar
end DocTags
