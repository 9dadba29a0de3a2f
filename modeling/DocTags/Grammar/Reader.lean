import DocTags.Grammar
import DocTags.Json.Value
import DocTags.Yaml.Node

/-!
Grammars from files and from JSON values. Every field may be left out, which leaves the standard
spellings in force; fields that a grammar does not have do not matter.
-/

namespace DocTags.Grammar

def fieldNames : List Text :=
  ["comment_prefix", "block_marker", "resource", "path", "parameter", "response", "response_type",
    "example", "example_request", "model", "property", "summary", "operation_id", "version"].map
    String.toList

/-- Reads a field, which has a standard value where it is left out. -/
def fieldOr {α β : Type} (standard : β) (read : α → Option β) : Option α → Option β
  | none => some standard
  | some a => read a

/-- A grammar from its fields, all in order. -/
def ofFields? {α : Type} (text : α → Option Text) (texts : α → Option (List Text)) :
    List (Option α) → Option Grammar
  | [commentMark, blockMark, resource, path, parameter, response, responseType, sample,
      requestSample, model, property, summary, operationId, version] => do
    some {
      commentMark := ← fieldOr standard.commentMark text commentMark
      blockMark := ← fieldOr standard.blockMark text blockMark
      resource := ← fieldOr standard.resource texts resource
      path := ← fieldOr standard.path texts path
      parameter := ← fieldOr standard.parameter texts parameter
      response := ← fieldOr standard.response texts response
      responseType := ← fieldOr standard.responseType texts responseType
      sample := ← fieldOr standard.sample texts sample
      requestSample := ← fieldOr standard.requestSample texts requestSample
      model := ← fieldOr standard.model texts model
      property := ← fieldOr standard.property texts property
      summary := ← fieldOr standard.summary texts summary
      operationId := ← fieldOr standard.operationId texts operationId
      version := ← fieldOr standard.version texts version }
  | _ => none

/-! ### JSON -/

def jsonText? : Json.Value → Option Text
  | .string s => some s
  | _ => none

def jsonTexts? : Json.Value → Option (List Text)
  | .array items => items.mapM jsonText?
  | _ => none

/-- Reads a grammar from an object with its fields, or from an array of fields in order, of which
the last ones may be left out. -/
def ofJson? : Json.Value → Option Grammar
  | .object members =>
    ofFields? jsonText? jsonTexts? (fieldNames.map fun f => OrderedMap.get? f members)
  | .array items =>
    let missing := List.replicate (fieldNames.length - items.length) none
    ofFields? jsonText? jsonTexts? (items.map some ++ missing)
  | _ => none

/-! ### Grammar files -/

open Yaml (Node YamlDocument)

/-- Whether a node is what stands where nothing is written. -/
def isNothing : Node → Bool
  | .scalar text plain => text.isEmpty && plain
  | _ => false

/-- Any scalar is taken by its text, whatever else it might be. -/
def yamlText? (d : YamlDocument) (n : Node) : Option Text :=
  match d.resolve? n with
  | some (.scalar text _) => some text
  | _ => none

/-- A list of texts; nothing at all is the empty list. -/
def yamlTexts? (d : YamlDocument) (n : Node) : Option (List Text) :=
  match d.resolve? n with
  | some (.sequence items) => items.mapM (yamlText? d)
  | some n => if isNothing n then some [] else none
  | none => none

/-- The member with a name; none of that name may be there twice. -/
def yamlField? (members : List (Text × Node)) (name : Text) : Option (Option Node) :=
  match members.filter fun m => m.1 == name with
  | [] => some none
  | [m] => some (some m.2)
  | _ => none

def ofDocument? (d : YamlDocument) : Option Grammar :=
  match d.resolve? d.root with
  | some (.mapping members) => do
    let members ← members.mapM fun (k, v) => (yamlText? d k).map fun k => (k, v)
    ofFields? (yamlText? d) (yamlTexts? d) (← fieldNames.mapM (yamlField? members))
  | some n => if isNothing n then some standard else none
  | none => none

/-- Reads the content of a grammar file, in YAML or in JSON, which is YAML too. A file without a
document changes nothing. -/
def ofFile? (content : Text) : Option Grammar := do
  match ← YamlDocument.ofText? content with
  | none => some standard
  | some d => ofDocument? d

end DocTags.Grammar
