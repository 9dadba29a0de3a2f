import DocTags.Block
import DocTags.Endpoint
import DocTags.Problem
import DocTags.Text.Groups

/-!
Reading of endpoint and resource blocks. The path line of an endpoint block is the first one; the
prose above it describes the endpoint, and the prose right below a parameter line continues the
description of that parameter. The first problem in the order of the lines is the one reported,
after those of the path line.
-/

namespace DocTags

/-- Reads a resource block: its name, and the prose below it. -/
def Resource.ofBlock (b : Block) : Resource :=
  match Block.splitAt? .resource b.lines with
  | none => ⟨[], []⟩
  | some (_, l, below) => ⟨l.rest, CommentLine.prose below⟩

/-- Splits a text at its first blank; a text without blanks has nothing behind it. -/
def firstWord (s : Text) : Text × Text :=
  (Text.cut? isBlank s).getD (s, [])

namespace PathLine

/-- The verb and the path, as they are written: `[GET] /widgets`, or `GET /widgets`. -/
def split (rest : Text) : Except PathFault (Text × Text) :=
  match rest with
  | '[' :: s =>
    match Text.cut? (· == ']') s with
    | some (verb, path) => .ok (Text.trim verb, Text.trim path)
    | none => .error (.unterminatedVerb rest)
  | _ =>
    let (verb, path) := firstWord rest
    .ok (verb, Text.trim path)

def read (rest : Text) : Except PathFault (Verb × Text) := do
  let (verb, path) ← split (Text.trim rest)
  match Verb.ofToken? verb with
  | none => throw (.unknownVerb verb)
  | some v => if path.isEmpty then throw .emptyPath else pure (v, path)

end PathLine

/-- The mark of a group that makes a parameter required. -/
def isRequiredMark (group : Text) : Bool :=
  Text.sameLetters group "required".toList

def opensGroup (c : Char) : Bool :=
  c == '(' || c == '['

/-- The text in front of the first bracketed group. -/
def headline (rest : Text) : Text :=
  rest.takeWhile fun c => !opensGroup c

/-- The data type of a parameter or property: its first group in brackets. -/
def datatypeOf (rest : Text) : Text :=
  (Text.firstGroup? '[' ']' rest).getD []

/-- The text behind the data type, or behind the last group in parentheses where there is no data
type. -/
def trailing? (rest : Text) : Option Text :=
  match Text.cut? (· == ']') rest with
  | some (_, after) => some after
  | none => Text.afterLast? (· == ')') rest

namespace Parameter

/-- Reads the location of a parameter: its first group in parentheses that does not say that it is
required. -/
def readLocation (name : Text) (groups : List Text) : Except ParameterFault Location :=
  match groups.find? fun g => !isRequiredMark g with
  | none => .error (.noLocation name)
  | some token =>
    match Location.ofToken? token with
    | none => .error (.unknownLocation name token)
    | some location => .ok location

def read (rest : Text) (below : List CommentLine) : Except ParameterFault Parameter := do
  let name := Text.trim (headline rest)
  let groups := Text.groups '(' ')' rest
  let location ← readLocation name groups
  let first := Text.trim ((trailing? rest).getD [])
  let continued := (below.takeWhile (·.isPlain)).map (·.text)
  pure {
    name
    location
    datatype := datatypeOf rest
    description := Text.joinLines ((first :: continued).filter (!·.isEmpty))
    required := location = .path || groups.any isRequiredMark }

end Parameter

/-- Reads what follows the tag on a response line: the status code, then the description. -/
def Response.read? (rest : Text) : Option Response :=
  let (code, description) := firstWord (Text.trim rest)
  if code.isEmpty then none else some ⟨code, Text.trim description⟩

namespace Operation

def readItems : List CommentLine → Except Problem (List Parameter × List Response)
  | [] => .ok ([], [])
  | l :: below =>
    match l.tag with
    | some .parameter =>
      match Parameter.read l.rest below with
      | .error fault => .error (.malformedParameter l.number fault)
      | .ok parameter =>
        (readItems below).map fun (parameters, responses) => (parameter :: parameters, responses)
    | some .response =>
      match Response.read? l.rest with
      | none => .error (.malformedResponse l.number)
      | some response =>
        (readItems below).map fun (parameters, responses) => (parameters, response :: responses)
    | _ => readItems below

/-- What follows a tag on the first line that has it. -/
def restOf? (tag : Tag) (lines : List CommentLine) : Option Text :=
  (lines.find? (·.has tag)).map fun l => Text.trim l.rest

/-- The text of a tag that is written on its own line. -/
def textOf? (tag : Tag) (lines : List CommentLine) : Option Text :=
  (restOf? tag lines).bind Text.nonempty?

/-- The data type named on the line of a tag, with brackets around it or without. -/
def typeOf? (tag : Tag) (lines : List CommentLine) : Option Text :=
  (restOf? tag lines).bind fun rest =>
    Text.nonempty? (Text.trim ((Text.firstGroup? '[' ']' rest).getD rest))

/-- The example of a tag: what follows it on its line or, where nothing does, the line below. -/
def sampleOf? (tag : Tag) (lines : List CommentLine) : Option Text :=
  match Block.splitAt? tag lines with
  | none => none
  | some (_, l, below) =>
    let inline := Text.trim l.rest
    if inline.isEmpty then below.head?.bind fun next => Text.nonempty? (Text.trim next.text)
    else some inline

end Operation

namespace Endpoint

def ofBlock (resource : Resource) (b : Block) : Except Problem Endpoint :=
  match Block.splitAt? .path b.lines with
  | none => .error (.malformedPath b.startLine .noPathLine)
  | some (above, l, _) =>
    match PathLine.read l.rest with
    | .error fault => .error (.malformedPath l.number fault)
    | .ok (verb, path) =>
      (Operation.readItems b.lines).map fun (parameters, responses) =>
        { resource
          path
          operation := {
            verb
            description := CommentLine.prose above
            summary := Operation.textOf? .summary b.lines
            operationId := Operation.textOf? .operationId b.lines
            parameters
            responses
            responseType := Operation.typeOf? .responseType b.lines
            requestSample := Operation.sampleOf? .requestSample b.lines
            responseSample := Operation.sampleOf? .sample b.lines } }

end Endpoint
end DocTags
