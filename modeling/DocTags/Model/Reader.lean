import DocTags.Endpoint.Reader
import DocTags.Model

/-!
Reading of model blocks. A property may be continued by one line of prose and followed by an
example; the lines that it uses up belong to no other property, and no prose below a property
describes the model. Reading never fails. A model that mentions parameters may be an endpoint in
disguise, which is worth a warning.
-/

namespace DocTags

namespace Property

def requiredMark : Text := "(required)".toList
def optionalMark : Text := "(optional)".toList
def nullableMark : Text := "(nullable)".toList

/-- Whether a property line marks its property as required or optional. -/
def requirement? (rest : Text) : Option Bool :=
  if Text.contains requiredMark rest then some true
  else if Text.contains optionalMark rest then some false
  else none

/-- The description on the property line. Without a data type and a group in parentheses it is what
follows the name. -/
def firstDescription (rest : Text) : Text :=
  Text.trim ((trailing? rest).getD (rest.dropWhile fun c => !opensGroup c))

def ofRest (rest : Text) : Property where
  name := Text.trim (headline rest)
  datatype := datatypeOf rest
  description := firstDescription rest
  required := requirement? rest
  nullable := if Text.contains nullableMark rest then some true else none
  sample := none

/-- Adds a line of prose to a description, as a paragraph of its own. -/
def continued (description more : Text) : Text :=
  if description.isEmpty then more else description ++ ['\n', '\n'] ++ more

/-- An example without the quotes around it. -/
def unquoted (raw : Text) : Text :=
  Text.trim (Text.trimMarks '"' (Text.trim raw))

/-- Reads the line of prose that may continue a property, and counts the lines used. -/
def readContinuation (p : Property) : List CommentLine → Property × Nat
  | [] => (p, 0)
  | l :: _ =>
    match l.prose? with
    | some more => ({ p with description := continued p.description more }, 1)
    | none => (p, 0)

/-- Reads the example that may follow a property, on the line of the tag or on the line of prose
below it, and counts the lines used. -/
def readSample (p : Property) : List CommentLine → Property × Nat
  | [] => (p, 0)
  | l :: below =>
    if l.has .sample then
      let inline := Text.trim l.rest
      if inline.isEmpty then
        match below with
        | [] => (p, 1)
        | next :: _ =>
          if next.isPlain then ({ p with sample := some (unquoted next.text) }, 2) else (p, 1)
      else ({ p with sample := some (unquoted inline) }, 1)
    else (p, 0)

/-- Reads a property from its line and the lines below it, and counts how many of those it uses. -/
def read (rest : Text) (below : List CommentLine) : Property × Nat :=
  let (p, used) := readContinuation (ofRest rest) below
  let (p, more) := readSample p (below.drop used)
  (p, used + more)

end Property

namespace Model

structure Body where
  /-- The prose above the first property. -/
  prose : List Text
  summary : Option Text
  version : Option Text
  properties : List Property
  deriving DecidableEq, Repr

/-- Reads the lines below a model line, of which the first `used` belong to the property above them.
Of several summaries or versions the last one stands; prose is kept until the first property. -/
def readBody : (used : Nat) → List CommentLine → Body
  | _, [] => ⟨[], none, none, []⟩
  | used + 1, _ :: below => readBody used below
  | 0, l :: below =>
    match l.tag with
    | some .property =>
      let (p, used) := Property.read l.rest below
      let body := readBody used below
      { body with prose := [], properties := p :: body.properties }
    | some .summary =>
      let body := readBody 0 below
      { body with summary := body.summary <|> Text.nonempty? l.rest }
    | some .version =>
      let body := readBody 0 below
      { body with version := body.version <|> Text.nonempty? l.rest }
    | none =>
      let body := readBody 0 below
      { body with prose := l.prose?.toList ++ body.prose }
    | _ => readBody 0 below

def ofBlock (b : Block) : Model :=
  match Block.splitAt? .model b.lines with
  | none => ⟨[], [], none, none, []⟩
  | some (_, l, below) =>
    let body := readBody 0 below
    { name := Text.trim l.rest
      description := Text.joinLines body.prose
      summary := body.summary
      version := body.version
      properties := body.properties }

/-- The warnings about a model block: one for each line below the model line that mentions a
parameter tag. -/
def warnings (g : Grammar) (b : Block) : List Problem :=
  match Block.splitAt? .model b.lines with
  | none => []
  | some (_, l, below) =>
    (below.filter fun line => g.mentions .parameter line.text).map fun line =>
      .ambiguousModel line.number (Text.trim l.rest)

end Model
end DocTags
