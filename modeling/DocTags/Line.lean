import DocTags.Grammar
import DocTags.Text.Blank
import DocTags.Text.Word

/-!
Classification of source lines. A line is code, plain commentary, or begins with a tag. Of several
spellings that fit, the longest is meant, and of equally long ones that of the tag declared first.
-/

namespace DocTags

inductive Line where
  | code
  /-- A comment without a tag at its start. -/
  | plain (text : Text)
  /-- A comment that starts with a tag: the whole comment, and what follows the tag. -/
  | tagged (tag : Tag) (body rest : Text)
  deriving DecidableEq, Repr

namespace Line

/-- Whether a marker may end in front of this text: `@responses` is not `@response`. -/
def endsWord : Text → Bool
  | [] => true
  | c :: _ => !isWordChar c

/-- What follows a spelling at the start of a comment. -/
def afterMarker? (marker body : Text) : Option Text :=
  if marker.isEmpty then none
  else (Text.after? marker body).filter endsWord

/-- A spelling found at the start of a comment. -/
structure Match where
  tag : Tag
  marker : Text
  rest : Text
  deriving DecidableEq, Repr

/-- The matches of all spellings, tags in the order of their declaration. -/
def candidates (g : Grammar) (body : Text) : List Match :=
  Tag.declared.flatMap fun tag =>
    (g.spellings tag).filterMap fun marker =>
      (afterMarker? marker body).map fun rest => ⟨tag, marker, rest⟩

/-- The longest match, the first of several equally long ones. -/
def longest? : List Match → Option Match
  | [] => none
  | m :: ms =>
    match longest? ms with
    | none => some m
    | some n => if Text.byteLength m.marker < Text.byteLength n.marker then some n else some m

/-- Classifies the text of a comment, without its comment mark and trimmed. -/
def ofComment (g : Grammar) (body : Text) : Line :=
  match longest? (candidates g body) with
  | some m => .tagged m.tag body (Text.trim m.rest)
  | none => .plain body

/-- What follows a mark at the start of a line; an empty mark starts nothing. -/
def afterMark? (mark line : Text) : Option Text :=
  if mark.isEmpty then none else (Text.after? mark line).map Text.trim

/-- Classifies a source line. The block mark is looked for first, since it may begin with the
comment mark. -/
def classify (g : Grammar) (line : Text) : Line :=
  let line := Text.trim line
  match afterMark? g.blockMark line with
  | some rest => .tagged .blockStart rest rest
  | none =>
    match afterMark? g.commentMark line with
    | some body => ofComment g body
    | none => .code

end Line
end DocTags
