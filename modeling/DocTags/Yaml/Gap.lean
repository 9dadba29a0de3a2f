import DocTags.Text.Basic

/-!
Positions in YAML text, and the blanks and line breaks between the words of a scalar. Line breaks
between words fold: a single one is a space, and of several the first one disappears.
-/

namespace DocTags.Yaml

structure Mark where
  /-- The number of lines in front of it. -/
  line : Nat
  /-- The number of characters in front of it in its line. -/
  column : Nat
  /-- The length of these characters in UTF-8. -/
  bytes : Nat
  deriving DecidableEq, Repr

namespace Mark

def start : Mark :=
  ⟨0, 0, 0⟩

/-- The position behind some characters of the line. -/
def skip (passed : Text) (m : Mark) : Mark :=
  ⟨m.line, m.column + passed.length, m.bytes + Text.byteLength passed⟩

/-- The start of the next line. -/
def nextLine (m : Mark) : Mark :=
  ⟨m.line + 1, 0, 0⟩

end Mark

/-- Characters that end a line when YAML text is read. -/
def endsLine (c : Char) : Bool :=
  c == '\n' || c == '\r' || c.toNat == 0x85 || c.toNat == 0x2028 || c.toNat == 0x2029

def isGapChar (c : Char) : Bool :=
  c == ' ' || c == '\t'

/-- Whether a blank, a line break or the end of the text comes next. -/
def atGap : Text → Bool
  | [] => true
  | c :: _ => isGapChar c || endsLine c

/-- What a line break stands for: the Unicode separators for themselves, others for a line feed. -/
def breakText (c : Char) : Text :=
  if c.toNat == 0x2028 || c.toNat == 0x2029 then [c] else ['\n']

/-- A line break at the start of a text: what it stands for, and what follows it. -/
def takeBreak? : Text → Option (Text × Text)
  | '\r' :: '\n' :: s => some (['\n'], s)
  | c :: s => if endsLine c then some (breakText c, s) else none
  | [] => none

/-- Blanks and line breaks between two words. -/
structure Gap where
  /-- The blanks, as long as there is no line break. -/
  blanks : Text
  first : Text
  more : Text
  crossed : Bool
  deriving DecidableEq, Repr

namespace Gap

def empty : Gap :=
  ⟨[], [], [], false⟩

/-- The gap behind an escaped line break, which stands for nothing. -/
def escaped : Gap :=
  ⟨[], [], [], true⟩

/-- Adds a blank; blanks next to a line break do not count. -/
def pushBlank (c : Char) (g : Gap) : Gap :=
  if g.crossed then g else { g with blanks := g.blanks ++ [c] }

def pushBreak (b : Text) (g : Gap) : Gap :=
  if g.crossed then { g with more := g.more ++ b } else ⟨[], b, [], true⟩

def text (g : Gap) : Text :=
  if g.crossed then
    if g.first = ['\n'] then if g.more.isEmpty then [' '] else g.more
    else g.first ++ g.more
  else g.blanks

/-- Reads a gap. In the lines behind the first break no tab may stand in front of the column
`limit`. -/
def read (limit : Option Int) : Mark → Gap → Text → Option (Mark × Gap × Text)
  | m, g, [] => some (m, g, [])
  | m, g, '\r' :: '\n' :: s => read limit m.nextLine (g.pushBreak ['\n']) s
  | m, g, c :: s =>
    if isGapChar c then
      if c == '\t' && g.crossed && (limit.any fun n => (m.column : Int) < n) then none
      else read limit (m.skip [c]) (g.pushBlank c) s
    else if endsLine c then read limit m.nextLine (g.pushBreak (breakText c)) s
    else some (m, g, c :: s)

end Gap

/-- Whether a line that marks the start or the end of a document comes next. -/
def atDocumentMark : Text → Bool
  | '-' :: '-' :: '-' :: s => atGap s
  | '.' :: '.' :: '.' :: s => atGap s
  | _ => false

end DocTags.Yaml
