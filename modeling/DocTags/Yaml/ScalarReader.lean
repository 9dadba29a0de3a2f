import DocTags.Json.Tree
import DocTags.Yaml.Gap

/-!
Reading of YAML scalars: plain ones, quoted ones, and the two kinds of blocks. Every reader gives
the text of the scalar, whether it ended behind a line break, and where it ended.
-/

namespace DocTags.Yaml

structure Scanned where
  text : Text
  /-- Whether the scalar ended behind a line break. -/
  crossed : Bool
  mark : Mark
  rest : Text

/-- Characters that separate the parts of a flow collection. -/
def isFlowMark (c : Char) : Bool :=
  c == ',' || c == '[' || c == ']' || c == '\x7b' || c == '\x7d'

/-- Whether a character comes next that may not follow a colon inside a plain scalar of a flow
collection. -/
def atFlowMark : Text → Bool
  | [] => false
  | c :: _ => isFlowMark c || c == '?'

def plainWord (flow : Bool) : Text → Option (Text × Text)
  | [] => some ([], [])
  | c :: s =>
    if isGapChar c || endsLine c then some ([], c :: s)
    else if flow && c == ':' && atFlowMark s then none
    else if (c == ':' && atGap s) || (flow && isFlowMark c) then some ([], c :: s)
    else (plainWord flow s).map fun (word, rest) => (c :: word, rest)

/-- Reads the words of a plain scalar, of which `text` has been read and `gap` stands behind that.
Outside of flow collections its lines are indented to the column `limit` at least. -/
def readPlainFrom (flow : Bool) (limit : Int) :
    (fuel : Nat) → Mark → (text : Text) → Gap → Text → Option Scanned
  | 0, _, _, _, _ => none
  | fuel + 1, m, text, gap, s =>
    if (m.column = 0 && atDocumentMark s) || s.head? == some '#' then
      some ⟨text, gap.crossed, m, s⟩
    else do
      let (word, s) ← plainWord flow s
      if word.isEmpty then some ⟨text, gap.crossed, m, s⟩
      else
        let text := text ++ gap.text ++ word
        let (m, gap, s) ← Gap.read (some limit) (m.skip word) Gap.empty s
        if !flow && (m.column : Int) < limit then some ⟨text, gap.crossed, m, s⟩
        else readPlainFrom flow limit fuel m text gap s

def readPlain (flow : Bool) (limit : Int) (m : Mark) (s : Text) : Option Scanned :=
  readPlainFrom flow limit (s.length + 1) m [] Gap.empty s

def letterEscape? (c : Char) : Option Char :=
  match c with
  | '0' => some (Char.ofNat 0x00)
  | 'a' => some (Char.ofNat 0x07)
  | 'b' => some (Char.ofNat 0x08)
  | 't' => some '\t'
  | '\t' => some '\t'
  | 'n' => some '\n'
  | 'v' => some (Char.ofNat 0x0B)
  | 'f' => some (Char.ofNat 0x0C)
  | 'r' => some '\r'
  | 'e' => some (Char.ofNat 0x1B)
  | ' ' => some ' '
  | '"' => some '"'
  | '/' => some '/'
  | '\\' => some '\\'
  | 'N' => some (Char.ofNat 0x85)
  | '_' => some (Char.ofNat 0xA0)
  | 'L' => some (Char.ofNat 0x2028)
  | 'P' => some (Char.ofNat 0x2029)
  | _ => none

/-- The number of hexadecimal digits behind an escape. -/
def codeLength? (c : Char) : Option Nat :=
  match c with
  | 'x' => some 2
  | 'u' => some 4
  | 'U' => some 8
  | _ => none

/-- The character that hexadecimal digits name. -/
def codeChar? (digits : Text) : Option Char := do
  let code ← digits.foldlM (fun n c => (Json.hexDigit? c).map (16 * n + ·)) 0
  if 0x10FFFF < code ∨ (0xD800 ≤ code ∧ code ≤ 0xDFFF) then none else some (Char.ofNat code)

/-- Reads an escape behind its backslash: what it stands for, how it is written, and the rest. -/
def readEscape : Text → Option (Char × Text × Text)
  | [] => none
  | c :: s =>
    match letterEscape? c with
    | some e => some (e, [c], s)
    | none => do
      let n ← codeLength? c
      if s.length < n then none
      else some (← codeChar? (s.take n), c :: s.take n, s.drop n)

/-- A word of a quoted scalar, and what follows it. -/
structure QuotedWord where
  word : Text
  /-- Whether the word ended at an escaped line break. -/
  escaped : Bool
  mark : Mark
  rest : Text

/-- Reads a word between quotes, up to a blank, a line break or the closing quote. -/
def quotedWord (single : Bool) : (fuel : Nat) → Mark → Text → Option QuotedWord
  | 0, _, _ => none
  | _ + 1, m, [] => some ⟨[], false, m, []⟩
  | fuel + 1, m, c :: s =>
    let push (c : Char) (w : QuotedWord) : QuotedWord := { w with word := c :: w.word }
    if isGapChar c || endsLine c then some ⟨[], false, m, c :: s⟩
    else if single then
      match c, s with
      | '\'', '\'' :: s => (quotedWord single fuel (m.skip ['\'', '\'']) s).map (push '\'')
      | '\'', s => some ⟨[], false, m, '\'' :: s⟩
      | c, s => (quotedWord single fuel (m.skip [c]) s).map (push c)
    else if c = '"' then some ⟨[], false, m, c :: s⟩
    else if c = '\\' then
      match takeBreak? s with
      | some (_, s) => some ⟨[], true, m.nextLine, s⟩
      | none => do
        let (e, written, s) ← readEscape s
        (quotedWord single fuel (m.skip (c :: written)) s).map (push e)
    else (quotedWord single fuel (m.skip [c]) s).map (push c)

/-- Reads the words between quotes, of which `text` has been read. -/
def readQuotedFrom (single : Bool) : (fuel : Nat) → Mark → (text : Text) → Text → Option Scanned
  | 0, _, _, _ => none
  | fuel + 1, m, text, s =>
    if (m.column = 0 && atDocumentMark s) || s.isEmpty then none
    else do
      let w ← quotedWord single (s.length + 1) m s
      let text := text ++ w.word
      if w.rest.head? = some (if single then '\'' else '"') then
        some ⟨text, false, w.mark.skip (w.rest.take 1), w.rest.tail⟩
      else
        let (m, gap, s) ← Gap.read none w.mark (if w.escaped then Gap.escaped else Gap.empty) w.rest
        readQuotedFrom single fuel m (text ++ gap.text) s

/-- Reads a quoted scalar behind its opening quote. -/
def readQuoted (single : Bool) (m : Mark) (s : Text) : Option Scanned :=
  readQuotedFrom single (s.length + 1) m [] s

/-! ### Blocks -/

/-- What becomes of the line breaks at the end of a block. -/
inductive Chomp where
  | strip
  | clip
  | keep
  deriving DecidableEq, Repr

/-- The chomping that a sign in the head of a block asks for. -/
def Chomp.ofSign? (c : Char) : Option Chomp :=
  if c = '+' then some keep else if c = '-' then some strip else none

/-- The indentation that a digit in the head of a block asks for; it can not be zero. -/
def indentDigit? (c : Char) : Option Nat :=
  if c.isDigit ∧ c ≠ '0' then some (Json.digit c) else none

/-- The head of a block: the chomping, the indentation if it is given, how they are written, and the
rest. -/
def readHead (s : Text) : Option (Chomp × Option Nat × Text × Text) :=
  match s with
  | [] => some (.clip, none, [], s)
  | c :: t =>
    match Chomp.ofSign? c with
    | some chomp =>
      match t with
      | d :: u => if d.isDigit then (indentDigit? d).map fun n => (chomp, some n, [c, d], u)
        else some (chomp, none, [c], t)
      | [] => some (chomp, none, [c], t)
    | none =>
      if c.isDigit then do
        let n ← indentDigit? c
        match t with
        | d :: u =>
          match Chomp.ofSign? d with
          | some chomp => some (chomp, some n, [c, d], u)
          | none => some (.clip, some n, [c], t)
        | [] => some (.clip, some n, [c], t)
      else some (.clip, none, [], s)

/-- Passes over blanks and a comment up to the end of the line. -/
def skipComment (m : Mark) (s : Text) : Mark × Text :=
  let blanks := s.takeWhile isGapChar
  let s := s.dropWhile isGapChar
  let m := m.skip blanks
  match s with
  | '#' :: _ =>
    let comment := s.takeWhile fun c => !endsLine c
    (m.skip comment, s.dropWhile fun c => !endsLine c)
  | _ => (m, s)

/-- Passes over the rest of a line, which must be blank or a comment. -/
def endLine (m : Mark) (s : Text) : Option (Mark × Text) :=
  let (m, s) := skipComment m s
  match takeBreak? s with
  | some (_, s) => some (m.nextLine, s)
  | none => if s.isEmpty then some (m, s) else none

/-- The breaks of empty lines in a block, and where the next line with content begins. -/
structure EmptyLines where
  breaks : Text
  /-- The greatest indentation of a line. -/
  widest : Nat
  mark : Mark
  rest : Text

/-- Passes over indentation and empty lines. Where the indentation of the block is not known yet,
all spaces are indentation. -/
def skipEmptyLines (indent : Option Int) (widest : Nat) : Mark → Text → Option EmptyLines
  | m, [] => some ⟨[], max widest m.column, m, []⟩
  | m, '\r' :: '\n' :: s =>
    (skipEmptyLines indent (max widest m.column) m.nextLine s).map fun e =>
      { e with breaks := '\n' :: e.breaks }
  | m, c :: s =>
    let inIndent := indent.all fun n => (m.column : Int) < n
    if c == ' ' && inIndent then skipEmptyLines indent widest (m.skip [c]) s
    else if c == '\t' && inIndent then none
    else if endsLine c then
      (skipEmptyLines indent (max widest m.column) m.nextLine s).map fun e =>
        { e with breaks := breakText c ++ e.breaks }
    else some ⟨[], max widest m.column, m, c :: s⟩

/-- A block of which some lines have been read. -/
structure BlockText where
  text : Text
  /-- The break behind the last line with content. -/
  final : Text
  /-- The breaks of the empty lines behind it. -/
  empty : Text
  /-- Whether the last line with content begins with a blank. -/
  indented : Bool

/-- Adds a line with content. In a folded block a single break between two lines that begin with
words becomes a space, and one break between paragraphs of such lines disappears. -/
def BlockText.push (literal : Bool) (line : Text) (b : BlockText) : BlockText :=
  let indented := line.head?.any isGapChar
  let folds := !literal && b.final = ['\n'] && !b.indented && !indented
  let joint := if folds then if b.empty.isEmpty then [' '] else [] else b.final
  ⟨b.text ++ joint ++ b.empty ++ line, [], [], indented⟩

/-- Reads the lines of a block with a known indentation. -/
def readBlockFrom (literal : Bool) (indent : Int) :
    (fuel : Nat) → Mark → BlockText → Text → Option (BlockText × Mark × Text)
  | 0, _, _, _ => none
  | fuel + 1, m, b, s =>
    if (m.column : Int) ≠ indent ∨ s.isEmpty then some (b, m, s)
    else do
      let line := s.takeWhile fun c => !endsLine c
      let s := s.dropWhile fun c => !endsLine c
      let m := m.skip line
      let (final, m, s) := match takeBreak? s with
        | some (t, s) => (t, m.nextLine, s)
        | none => ([], m, s)
      let e ← skipEmptyLines (some indent) 0 m s
      let b := b.push literal line
      readBlockFrom literal indent fuel e.mark { b with final := final, empty := e.breaks } e.rest

/-- Reads a block behind its indicator, in a collection with the indentation `outer`. -/
def readBlock (literal : Bool) (outer : Int) (m : Mark) (s : Text) : Option Scanned := do
  let (chomp, given, head, s) ← readHead s
  let (m, s) ← endLine (m.skip head) s
  let indent := given.map fun n => max outer 0 + (n : Int)
  let e ← skipEmptyLines indent 0 m s
  let indent := indent.getD (max (max (e.widest : Int) (outer + 1)) 1)
  let b : BlockText := ⟨[], [], e.breaks, false⟩
  let (b, m, s) ← readBlockFrom literal indent (s.length + 1) e.mark b e.rest
  let tail := match chomp with
    | .strip => []
    | .clip => b.final
    | .keep => b.final ++ b.empty
  some ⟨b.text ++ tail, true, m, s⟩

end DocTags.Yaml
