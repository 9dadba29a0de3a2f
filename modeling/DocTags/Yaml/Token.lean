import DocTags.Yaml.ScalarReader

/-!
Tokens of YAML text. Indentation becomes tokens that open and close block collections. A key of one
line is known as a key only at the colon behind it, so that the tokens in front of it are put in
there later.
-/

namespace DocTags.Yaml

inductive Token where
  | version (major minor : Nat)
  | tagHandle (handle : Text)
  | documentStart
  | documentEnd
  | streamEnd
  | blockSequence
  | blockMapping
  | blockEnd
  | flowSequence
  | flowSequenceEnd
  | flowMapping
  | flowMappingEnd
  | item
  | comma
  | key
  | value
  | alias (name : Text)
  | anchor (name : Text)
  /-- A tag; its handle is empty if it needs no declaration. -/
  | tag (handle : Text)
  | scalar (text : Text) (plain : Bool)
  deriving DecidableEq, Repr

/-! ### Names and directives -/

def isNameChar (c : Char) : Bool :=
  c.isAlphanum || c == '_' || c == '-'

/-- Cuts a text behind the characters at its start that satisfy `p`. -/
def takeRun (p : Char → Bool) (s : Text) : Text × Text :=
  (s.takeWhile p, s.dropWhile p)

/-- Reads a name of an anchor, of which the end must be clear. -/
def readName (s : Text) : Option (Text × Text) :=
  let (name, rest) := takeRun isNameChar s
  if name.isEmpty then none
  else if atGap rest || rest.head?.any fun c => c ∈ "?:,]\x7d%@\x60".toList then some (name, rest)
  else none

/-- Reads a tag handle: `!`, `!!` or `!name!`. Without its last mark it is the start of a tag, which
is no handle for a directive. -/
def readHandle (directive : Bool) : Text → Option (Text × Text)
  | '!' :: s =>
    let (name, rest) := takeRun isNameChar s
    match rest with
    | '!' :: rest => some ('!' :: name ++ ['!'], rest)
    | _ => if directive && !name.isEmpty then none else some ('!' :: name, rest)
  | _ => none

/-- An octet written as two hexadecimal digits behind a percent sign. -/
def readOctet : Text → Option (Nat × Text)
  | '%' :: a :: b :: s => do
    some ((← Json.hexDigit? a) * 16 + (← Json.hexDigit? b), s)
  | _ => none

/-- Passes over the continuation octets of a character. -/
def skipOctets : (count : Nat) → Text → Option Text
  | 0, s => some s
  | count + 1, s => do
    let (octet, s) ← readOctet s
    if octet / 64 = 2 then skipOctets count s else none

/-- Passes over a character that is written in octets. -/
def skipEscaped (s : Text) : Option Text := do
  let (octet, s) ← readOctet s
  if octet < 0x80 then some s
  else if octet / 32 = 6 then skipOctets 1 s
  else if octet / 16 = 14 then skipOctets 2 s
  else if octet / 8 = 30 then skipOctets 3 s
  else none

/-- Characters of the names that tags stand for; separators of flow collections only where the whole
name is written. -/
def isTagChar (whole : Bool) (c : Char) : Bool :=
  isNameChar c || decide (c ∈ ";/?:@&=+$.!~*'()".toList) ||
    (whole && (c == ',' || c == '[' || c == ']'))

/-- Passes over the name that a tag stands for. -/
def skipTagName (whole : Bool) : (fuel : Nat) → Text → Option Text
  | 0, _ => none
  | _ + 1, [] => some []
  | fuel + 1, c :: s =>
    if c = '%' then (skipEscaped (c :: s)).bind (skipTagName whole fuel)
    else if isTagChar whole c then skipTagName whole fuel s
    else some (c :: s)

/-- Passes over a name that must not be empty. -/
def skipSomeTagName (whole : Bool) (s : Text) : Option Text := do
  let rest ← skipTagName whole (s.length + 1) s
  if rest.length = s.length then none else some rest

/-- Reads a tag: the handle that must be declared for it, and the rest. -/
def readTag (s : Text) : Option (Text × Text) :=
  match s with
  | '!' :: '<' :: s => do
    match ← skipSomeTagName true s with
    | '>' :: rest => some ([], rest)
    | _ => none
  | _ => do
    let (handle, rest) ← readHandle false s
    if 1 < handle.length ∧ handle.getLast? = some '!' then
      some (handle, ← skipSomeTagName false rest)
    else
      let rest ← skipTagName false (rest.length + 1) rest
      some (if s.length = rest.length + 1 then [] else ['!'], rest)

/-- Reads a number of a version, of at most nine digits. -/
def readVersionNumber (s : Text) : Option (Nat × Text) :=
  let (ds, rest) := Json.takeDigits s
  if ds.isEmpty ∨ 9 < ds.length then none else some (Json.ofDigits ds, rest)

/-- Reads a directive behind its percent sign. -/
def readDirective (s : Text) : Option (Token × Text) := do
  let (name, s) := takeRun isNameChar s
  if !atGap s then none
  else if name = "YAML".toList then
    let (major, s) ← readVersionNumber (s.dropWhile isGapChar)
    match s with
    | '.' :: s =>
      let (minor, s) ← readVersionNumber s
      some (.version major minor, s)
    | _ => none
  else if name = "TAG".toList then
    let (handle, s) ← readHandle true (s.dropWhile isGapChar)
    if !s.head?.any isGapChar then none
    else
      let s ← skipSomeTagName true (s.dropWhile isGapChar)
      if atGap s then some (.tagHandle handle, s) else none
  else none

/-! ### Scanning -/

/-- A place where a key on one line may have begun. -/
structure KeyStart where
  /-- Whether only a key can stand here. -/
  needed : Bool
  /-- The number of tokens in front of it. -/
  position : Nat
  mark : Mark
  deriving DecidableEq, Repr

/-- A text of which some tokens have been read. -/
structure Scan where
  mark : Mark
  rest : Text
  /-- The column of the innermost block collection, -1 outside of all. -/
  indent : Int
  /-- The columns of the collections around it. -/
  outer : List Int
  /-- The number of flow collections that are open. -/
  flow : Nat
  /-- Whether a key may begin here. -/
  keyAllowed : Bool
  /-- Where a key may have begun, in the innermost flow collection first. -/
  keys : List (Option KeyStart)
  /-- The tokens that have been read, last one first. -/
  tokens : List Token
  count : Nat

namespace Scan

def start (s : Text) : Scan :=
  ⟨.start, s, -1, [], 0, true, [none], [], 0⟩

def inFlow (z : Scan) : Bool :=
  z.flow != 0

def push (t : Token) (z : Scan) : Scan :=
  { z with tokens := t :: z.tokens, count := z.count + 1 }

/-- Puts a token in behind the first `position` ones. -/
def insertAt (position : Nat) (t : Token) (z : Scan) : Scan :=
  let behind := z.count - position
  { z with
    tokens := z.tokens.take behind ++ t :: z.tokens.drop behind
    count := z.count + 1 }

def skip (n : Nat) (z : Scan) : Scan :=
  { z with mark := z.mark.skip (z.rest.take n), rest := z.rest.drop n }

/-- Goes on behind characters of the line that have been read. -/
def resume (rest : Text) (z : Scan) : Scan :=
  z.skip (z.rest.length - rest.length)

/-- Passes over blanks, comments and line breaks. Tabs are blanks only where no key may begin; a
byte order mark may begin a line. -/
def gapFrom (flow : Bool) : (comment keyAllowed : Bool) → Mark → Text → Bool × Mark × Text
  | _, k, m, [] => (k, m, [])
  | _, k, m, '\r' :: '\n' :: s => gapFrom flow false (k || !flow) m.nextLine s
  | comment, k, m, c :: s =>
    if endsLine c then gapFrom flow false (k || !flow) m.nextLine s
    else if comment || c == ' ' || (c == '\t' && (flow || !k)) ||
        (c.toNat == 0xFEFF && m.column == 0) then
      gapFrom flow comment k (m.skip [c]) s
    else if c == '#' then gapFrom flow true k (m.skip [c]) s
    else (k, m, c :: s)

def skipGap (z : Scan) : Scan :=
  let (k, m, s) := gapFrom z.inFlow false z.keyAllowed z.mark z.rest
  { z with keyAllowed := k, mark := m, rest := s }

/-- The greatest length in UTF-8 from the start of a key to what follows it. -/
def maxKeyLength : Nat :=
  1024

/-- Gives up on keys that began on an earlier line or too far away. -/
def dropStale (z : Scan) : Option Scan := do
  let keys ← z.keys.mapM fun
    | none => some none
    | some k =>
      if k.mark.line < z.mark.line ∨ k.mark.bytes + maxKeyLength < z.mark.bytes then
        if k.needed then none else some none
      else some (some k)
  some { z with keys }

/-- Gives up on the key that may have begun in the innermost collection. -/
def dropKey (z : Scan) : Option Scan :=
  match z.keys with
  | some k :: keys => if k.needed then none else some { z with keys := none :: keys }
  | _ => some z

/-- Notes that a key may begin here. -/
def saveKey (z : Scan) : Option Scan :=
  if z.keyAllowed then do
    let z ← z.dropKey
    let needed := !z.inFlow && z.indent == z.mark.column
    some { z with keys := some ⟨needed, z.count, z.mark⟩ :: z.keys.tail }
  else some z

/-- Opens a block collection in a column right of the innermost one, with its token at a
position. -/
def openBlock (column : Nat) (position : Nat) (t : Token) (z : Scan) : Scan :=
  if !z.inFlow && z.indent < column then
    { z with indent := column, outer := z.indent :: z.outer }.insertAt position t
  else z

/-- Closes the block collections right of a column, given the columns of those around the
innermost one. -/
def closeBlocksFrom (column : Int) : (outer : List Int) → Scan → Scan
  | [], z => z
  | n :: outer, z =>
    if column < z.indent then
      closeBlocksFrom column outer ({ z with indent := n, outer }.push .blockEnd)
    else z

def closeBlocks (column : Int) (z : Scan) : Scan :=
  if z.inFlow then z else closeBlocksFrom column z.outer z

def scanEnd (z : Scan) : Option Scan := do
  let z ← (z.closeBlocks (-1)).dropKey
  some { (z.push .streamEnd) with keyAllowed := false }

def scanDirective (z : Scan) : Option Scan := do
  let z ← (z.closeBlocks (-1)).dropKey
  let (t, rest) ← readDirective z.rest.tail
  let z := z.resume rest
  let (mark, rest) ← endLine z.mark z.rest
  some ({ z with keyAllowed := false, mark, rest }.push t)

def scanDocumentMark (t : Token) (z : Scan) : Option Scan := do
  let z ← (z.closeBlocks (-1)).dropKey
  some ({ z with keyAllowed := false }.push t |>.skip 3)

def scanFlowStart (t : Token) (z : Scan) : Option Scan := do
  let z ← z.saveKey
  some ({ z with keys := none :: z.keys, flow := z.flow + 1, keyAllowed := true }.push t |>.skip 1)

def scanFlowEnd (t : Token) (z : Scan) : Option Scan := do
  let z ← z.dropKey
  let keys := if z.inFlow then z.keys.tail else z.keys
  some ({ z with keys, flow := z.flow - 1, keyAllowed := false }.push t |>.skip 1)

def scanComma (z : Scan) : Option Scan := do
  let z ← z.dropKey
  some ({ z with keyAllowed := true }.push .comma |>.skip 1)

def scanItem (z : Scan) : Option Scan := do
  if !z.inFlow && !z.keyAllowed then none
  else
    let z ← (z.openBlock z.mark.column z.count .blockSequence).dropKey
    some ({ z with keyAllowed := true }.push .item |>.skip 1)

def scanKey (z : Scan) : Option Scan := do
  if !z.inFlow && !z.keyAllowed then none
  else
    let z ← (z.openBlock z.mark.column z.count .blockMapping).dropKey
    some ({ z with keyAllowed := !z.inFlow }.push .key |>.skip 1)

/-- Reads a colon. If a key has begun in front of it, its token is put in there. -/
def scanValue (z : Scan) : Option Scan :=
  match z.keys with
  | some k :: keys =>
    let z := { z with keys := none :: keys, keyAllowed := false }.insertAt k.position .key
    some ((z.openBlock k.mark.column k.position .blockMapping).push .value |>.skip 1)
  | _ =>
    if !z.inFlow && !z.keyAllowed then none
    else
      let z := z.openBlock z.mark.column z.count .blockMapping
      some ({ z with keyAllowed := !z.inFlow }.push .value |>.skip 1)

def scanAnchor (t : Text → Token) (z : Scan) : Option Scan := do
  let z ← z.saveKey
  let (name, rest) ← readName z.rest.tail
  some ({ z with keyAllowed := false }.push (t name) |>.resume rest)

def scanTag (z : Scan) : Option Scan := do
  let z ← z.saveKey
  let (handle, rest) ← readTag z.rest
  if atGap rest || (z.inFlow && rest.head? == some ',') then
    some ({ z with keyAllowed := false }.push (.tag handle) |>.resume rest)
  else none

def scanBlockScalar (literal : Bool) (z : Scan) : Option Scan := do
  let z ← z.dropKey
  let t ← readBlock literal z.indent (z.mark.skip (z.rest.take 1)) z.rest.tail
  let z := { z with keyAllowed := true, mark := t.mark, rest := t.rest }
  some (z.push (.scalar t.text false))

def scanQuoted (single : Bool) (z : Scan) : Option Scan := do
  let z ← z.saveKey
  let t ← readQuoted single (z.mark.skip (z.rest.take 1)) z.rest.tail
  let z := { z with keyAllowed := false, mark := t.mark, rest := t.rest }
  some (z.push (.scalar t.text false))

def scanPlain (z : Scan) : Option Scan := do
  let z ← z.saveKey
  let t ← readPlain z.inFlow (z.indent + 1) z.mark z.rest
  let z := { z with keyAllowed := t.crossed, mark := t.mark, rest := t.rest }
  some (z.push (.scalar t.text true))

/-- Whether a plain scalar can begin with `c`, with `s` behind it. -/
def startsPlain (flow : Bool) (c : Char) (s : Text) : Bool :=
  if c == '-' then !s.head?.any isGapChar
  else if c == '?' || c == ':' then !flow && !atGap s
  else !isGapChar c && decide (c ∉ ",[]\x7b\x7d#&*!|>'\"%@\x60".toList)

/-- Reads the next token, and those that indentation puts in front of it. -/
def next (z : Scan) : Option Scan := do
  let z ← z.skipGap.dropStale
  let z := z.closeBlocks z.mark.column
  match z.rest with
  | [] => z.scanEnd
  | c :: s =>
    if z.mark.column = 0 ∧ c = '%' then z.scanDirective
    else if z.mark.column = 0 ∧ atDocumentMark z.rest then
      z.scanDocumentMark (if c = '-' then .documentStart else .documentEnd)
    else if c = '[' then z.scanFlowStart .flowSequence
    else if c = '\x7b' then z.scanFlowStart .flowMapping
    else if c = ']' then z.scanFlowEnd .flowSequenceEnd
    else if c = '\x7d' then z.scanFlowEnd .flowMappingEnd
    else if c = ',' then z.scanComma
    else if c = '-' ∧ atGap s then z.scanItem
    else if c = '?' ∧ (z.inFlow ∨ atGap s) then z.scanKey
    else if c = ':' ∧ (z.inFlow ∨ atGap s) then z.scanValue
    else if c = '*' then z.scanAnchor .alias
    else if c = '&' then z.scanAnchor .anchor
    else if c = '!' then z.scanTag
    else if c = '|' ∧ !z.inFlow then z.scanBlockScalar true
    else if c = '>' ∧ !z.inFlow then z.scanBlockScalar false
    else if c = '\'' then z.scanQuoted true
    else if c = '"' then z.scanQuoted false
    else if startsPlain z.inFlow c s then z.scanPlain
    else none

def toEnd : (fuel : Nat) → Scan → Option (List Token)
  | 0, _ => none
  | fuel + 1, z => do
    let z ← z.next
    if z.tokens.head? = some .streamEnd then some z.tokens.reverse else toEnd fuel z

end Scan

/-- Characters that may stand in YAML text. -/
def isAllowed (c : Char) : Bool :=
  let n := c.toNat
  n == 0x09 || n == 0x0A || n == 0x0D || (0x20 ≤ n && n ≤ 0x7E) || n == 0x85 ||
    (0xA0 ≤ n && n ≤ 0xD7FF) || (0xE000 ≤ n && n ≤ 0xFFFD) || 0x10000 ≤ n

/-- The tokens of a text. Every token but the last one uses up a character. -/
def Token.ofText? (s : Text) : Option (List Token) :=
  if s.all isAllowed then (Scan.start s).toEnd (s.length + 1) else none

end DocTags.Yaml
