import DocTags.Decimal.Double
import DocTags.Json.Tree
import DocTags.Yaml.Gap

/-!
How a text is written as a YAML scalar. A text with a line feed is a literal block where a block can
hold it. Any other text stands as it is where it reads back as the same text, and in single quotes
where it would be taken for something else. What neither can hold is escaped in double quotes.
-/

namespace DocTags.Yaml

inductive Style where
  | plain
  | singleQuoted
  | doubleQuoted
  | literal
  deriving DecidableEq, Repr

/-- Characters that end a line of YAML and need no escape: line feed, and the Unicode line and
paragraph separators. -/
def isBreak (c : Char) : Bool :=
  c == '\n' || c.toNat == 0x2028 || c.toNat == 0x2029

/-- Characters that only double quotes can hold. -/
def isSpecial (c : Char) : Bool :=
  let n := c.toNat
  !(c == '\n' || (0x20 ≤ n && n ≤ 0x7E) || (0xA0 ≤ n && n ≤ 0xD7FF) ||
    (0xE000 ≤ n && n ≤ 0xFFFD && n != 0xFEFF) || 0x10000 ≤ n)

/-- Whether two neighbours in a text satisfy `p`. -/
def hasPair (p : Char → Char → Bool) (s : Text) : Bool :=
  (s.zip s.tail).any fun (c, d) => p c d

def spaceBeforeBreak (s : Text) : Bool :=
  hasPair (fun c d => c == ' ' && isBreak d) s

def spaceAfterBreak (s : Text) : Bool :=
  hasPair (fun c d => isBreak c && d == ' ') s

/-- Whether a text can be held without escapes. -/
def needsNoEscape (s : Text) : Bool :=
  !spaceBeforeBreak s && !s.any isSpecial

/-- Characters that have a meaning of their own at the start of a value. -/
def indicators : Text :=
  "#,[]\x7b\x7d&*!|>'\"%@\x60".toList

/-- Whether what follows a character makes it an indicator. -/
def blankOrEnd : Text → Bool
  | [] => true
  | c :: _ => c == ' '

/-- Whether the rest of a text would be read as the end of a key or as a comment. -/
def hasInnerIndicator : (afterBlank : Bool) → Text → Bool
  | _, [] => false
  | afterBlank, c :: s =>
    (c == ':' && blankOrEnd s) || (c == '#' && afterBlank) || hasInnerIndicator (c == ' ') s

/-- Whether the characters of a text have a meaning of their own in a block. -/
def hasIndicator : Text → Bool
  | [] => false
  | c :: s =>
    "---".toList.isPrefixOf (c :: s) || "...".toList.isPrefixOf (c :: s) ||
      decide (c ∈ indicators) || ((c == '-' || c == '?' || c == ':') && blankOrEnd s) ||
      hasInnerIndicator (c == ' ') s

def plainAllowed (s : Text) : Bool :=
  needsNoEscape s && !s.any isBreak && s.head? != some ' ' && s.getLast? != some ' ' &&
    !hasIndicator s

def singleQuotedAllowed (s : Text) : Bool :=
  needsNoEscape s && !spaceAfterBreak s

def literalAllowed (s : Text) : Bool :=
  needsNoEscape s && s.getLast? != some ' '

/-! ### Texts that would be read as something else -/

/-- The words for the null value and for truth values. -/
def reservedWords : List Text :=
  ["", "~", "null", "Null", "NULL", "true", "True", "TRUE", "false", "False", "FALSE"].map
    String.toList

/-- Reads digits of a radix up to 16. -/
def radixNumber? (radix : Nat) (s : Text) : Option Nat :=
  if s.isEmpty then none
  else s.foldlM (fun n c => do
    let d ← Json.hexDigit? c
    if d < radix then some (n * radix + d) else none) 0

/-- Reads an unsigned integer with a mark for its radix. -/
def markedInteger? (s : Text) : Option Nat :=
  match s with
  | '0' :: 'x' :: s => radixNumber? 16 s
  | '0' :: 'o' :: s => radixNumber? 8 s
  | '0' :: 'b' :: s => radixNumber? 2 s
  | _ => none

/-- Whether a text is an integer of at most 128 bits with a mark for its radix. -/
def readsAsMarkedInteger : Text → Bool
  | '-' :: s => (markedInteger? s).any (· ≤ Nat.pow 2 127)
  | '+' :: s => (markedInteger? s).any (· < Nat.pow 2 128)
  | s => (markedInteger? s).any (· < Nat.pow 2 128)

/-- Whether a text is made of digits of which the first of several is a zero, after an optional
sign. -/
def isPaddedDigits (s : Text) : Bool :=
  let digits := match s with
    | '-' :: s => s
    | '+' :: s => s
    | s => s
  1 < digits.length && digits.head? == some '0' && digits.all Char.isDigit

/-- Whether `digits · 10 ^ exponent` rounds to a finite binary64 number. Powers of ten that are
beyond all of them are not computed. -/
def isFinite (digits : List Nat) (exponent : Int) : Bool :=
  let digits := digits.dropWhile (· == 0)
  let size := (digits.length : Int) + exponent
  if digits.isEmpty || size < -400 then true
  else if 400 < size then false
  else
    let n := Json.ofDigits digits
    (Magnitude.ofRatio? (n * Nat.pow 10 exponent.toNat) (Nat.pow 10 (-exponent).toNat)).isSome

/-- Whether a text is a decimal number, with digits on one side of its point at least, that rounds
to a finite one. -/
def isFiniteDecimal (s : Text) : Bool :=
  let (whole, s) := Json.takeDigits s
  let (fraction, s) := match s with
    | '.' :: s => Json.takeDigits s
    | s => ([], s)
  match Json.readExponent s with
  | some (exponent, []) =>
    !(whole.isEmpty && fraction.isEmpty) &&
      isFinite (whole ++ fraction) (exponent.getD 0 - fraction.length)
  | _ => false

def infinityWords : List Text :=
  [".inf", ".Inf", ".INF"].map String.toList

def nanWords : List Text :=
  [".nan", ".NaN", ".NAN"].map String.toList

/-- Whether a text is a number with a point, an exponent or digits alone. -/
def readsAsDecimal (s : Text) : Bool :=
  let unsigned := match s with
    | '-' :: s => s
    | '+' :: s => s
    | s => s
  nanWords.contains s || infinityWords.contains unsigned || isFiniteDecimal unsigned

/-- Whether a text would be read as something else than a text if it stood without quotes. -/
def isAmbiguous (s : Text) : Bool :=
  reservedWords.contains s || isPaddedDigits s || readsAsMarkedInteger s || readsAsDecimal s

def styleOf (s : Text) : Style :=
  if '\n' ∈ s then if literalAllowed s then .literal else .doubleQuoted
  else if !isAmbiguous s && plainAllowed s then .plain
  else if singleQuotedAllowed s then .singleQuoted
  else .doubleQuoted

/-! ### Writing -/

/-- The upper-case hexadecimal digits of a number, `width` of them. -/
def hexText : (width : Nat) → Nat → Text
  | 0, _ => []
  | width + 1, n => hexText width (n / 16) ++ [(Nat.digitChar (n % 16)).toUpper]

/-- The letter that stands for a character behind a backslash. -/
def escapeLetter? (c : Char) : Option Char :=
  match c.toNat with
  | 0x00 => some '0'
  | 0x07 => some 'a'
  | 0x08 => some 'b'
  | 0x09 => some 't'
  | 0x0A => some 'n'
  | 0x0B => some 'v'
  | 0x0C => some 'f'
  | 0x0D => some 'r'
  | 0x1B => some 'e'
  | 0x22 => some '"'
  | 0x5C => some '\\'
  | 0x85 => some 'N'
  | 0x2028 => some 'L'
  | 0x2029 => some 'P'
  | _ => none

def escapeChar (c : Char) : Text :=
  match escapeLetter? c with
  | some letter => ['\\', letter]
  | none =>
    if !isSpecial c then [c]
    else if c.toNat < 0x100 then '\\' :: 'x' :: hexText 2 c.toNat
    else '\\' :: 'u' :: hexText 4 c.toNat

def doubleQuoted (s : Text) : Text :=
  '"' :: (s.flatMap escapeChar ++ ['"'])

def spaces (n : Nat) : Text :=
  List.replicate n ' '

/-- Writes a text over several lines: what follows a break is indented, and so is the end of the
text if it follows one. -/
def indentLines (indent : Nat) (write : Char → Text) : (afterBreak : Bool) → Text → Text
  | afterBreak, [] => if afterBreak then spaces indent else []
  | afterBreak, c :: s =>
    if isBreak c then c :: indentLines indent write true s
    else
      (if afterBreak then spaces indent else []) ++ write c ++ indentLines indent write false s

def singleQuoted (indent : Nat) (s : Text) : Text :=
  let double c := if c = '\'' then ['\'', '\''] else [c]
  '\'' :: (indentLines indent double false s ++ ['\''])

/-- The lines of a literal block; its end is not indented. -/
def literalLines (indent : Nat) : (afterBreak : Bool) → Text → Text
  | _, [] => []
  | afterBreak, c :: s =>
    if isBreak c then c :: literalLines indent true s
    else (if afterBreak then spaces indent else []) ++ c :: literalLines indent false s

/-- What is said of a literal block in front of its lines: the indentation, if it can not be seen
from the first line, and what becomes of the breaks at its end. -/
def literalHead (s : Text) : Text :=
  let hint := if s.head?.any fun c => c == ' ' || isBreak c then ['2'] else []
  let chomp := match s.reverse with
    | [] => ['-']
    | [c] => if isBreak c then ['+'] else ['-']
    | c :: d :: _ => if !isBreak c then ['-'] else if isBreak d then ['+'] else []
  '|' :: (hint ++ chomp)

/-- Writes a text that stands at the end of a line, together with the end of that line. Further
lines of it have the indentation `indent`. -/
def scalarLine (indent : Nat) (s : Text) : Text :=
  match styleOf s with
  | .plain => s ++ ['\n']
  | .singleQuoted => singleQuoted indent s ++ ['\n']
  | .doubleQuoted => doubleQuoted s ++ ['\n']
  | .literal =>
    let final := if s.getLast?.any isBreak then [] else ['\n']
    literalHead s ++ '\n' :: literalLines indent true s ++ final

/-- Whether a text can be the key of a member on one line. A character that ends a line when text is
read rules that out even where it is written as an escape. -/
def isSimpleKey (s : Text) : Bool :=
  !s.any endsLine && Text.byteLength s ≤ 128

end DocTags.Yaml
