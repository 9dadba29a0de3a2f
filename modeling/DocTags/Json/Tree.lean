import DocTags.Text.Basic

/-!
The syntax of JSON text. A tree holds a text as it is written: numbers by their digits, members of
objects with their repetitions, and strings that are no text because an escape names half of a
surrogate pair. What may be made of a tree is for its readers to say, which lets them pass over the
parts that they do not use.
-/

namespace DocTags.Json

structure Numeral where
  negative : Bool
  /-- The digits in front of the point. -/
  whole : List Nat
  /-- The digits behind the point, none if there is no point. -/
  fraction : List Nat
  exponent : Option Int
  deriving DecidableEq, Repr

inductive Tree where
  | null
  | bool (b : Bool)
  | number (n : Numeral)
  /-- None for a string that is no text. -/
  | string (s : Option Text)
  | array (items : List Tree)
  | object (members : List (Option Text × Tree))

/-- Blank in JSON text are space, tab, line feed and carriage return. -/
def isGap (c : Char) : Bool :=
  c == ' ' || c == '\t' || c == '\n' || c == '\r'

def skipGap (s : Text) : Text :=
  s.dropWhile isGap

def digit (c : Char) : Nat :=
  c.toNat - '0'.toNat

/-- The digits that a text begins with, and what follows them. -/
def takeDigits (s : Text) : List Nat × Text :=
  ((s.takeWhile Char.isDigit).map digit, s.dropWhile Char.isDigit)

def ofDigits (ds : List Nat) : Nat :=
  ds.foldl (fun n d => 10 * n + d) 0

/-- Reads the part of a number behind its point, if there is one; it has at least one digit. -/
def readFraction : Text → Option (List Nat × Text)
  | '.' :: s =>
    let (ds, rest) := takeDigits s
    if ds.isEmpty then none else some (ds, rest)
  | s => some ([], s)

/-- Reads the digits of an exponent behind its sign. -/
def readExponentDigits (negative : Bool) (s : Text) : Option (Option Int × Text) :=
  let (ds, rest) := takeDigits s
  if ds.isEmpty then none
  else some (some (if negative then -(ofDigits ds : Int) else ofDigits ds), rest)

/-- Reads the exponent of a number, if there is one. -/
def readExponent : Text → Option (Option Int × Text)
  | c :: s =>
    if c = 'e' ∨ c = 'E' then
      match s with
      | '-' :: s => readExponentDigits true s
      | '+' :: s => readExponentDigits false s
      | s => readExponentDigits false s
    else some (none, c :: s)
  | [] => some (none, [])

/-- Reads a number behind its sign. A leading zero stands alone in front of the point. -/
def readUnsigned (negative : Bool) (s : Text) : Option (Numeral × Text) := do
  let (whole, s) := takeDigits s
  if whole.isEmpty ∨ (whole.head? = some 0 ∧ whole.length ≠ 1) then none
  else
    let (fraction, s) ← readFraction s
    let (exponent, s) ← readExponent s
    some (⟨negative, whole, fraction, exponent⟩, s)

def readNumeral : Text → Option (Numeral × Text)
  | '-' :: s => readUnsigned true s
  | s => readUnsigned false s

def hexDigit? (c : Char) : Option Nat :=
  let n := c.toNat
  if '0'.toNat ≤ n ∧ n ≤ '9'.toNat then some (n - '0'.toNat)
  else if 'a'.toNat ≤ n ∧ n ≤ 'f'.toNat then some (n - 'a'.toNat + 10)
  else if 'A'.toNat ≤ n ∧ n ≤ 'F'.toNat then some (n - 'A'.toNat + 10)
  else none

def hexCode? (a b c d : Char) : Option Nat := do
  let a ← hexDigit? a
  let b ← hexDigit? b
  let c ← hexDigit? c
  let d ← hexDigit? d
  some (((a * 16 + b) * 16 + c) * 16 + d)

/-- A part of a string: a character, or the UTF-16 unit that an escape names. -/
inductive Unit16 where
  | char (c : Char)
  | code (n : Nat)
  deriving DecidableEq, Repr

def shortEscape? (c : Char) : Option Char :=
  if c = '"' ∨ c = '\\' ∨ c = '/' then some c
  else if c = 'b' then some (Char.ofNat 8)
  else if c = 'f' then some (Char.ofNat 12)
  else if c = 'n' then some '\n'
  else if c = 'r' then some '\r'
  else if c = 't' then some '\t'
  else none

/-- Reads a string behind its opening quote, up to the closing one. Control characters must be
escaped. -/
def readUnits : Text → Option (List Unit16 × Text)
  | [] => none
  | '"' :: s => some ([], s)
  | '\\' :: 'u' :: a :: b :: c :: d :: s => do
    let n ← hexCode? a b c d
    let (units, rest) ← readUnits s
    some (.code n :: units, rest)
  | '\\' :: e :: s => do
    let c ← shortEscape? e
    let (units, rest) ← readUnits s
    some (.char c :: units, rest)
  | c :: s => do
    if c.toNat < 32 ∨ c = '\\' then none
    else
      let (units, rest) ← readUnits s
      some (.char c :: units, rest)

def isHighHalf (n : Nat) : Bool :=
  0xD800 ≤ n && n < 0xDC00

def isLowHalf (n : Nat) : Bool :=
  0xDC00 ≤ n && n < 0xE000

/-- The text of a string. Escapes that name the two halves of a surrogate pair, one right after the
other, stand for one character; a half on its own is no text. -/
def textOfUnits? : List Unit16 → Option Text
  | [] => some []
  | .char c :: units => (textOfUnits? units).map (c :: ·)
  | .code high :: .code low :: units =>
    if isHighHalf high then
      if isLowHalf low then
        (textOfUnits? units).map
          (Char.ofNat (0x10000 + (high - 0xD800) * 0x400 + (low - 0xDC00)) :: ·)
      else none
    else if isLowHalf high then none
    else (textOfUnits? (.code low :: units)).map (Char.ofNat high :: ·)
  | .code n :: units =>
    if isHighHalf n || isLowHalf n then none
    else (textOfUnits? units).map (Char.ofNat n :: ·)

def readString (s : Text) : Option (Option Text × Text) :=
  (readUnits s).map fun (units, rest) => (textOfUnits? units, rest)

mutual

/-- Reads a value. Each step of the three readers takes one unit of fuel. -/
def readTree : (fuel : Nat) → Text → Option (Tree × Text)
  | 0, _ => none
  | fuel + 1, s =>
    match skipGap s with
    | '"' :: s => do
      let (text, rest) ← readString s
      some (.string text, rest)
    | '[' :: s =>
      match skipGap s with
      | ']' :: rest => some (.array [], rest)
      | s => do
        let (items, rest) ← readItems fuel s
        some (.array items, rest)
    | '{' :: s =>
      match skipGap s with
      | '}' :: rest => some (.object [], rest)
      | s => do
        let (members, rest) ← readMembers fuel s
        some (.object members, rest)
    | 'n' :: 'u' :: 'l' :: 'l' :: rest => some (.null, rest)
    | 't' :: 'r' :: 'u' :: 'e' :: rest => some (.bool true, rest)
    | 'f' :: 'a' :: 'l' :: 's' :: 'e' :: rest => some (.bool false, rest)
    | s => do
      let (n, rest) ← readNumeral s
      some (.number n, rest)

def readItems : (fuel : Nat) → Text → Option (List Tree × Text)
  | 0, _ => none
  | fuel + 1, s => do
    let (item, s) ← readTree fuel s
    match skipGap s with
    | ',' :: s =>
      let (items, rest) ← readItems fuel s
      some (item :: items, rest)
    | ']' :: rest => some ([item], rest)
    | _ => none

def readMembers : (fuel : Nat) → Text → Option (List (Option Text × Tree) × Text)
  | 0, _ => none
  | fuel + 1, s =>
    match skipGap s with
    | '"' :: s => do
      let (key, s) ← readString s
      match skipGap s with
      | ':' :: s =>
        let (value, s) ← readTree fuel s
        match skipGap s with
        | ',' :: s =>
          let (members, rest) ← readMembers fuel s
          some ((key, value) :: members, rest)
        | '}' :: rest => some ([(key, value)], rest)
        | _ => none
      | _ => none
    | _ => none

end

/-- Reads a JSON text. Every two steps use up a character, which bounds the fuel. -/
def Tree.ofText? (s : Text) : Option Tree := do
  let (t, rest) ← readTree (2 * s.length + 2) s
  if (skipGap rest).isEmpty then some t else none

end DocTags.Json
