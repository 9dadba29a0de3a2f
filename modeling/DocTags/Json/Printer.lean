import DocTags.Json.Value

/-!
JSON text: two spaces of indentation for each level, one item or member to a line, and a blank
behind the colon. Empty arrays and objects are closed at once.
-/

namespace DocTags.Json

/-- Exponents have a sign in JSON text. -/
def exponentStyle : ExponentStyle :=
  ⟨true⟩

/-- The lower-case hexadecimal digits of a number below 256. -/
def hexByte (n : Nat) : Text :=
  [Nat.digitChar (n / 16), Nat.digitChar (n % 16)]

/-- Writes one character of a string. Quotes, backslashes and control characters are escaped. -/
def escapeChar (c : Char) : Text :=
  if c = '"' then ['\\', '"']
  else if c = '\\' then ['\\', '\\']
  else if c = '\n' then ['\\', 'n']
  else if c = '\r' then ['\\', 'r']
  else if c = '\t' then ['\\', 't']
  else if c.toNat = 8 then ['\\', 'b']
  else if c.toNat = 12 then ['\\', 'f']
  else if c.toNat < 32 then "\\u00".toList ++ hexByte c.toNat
  else [c]

def quote (s : Text) : Text :=
  '"' :: (s.flatMap escapeChar ++ ['"'])

def newline (indent : Nat) : Text :=
  '\n' :: List.replicate indent ' '

mutual

/-- Writes a value that stands on a line with this indentation. -/
def print (indent : Nat) : Value → Text
  | .null => "null".toList
  | .bool true => "true".toList
  | .bool false => "false".toList
  | .number n => n.text exponentStyle
  | .string s => quote s
  | .array [] => ['[', ']']
  | .array (v :: vs) =>
    '[' :: newline (indent + 2) ++ print (indent + 2) v ++ printItems (indent + 2) vs ++
      newline indent ++ [']']
  | .object [] => ['{', '}']
  | .object ((k, v) :: ms) =>
    '{' :: newline (indent + 2) ++ quote k ++ [':', ' '] ++ print (indent + 2) v ++
      printMembers (indent + 2) ms ++ newline indent ++ ['}']

/-- Writes the items of an array behind the first one. -/
def printItems (indent : Nat) : List Value → Text
  | [] => []
  | v :: vs => ',' :: newline indent ++ print indent v ++ printItems indent vs

/-- Writes the members of an object behind the first one. -/
def printMembers (indent : Nat) : List (Text × Value) → Text
  | [] => []
  | (k, v) :: ms =>
    ',' :: newline indent ++ quote k ++ [':', ' '] ++ print indent v ++ printMembers indent ms

end

def Value.text (v : Value) : Text :=
  print 0 v

end DocTags.Json
