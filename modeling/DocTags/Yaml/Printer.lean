import DocTags.Json.Value
import DocTags.Yaml.Scalar

/-!
YAML text in block style. Members are indented by two spaces for each level; the items of an array
that is the value of a member stand below its key without further indentation. A collection right
behind an indicator begins on the line of that indicator.
-/

namespace DocTags.Yaml

open Json (Value)

/-- Exponents have a sign in YAML text only where they are negative. -/
def exponentStyle : ExponentStyle :=
  ⟨false⟩

/-- Writes the key of a member in the given column, with its colon. -/
def keyText (column : Nat) (key : Text) : Text :=
  if isSimpleKey key then
    (scalarLine column key).dropLast ++ [':']
  else
    '?' :: ' ' :: scalarLine (column + 2) key ++ spaces column ++ [':']

/-- What stands in front of a collection: a new line, or the blank behind an indicator. -/
def lead (below : Bool) (column : Nat) : Text :=
  if below then '\n' :: spaces column else [' ']

mutual

/-- Writes a value behind a key or an indicator in the given column, up to the end of its last
line. Behind a key a collection stands below it. -/
def print (below : Bool) (column : Nat) : Value → Text
  | .null => " null\n".toList
  | .bool true => " true\n".toList
  | .bool false => " false\n".toList
  | .number n => ' ' :: n.text exponentStyle ++ ['\n']
  | .string s => ' ' :: scalarLine (column + 2) s
  | .array [] => " []\n".toList
  | .array (v :: vs) =>
    let column := if below then column else column + 2
    lead below column ++ '-' :: print false column v ++ printItems column vs
  | .object [] => " \x7b\x7d\n".toList
  | .object ((k, v) :: ms) =>
    let column := column + 2
    lead below column ++ keyText column k ++ print (isSimpleKey k) column v ++
      printMembers column ms

def printItems (column : Nat) : List Value → Text
  | [] => []
  | v :: vs => spaces column ++ '-' :: print false column v ++ printItems column vs

def printMembers (column : Nat) : List (Text × Value) → Text
  | [] => []
  | (k, v) :: ms =>
    spaces column ++ keyText column k ++ print (isSimpleKey k) column v ++ printMembers column ms

end

def text : Value → Text
  | .object (m :: ms) => printMembers 0 (m :: ms)
  | .array (v :: vs) => printItems 0 (v :: vs)
  | v => (print false 0 v).tail

end DocTags.Yaml
