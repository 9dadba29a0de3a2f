import DocTags.Json.Tree
import DocTags.Json.Value

/-!
JSON values from their syntax. A number without point and exponent is an integer if it fits in 64
bits, unsigned or, below zero, signed; every other number is binary64, and one beyond the largest
binary64 number is an error. Arrays and objects may be nested up to a given depth.
-/

namespace DocTags.Json

/-- Significands are gathered up to this number. -/
def maxSignificand : Nat :=
  Nat.pow 2 64 - 1

/-- The digits of a significand, as many of them as fit: the significand, and how many digits of the
text are behind it. The first digit that does not fit ends it. -/
def gather (significand : Nat) : List Nat → Nat × Nat
  | [] => (significand, 0)
  | d :: ds =>
    if 10 * significand + d ≤ maxSignificand then gather (10 * significand + d) ds
    else (significand, ds.length + 1)

namespace Numeral

/-- The binary64 number that a numeral denotes. Digits that do not fit in the significand count by
their place alone. -/
def double? (n : Numeral) : Option Double := do
  let (whole, dropped) := gather 0 n.whole
  let (significand, unread) := gather whole n.fraction
  let places := n.fraction.length - unread
  let exponent := (dropped : Int) - places + n.exponent.getD 0
  let magnitude ← Magnitude.ofDecimal? significand exponent
  some ⟨n.negative, magnitude⟩

/-- The integer that a numeral without fraction and exponent denotes, if it fits in 64 bits. Zero
with a sign is no integer. -/
def integer? (n : Numeral) : Option Int :=
  let i := ofDigits n.whole
  if n.fraction ≠ [] ∨ n.exponent.isSome then none
  else if n.negative then if 0 < i ∧ i ≤ Nat.pow 2 63 then some (-i) else none
  else if i < Nat.pow 2 64 then some i else none

def number? (n : Numeral) : Option Number :=
  match n.integer? with
  | some i => some (.integer i)
  | none => n.double?.map .double

end Numeral

/-- Arrays and objects are read up to this depth. -/
def maxDepth : Nat :=
  127

/-- The value that a tree denotes, if it has at most `depth` arrays and objects inside each other.
Of members with the same key the last one stands, at the place of the first. -/
def Value.ofTree? : (depth : Nat) → Tree → Option Value
  | _, .null => some .null
  | _, .bool b => some (.bool b)
  | _, .number n => n.number?.map .number
  | _, .string s => s.map .string
  | 0, .array _ => none
  | 0, .object _ => none
  | depth + 1, .array items => (items.mapM (ofTree? depth)).map .array
  | depth + 1, .object members => do
    let members ← members.mapM fun (key, t) => do
      some (← key, ← ofTree? depth t)
    some (.object (OrderedMap.ofEntries members))

def Value.ofText? (s : Text) : Option Value :=
  (Tree.ofText? s).bind (ofTree? maxDepth)

end DocTags.Json
