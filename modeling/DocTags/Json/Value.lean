import DocTags.Decimal.Shortest
import DocTags.OrderedMap

/-!
JSON values. Integers that fit in 64 bits stay integers; all other numbers are binary64. The
members of an object keep their order.
-/

namespace DocTags.Json

inductive Number where
  | integer (i : Int)
  | double (x : Double)
  deriving DecidableEq, Repr

inductive Value where
  | null
  | bool (b : Bool)
  | number (n : Number)
  | string (s : Text)
  | array (items : List Value)
  | object (members : List (Text × Value))

/-- Writes a number. Only the exponents of binary64 numbers differ between formats. -/
def Number.text (style : ExponentStyle) : Number → Text
  | integer i => (if i < 0 then ['-'] else []) ++ Text.ofNat i.natAbs
  | double x => x.text style

end DocTags.Json
