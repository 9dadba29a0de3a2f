import DocTags.Decimal.Double
import DocTags.Text.Basic

/-!
Decimal text of binary64 numbers: the fewest digits that read back as the same number, and of those
the ones nearest to it.
-/

namespace DocTags

/-- The number `digits · 10 ^ exponent`. -/
structure Scientific where
  digits : Nat
  exponent : Int
  deriving DecidableEq, Repr

namespace Magnitude

/-- The numbers that round to `x` lie between these two, in quarters of its last place. Below a
power of two the numbers are twice as dense. -/
def bounds (x : Magnitude) : Nat × Nat :=
  let below := if x.mantissa = Nat.pow 2 52 ∧ -1074 < x.exponent then 1 else 2
  (4 * x.mantissa - below, 4 * x.mantissa + 2)

/-- Whether `n · 10 ^ e` rounds to `x`; a bound itself does if the mantissa of `x` is even. -/
def isReadFrom (x : Magnitude) (n : Nat) (e : Int) : Bool :=
  let (low, high) := bounds x
  -- both sides of `n · 10 ^ e` against `bound · 2 ^ (exponent - 2)`, without fractions
  let q := x.exponent - 2
  let n := n * Nat.pow 10 e.toNat * Nat.pow 2 (-q).toNat
  let unit := Nat.pow 10 (-e).toNat * Nat.pow 2 q.toNat
  if x.mantissa % 2 = 0 then low * unit ≤ n && n ≤ high * unit
  else low * unit < n && n < high * unit

/-- The greatest `k` with `10 ^ k ≤ num / den`, for a fraction that is not zero. -/
def log10 (num den : Nat) : Int :=
  if den ≤ num then (Nat.toDigits 10 (num / den)).length - 1
  else -((((List.range 400).find? fun j => den ≤ num * Nat.pow 10 j).getD 400 : Nat) : Int)

/-- Of the two neighbours of `x` among the multiples of `10 ^ e`, the nearer one of those that read
back as `x`; of two that are equally near the even one. -/
def nearestAt? (x : Magnitude) (e : Int) : Option Nat :=
  let (num, den) := fraction x.mantissa x.exponent
  let num := num * Nat.pow 10 (-e).toNat
  let den := den * Nat.pow 10 e.toNat
  let near := roundHalfEven num den
  let other := if near * den ≤ num then near + 1 else near - 1
  [near, other].find? fun n => x.isReadFrom n e

/-- Looks on the grids of one digit, two digits, and so on, given how many of them are left. -/
def shortestFrom (x : Magnitude) : (left : Nat) → (e : Int) → Scientific
  | 0, e => ⟨0, e⟩
  | left + 1, e =>
    match x.nearestAt? e with
    | some n => ⟨n, e⟩
    | none => shortestFrom x left (e - 1)

/-- The shortest decimal that reads back as `x`. Seventeen digits are always enough. -/
def shortest (x : Magnitude) : Scientific :=
  let (num, den) := fraction x.mantissa x.exponent
  let s := shortestFrom x 17 (log10 num den)
  if s.digits = 10 then ⟨1, s.exponent + 1⟩ else s

end Magnitude

structure ExponentStyle where
  /-- Whether an exponent that is not negative has a plus sign. -/
  plus : Bool
  deriving DecidableEq, Repr

namespace Scientific

def exponentText (style : ExponentStyle) (e : Int) : Text :=
  'e' :: ((if e < 0 then ['-'] else if style.plus then ['+'] else []) ++ Text.ofNat e.natAbs)

/-- Writes a decimal: with a point and at least one place behind it from `10 ^ -5` to below
`10 ^ 16`, and with an exponent outside of that. -/
def text (style : ExponentStyle) (s : Scientific) : Text :=
  let ds := Text.ofNat s.digits
  let point := (ds.length : Int) + s.exponent
  if point ≤ -5 ∨ 16 < point then
    (match ds with
      | d :: rest@(_ :: _) => d :: '.' :: rest
      | _ => ds) ++ exponentText style (point - 1)
  else if point ≤ 0 then
    "0.".toList ++ List.replicate (-point).toNat '0' ++ ds
  else if s.exponent < 0 then
    ds.take point.toNat ++ '.' :: ds.drop point.toNat
  else
    ds ++ List.replicate s.exponent.toNat '0' ++ ".0".toList

end Scientific

/-- Writes a number with the fewest digits that read back as the same number. -/
def Double.text (style : ExponentStyle) (x : Double) : Text :=
  let sign := if x.negative then ['-'] else []
  if x.magnitude.isZero then sign ++ "0.0".toList
  else sign ++ x.magnitude.shortest.text style

end DocTags
