/-!
Finite binary64 numbers as exact integers, and the roundings that lead to them. Everything is done
in `Nat` and `Int`, so that each step can be evaluated and reasoned about.
-/

namespace DocTags

/-- The number `mantissa · 2 ^ exponent`. In the numbers made here the mantissa has at most 53 bits
and the exponent is at least -1074; the mantissa has all 53 bits unless the exponent is -1074. -/
structure Magnitude where
  mantissa : Nat
  exponent : Int
  deriving DecidableEq, Repr

/-- A finite binary64 number; zero has a sign too. -/
structure Double where
  negative : Bool
  magnitude : Magnitude
  deriving DecidableEq, Repr

/-- The natural number nearest to `num / den`, the even one of two that are equally near. -/
def roundHalfEven (num den : Nat) : Nat :=
  let q := num / den
  let r := num % den
  if 2 * r < den then q
  else if den < 2 * r then q + 1
  else q + q % 2

namespace Magnitude

def zero : Magnitude :=
  ⟨0, -1074⟩

def isZero (x : Magnitude) : Bool :=
  x.mantissa == 0

/-- The fraction `n · 2 ^ e`, as numerator and denominator. -/
def fraction (n : Nat) (e : Int) : Nat × Nat :=
  (n * Nat.pow 2 e.toNat, Nat.pow 2 (-e).toNat)

/-- Rounds `num / den` to a multiple of `2 ^ e`. -/
def roundAt (num den : Nat) (e : Int) : Nat :=
  roundHalfEven (num * Nat.pow 2 (-e).toNat) (den * Nat.pow 2 e.toNat)

/-- The least exponent at which `num / den` has at most 53 bits in front of the point. -/
def exponentOf (num den : Nat) : Int :=
  let e := max ((Nat.log2 num : Int) - Nat.log2 den - 53) (-1074)
  if num * Nat.pow 2 (-e).toNat < Nat.pow 2 53 * (den * Nat.pow 2 e.toNat) then e else e + 1

/-- The binary64 number nearest to `num / den`, and none if that is beyond the largest one. -/
def ofRatio? (num den : Nat) : Option Magnitude :=
  if num = 0 then some zero
  else
    let e := exponentOf num den
    let m := roundAt num den e
    let x : Magnitude := if m = Nat.pow 2 53 then ⟨Nat.pow 2 52, e + 1⟩ else ⟨m, e⟩
    if x.exponent ≤ 971 then some x else none

/-- The product, rounded once. -/
def mul? (x y : Magnitude) : Option Magnitude :=
  let (num, den) := fraction (x.mantissa * y.mantissa) (x.exponent + y.exponent)
  ofRatio? num den

/-- The quotient, rounded once. -/
def div? (x y : Magnitude) : Option Magnitude :=
  let (num, den) := fraction x.mantissa (x.exponent - y.exponent)
  ofRatio? num (den * y.mantissa)

def pow10? (n : Nat) : Option Magnitude :=
  ofRatio? (Nat.pow 10 n) 1

/-- Divides by a power of ten, in steps of at most `10 ^ 308` with one rounding each. -/
def shrink (x : Magnitude) (n : Nat) : Option Magnitude := do
  if n ≤ 308 then x.div? (← pow10? n)
  else if x.isZero then some x
  else shrink (← x.div? (← pow10? 308)) (n - 308)
termination_by n

/-- The number `significand · 10 ^ exponent` as a reader of decimals makes it: the significand is
rounded, and then multiplied or divided by a power of ten. There is none where the result is beyond
the largest number. -/
def ofDecimal? (significand : Nat) (exponent : Int) : Option Magnitude := do
  let x ← ofRatio? significand 1
  if exponent < 0 then x.shrink (-exponent).toNat
  else if x.isZero then some x
  else if exponent ≤ 308 then x.mul? (← pow10? exponent.toNat)
  else none

end Magnitude
end DocTags
