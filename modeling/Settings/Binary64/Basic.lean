/-!
# Double precision numbers

A `Binary64` is the 64-bit word of a double precision number: one sign bit, eleven exponent bits,
52 fraction bits. Everything is exact natural-number arithmetic on the word: a finite number is
`± significand * 2 ^ scale`, and `ofRatio` rounds a quotient to the nearest number, a tie to the
even significand.
-/

set_option autoImplicit false

namespace Settings

/-- A double precision number, given by its word. -/
structure Binary64 where
  bits : UInt64
  deriving DecidableEq, Repr

namespace Binary64

def signWeight : Nat := Nat.pow 2 63

/-- The weight of the lowest exponent bit. -/
def exponentWeight : Nat := Nat.pow 2 52

/-- The exponent field of infinities and NaNs. -/
def exponentLimit : Nat := 2047

def magnitudeBits (x : Binary64) : Nat := x.bits.toNat % signWeight

def isNegative (x : Binary64) : Bool := signWeight ≤ x.bits.toNat

def exponentField (x : Binary64) : Nat := x.magnitudeBits / exponentWeight

def fractionField (x : Binary64) : Nat := x.magnitudeBits % exponentWeight

/-- Neither an infinity nor a NaN. -/
def isFinite (x : Binary64) : Bool := x.exponentField < exponentLimit

/-- Either zero. -/
def isZero (x : Binary64) : Bool := x.magnitudeBits == 0

/-- The integer significand: with the hidden bit, except for subnormal numbers. -/
def significand (x : Binary64) : Nat :=
  if x.exponentField = 0 then x.fractionField else exponentWeight + x.fractionField

/-- The power of two that the significand is multiplied with. -/
def scale (x : Binary64) : Int :=
  if x.exponentField = 0 then -1074 else (x.exponentField : Int) - 1075

/-- The number with a given sign and word; a word of 2^63 or more is infinite. -/
def ofMagnitude (negative : Bool) (magnitude : Nat) : Binary64 :=
  let infinite := exponentLimit * exponentWeight
  let word := if magnitude < infinite then magnitude else infinite
  ⟨(word + if negative then signWeight else 0).toUInt64⟩

def zero (negative : Bool) : Binary64 := ofMagnitude negative 0

/-- The quotient of two natural numbers, rounded to the nearest integer, a tie to the even one. -/
def roundDiv (num den : Nat) : Nat :=
  let q := num / den
  let twice := 2 * (num % den)
  if twice < den then q else if den < twice then q + 1 else q + q % 2

/-- The fraction `num / den * 2 ^ (-k)` as a pair of natural numbers. -/
def scaleDown (num den : Nat) (k : Int) : Nat × Nat :=
  if k < 0 then (num * Nat.pow 2 (-k).toNat, den) else (num, den * Nat.pow 2 k.toNat)

/-- The number nearest to `num / den`; a tie goes to the even significand, and what exceeds the
greatest finite number by half a unit or more becomes infinite. The scale is the power of two under
which the quotient has 53 bits, but never below that of the subnormal numbers. -/
def ofRatio (negative : Bool) (num den : Nat) : Binary64 :=
  if num = 0 then zero negative
  else
    let guess : Int := (Nat.log2 num : Int) - Nat.log2 den - 52
    let (n, d) := scaleDown num den guess
    let fitted := if n < exponentWeight * d then guess - 1 else guess
    let k := max fitted (-1074)
    let (n, d) := scaleDown num den k
    ofMagnitude negative ((k + 1074).toNat * exponentWeight + roundDiv n d)

/-- The number nearest to `digits * 10 ^ exponent`. An exponent far outside the range of the
format is cut, as it no longer matters. -/
def ofDecimal (negative : Bool) (digits : Nat) (exponent : Int) : Binary64 :=
  if digits = 0 then zero negative
  else
    let size : Int := Nat.log2 digits
    if 310 < exponent then ofMagnitude negative signWeight
    else if exponent * 3 + size < -3000 then zero negative
    else if exponent < 0 then ofRatio negative digits (Nat.pow 10 (-exponent).toNat)
    else ofRatio negative (digits * Nat.pow 10 exponent.toNat) 1

/-- The absolute value as a quotient of natural numbers; meaningful for finite numbers. -/
def ratio (x : Binary64) : Nat × Nat :=
  if x.scale < 0 then (x.significand, Nat.pow 2 (-x.scale).toNat)
  else (x.significand * Nat.pow 2 x.scale.toNat, 1)

/-- The product of two finite numbers, rounded. -/
def mul (x y : Binary64) : Binary64 :=
  let (a, b) := x.ratio
  let (c, d) := y.ratio
  ofRatio (x.isNegative != y.isNegative) (a * c) (b * d)

/-- The quotient of two finite numbers, rounded; the divisor is not zero. -/
def div (x y : Binary64) : Binary64 :=
  let (a, b) := x.ratio
  let (c, d) := y.ratio
  ofRatio (x.isNegative != y.isNegative) (a * d) (b * c)

/-- Equality as numbers: the two zeros are equal, a NaN equals nothing. -/
def sameNumber (x y : Binary64) : Bool :=
  if x.isZero && y.isZero then true
  else x == y && !(exponentLimit * exponentWeight < x.magnitudeBits)

end Binary64

end Settings
