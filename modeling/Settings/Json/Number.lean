import Settings.Value

/-!
# Numbers of JSON text

An integer literal that fits 64 bits, signed or unsigned, is an integer; every other literal is a
double precision number. Such a number keeps as many leading digits as fit 64 unsigned bits and
applies the power of ten in one rounded operation, which for a literal of many digits or a far
exponent is not always the nearest number.
-/

set_option autoImplicit false

namespace Settings.Json

/-- The least number that does not fit 64 unsigned bits. -/
def wordLimit : Nat := Nat.pow 2 64

def digit? (c : Char) : Option Nat := if c.isDigit then some (c.toNat - '0'.toNat) else none

/-- The decimal digits in front of a text, and what follows them. -/
def takeDigits (cs : List Char) : List Nat × List Char :=
  (cs.takeWhile Char.isDigit |>.filterMap digit?, cs.dropWhile Char.isDigit)

/-- Ten to a power, rounded. -/
def powerOfTen (n : Nat) : Binary64 := .ofDecimal false 1 n

/-- The leading digits that fit 64 unsigned bits, and how many digits are left over. -/
def foldDigits : (significand : Nat) → List Nat → Nat × Nat
  | s, [] => (s, 0)
  | s, d :: ds =>
    if s * 10 + d < wordLimit then foldDigits (s * 10 + d) ds else (s, (d :: ds).length)

/-- Divides by a power of ten, in steps of at most 308 powers. -/
def divideByTens (x : Binary64) (n : Nat) : Binary64 :=
  if n ≤ 308 then x.div (powerOfTen n)
  else if x.isZero then x
  else divideByTens (x.div (powerOfTen 308)) (n - 308)
termination_by n

/-- The number `significand * 10 ^ exponent`; `none` if it is too large. -/
def scaled? (significand : Nat) (exponent : Int) : Option Binary64 :=
  let x := Binary64.ofRatio false significand 1
  if exponent < 0 then some (divideByTens x (-exponent).toNat)
  else if 308 < exponent then if x.isZero then some x else none
  else
    let y := x.mul (powerOfTen exponent.toNat)
    if y.isFinite then some y else none

/-- The double precision number with a sign. -/
def signed (negative : Bool) (x : Binary64) : Binary64 :=
  .ofMagnitude negative x.magnitudeBits

/-- The fraction of a literal: a point and at least one digit. -/
def readFraction : List Char → Option (List Nat × List Char)
  | '.' :: cs =>
    let (ds, rest) := takeDigits cs
    if ds.isEmpty then none else some (ds, rest)
  | cs => some ([], cs)

/-- The exponent of a literal: the letter, an optional sign and at least one digit. -/
def readExponent (cs : List Char) : Option (Option Int × List Char) :=
  match cs with
  | 'e' :: cs | 'E' :: cs =>
    let (negative, cs) := match cs with
      | '-' :: cs => (true, cs)
      | '+' :: cs => (false, cs)
      | cs => (false, cs)
    let (ds, rest) := takeDigits cs
    if ds.isEmpty then none
    else
      let n : Nat := ds.foldl (fun n d => n * 10 + d) 0
      some (some (if negative then -(n : Int) else n), rest)
  | cs => some (none, cs)

/-- The integer with a sign and magnitude, if it fits 64 bits and is no negative zero. -/
def integer? (negative : Bool) (magnitude : Nat) : Option Value :=
  if negative then
    if 0 < magnitude ∧ magnitude ≤ wordLimit / 2 then some (.int (-magnitude)) else none
  else if magnitude < wordLimit then some (.int magnitude) else none

def readNumber (cs : List Char) : Option (Value × List Char) := do
  let (negative, cs) := match cs with
    | '-' :: cs => (true, cs)
    | cs => (false, cs)
  let (whole, cs) := takeDigits cs
  if whole.isEmpty || (whole.head? == some 0 && 1 < whole.length) then none
  let (fraction, cs) ← readFraction cs
  let (exponent, cs) ← readExponent cs
  let (leading, dropped) := foldDigits 0 whole
  let plain := fraction.isEmpty && exponent.isNone && dropped == 0
  match if plain then integer? negative leading else none with
  | some n => some (n, cs)
  | none =>
    let (significand, unused) := foldDigits leading fraction
    let places : Int := fraction.length - unused
    let x ← scaled? significand (dropped - places + exponent.getD 0)
    some (.double (signed negative x), cs)

end Settings.Json
