import Settings.Binary64.Basic

/-!
# The shortest decimal of a double precision number

`Binary64.shortest` finds the fewest significant digits that still read back as the number, and of
those decimals the one nearest to it. On each decimal grid only the two neighbours of the number
can lie in its rounding interval or not before it, so each digit count needs two exact tests.
-/

set_option autoImplicit false

namespace Settings.Binary64

/-- Four times the ends of the interval of reals that round to the number, in units of its scale,
and whether the ends belong to it. Below a power of two the neighbour is only half as far. -/
def roundingInterval (x : Binary64) : Nat × Nat × Bool :=
  let m := x.significand
  let below := if m = exponentWeight ∧ 1 < x.exponentField then 4 * m - 1 else 4 * m - 2
  (below, 4 * m + 2, m % 2 = 0)

/-- Compares `a * 10 ^ p` with `b * 2 ^ q`. -/
def compareScaled (a : Nat) (p : Int) (b : Nat) (q : Int) : Ordering :=
  compare (a * Nat.pow 10 p.toNat * Nat.pow 2 (-q).toNat)
    (b * Nat.pow 2 q.toNat * Nat.pow 10 (-p).toNat)

/-- Whether the decimal `c * 10 ^ p` rounds to the number. -/
def roundsTo (x : Binary64) (c : Nat) (p : Int) : Bool :=
  let (lo, hi, closed) := x.roundingInterval
  let left := compareScaled c p lo (x.scale - 2)
  let right := compareScaled c p hi (x.scale - 2)
  (left == .gt || closed && left == .eq) && (right == .lt || closed && right == .eq)

/-- The power of ten just above the number: `10 ^ (k - 1) ≤ x < 10 ^ k`. -/
def decimalExponent (x : Binary64) : Int :=
  let log2 : Int := Nat.log2 x.significand + x.scale
  let k := log2 * 78913 / 262144 + 1
  if compareScaled 1 k x.significand x.scale == .gt then k else k + 1

/-- The multiple of `10 ^ p` at or below the number, in units of `10 ^ p`. -/
def floorAt (x : Binary64) (p : Int) : Nat :=
  x.significand * Nat.pow 2 x.scale.toNat * Nat.pow 10 (-p).toNat /
    (Nat.pow 10 p.toNat * Nat.pow 2 (-x.scale).toNat)

/-- The decimal on the grid of `10 ^ p` that reads back as the number: of two, the nearer, and of
two equally near the even one. -/
def onGrid? (x : Binary64) (p : Int) : Option Nat :=
  let c := x.floorAt p
  match x.roundsTo c p && 0 < c, x.roundsTo (c + 1) p with
  | true, false => some c
  | false, true => some (c + 1)
  | false, false => none
  | true, true =>
    match compareScaled (2 * c + 1) p (2 * x.significand) x.scale with
    | .gt => some c
    | .lt => some (c + 1)
    | .eq => some (c + c % 2)

def dropZero : Nat × Int → Nat × Int
  | (c, p) => if c % 10 = 0 then (c / 10, p + 1) else (c, p)

/-- The digits and power of ten of the shortest decimal that reads back as the finite nonzero
number: the first hit on the grids with one to seventeen digits, and seventeen always suffice. Only
on the coarsest grid can the hit be a power of ten, which is written with one digit. -/
def shortest (x : Binary64) : Nat × Int :=
  let top := x.decimalExponent
  let hit (i : Nat) : Option (Nat × Int) :=
    let p := top - (i + 1 : Nat)
    (x.onGrid? p).map fun c => dropZero (c, p)
  ((List.range 17).findSome? hit).getD (x.floorAt (top - 17), top - 17)

end Settings.Binary64
