import SearchCompiler.Json.Double

/-!
The shortest decimal of a binary64 number: of all decimals that round to the
number, those with the fewest digits, and of these the nearest one.

The reals that round to a number form an interval around it, with both ends
included exactly when the significand is even. On the grid of decimals with a
given last place, if any grid point lies in the interval then one of the two
neighbours of the number does, so it is enough to try those two on ever finer
grids. Seventeen digits always suffice.
-/

namespace SearchCompiler

/-- The natural number `digits` times a power of ten. -/
structure Decimal where
  digits : Nat
  exponent : Int
deriving DecidableEq, Repr

namespace Decimal

def length (n : Nat) : Nat :=
  (Nat.toDigits 10 n).length

/-- Moves trailing zeros of the digits into the exponent. -/
def stripZeros : Nat → Decimal → Decimal
  | 0, d => d
  | fuel + 1, d =>
      if d.digits % 10 = 0 then stripZeros fuel ⟨d.digits / 10, d.exponent + 1⟩ else d

end Decimal

namespace Double

/-- Four times the number and the two ends of its rounding interval, in units
of 2^(scale − 1076). Below a power of two the grid of numbers is finer, so the
lower end is nearer. -/
def quarters (x : Double) : Nat × Nat × Nat :=
  let low := if x.significand = powerOfTwo 52 ∧ 0 < x.scale then 1 else 2
  (4 * x.significand - low, 4 * x.significand, 4 * x.significand + 2)

/-- The power of ten of the leading digit of a nonzero number. -/
def magnitude (x : Double) : Int :=
  let units := x.significand * powerOfTwo x.scale
  if powerOfTwo 1074 ≤ units then (Decimal.length (units / powerOfTwo 1074) : Int) - 1
  else -(Decimal.length ((powerOfTwo 1074 - 1) / units) : Int)

/-- The nearest multiple of 10^place that rounds to the number, if one does. -/
def onGrid? (x : Double) (place : Int) : Option Decimal :=
  let (low, mid, high) := x.quarters
  let grid := powerOfTen place.toNat * powerOfTwo 1076
  let unit := powerOfTwo x.scale * powerOfTen (-place).toNat
  let rounds (d : Nat) : Bool :=
    if x.significand % 2 = 0 then low * unit ≤ d * grid && d * grid ≤ high * unit
    else low * unit < d * grid && d * grid < high * unit
  let below := mid * unit / grid
  let nearest := roundDiv (mid * unit) grid
  if rounds nearest then some ⟨nearest, place⟩
  else if rounds below then some ⟨below, place⟩
  else if rounds (below + 1) then some ⟨below + 1, place⟩
  else none

/-- The shortest decimal of the absolute value. -/
def shortest (x : Double) : Decimal :=
  if x.isZero then ⟨0, 0⟩
  else
    let places := (List.range 17).map fun (n : Nat) => x.magnitude - n
    ((places.findSome? x.onGrid?).getD ⟨0, 0⟩).stripZeros 20

end Double

end SearchCompiler
