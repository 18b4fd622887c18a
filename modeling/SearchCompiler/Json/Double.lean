/-!
Finite binary64 numbers as exact dyadic fractions: a sign, a significand of
at most 53 bits and a scale, standing for ± significand · 2^(scale − 1074).
Arithmetic is done on natural numbers and rounded once, to the nearest number
and from a tie to the even significand, so that no result depends on a
floating-point unit. The normal form makes equal bit patterns equal values of
the type; only the two zeros are different values of one number.
-/

namespace SearchCompiler

abbrev powerOfTwo (n : Nat) : Nat := Nat.pow 2 n

abbrev powerOfTen (n : Nat) : Nat := Nat.pow 10 n

structure Double where
  negative : Bool
  significand : Nat
  scale : Nat
  significand_lt : significand < powerOfTwo 53
  scale_le : scale ≤ 2045
  normal : scale = 0 ∨ powerOfTwo 52 ≤ significand
deriving DecidableEq

/-- The integer nearest to a quotient, the even one of two. -/
def roundDiv (numerator denominator : Nat) : Nat :=
  let quotient := numerator / denominator
  let rest := numerator % denominator
  if 2 * rest < denominator then quotient
  else if denominator < 2 * rest then quotient + 1
  else quotient + quotient % 2

namespace Double

/-- A number in normal form, or nothing beyond the largest finite one. -/
def normalized? (negative : Bool) (significand scale : Nat) : Option Double :=
  if h : significand < powerOfTwo 53 ∧ scale ≤ 2045 ∧ (scale = 0 ∨ powerOfTwo 52 ≤ significand) then
    some ⟨negative, significand, scale, h.1, h.2.1, h.2.2⟩
  else none

/-- The number nearest to a quotient of naturals, with the given sign;
nothing when the quotient rounds beyond the largest finite number. -/
def ofRatio? (negative : Bool) (numerator denominator : Nat) : Option Double :=
  let units := numerator * powerOfTwo 1074
  let scale := (units / denominator).log2 - 52
  let significand := roundDiv units (denominator * powerOfTwo scale)
  if significand = powerOfTwo 53 then normalized? negative (powerOfTwo 52) (scale + 1)
  else normalized? negative significand scale

def ofInt? (value : Int) : Option Double :=
  ofRatio? (value < 0) value.natAbs 1

def zero : Double := ⟨false, 0, 0, by decide, by decide, .inl rfl⟩

def one : Double := ⟨false, powerOfTwo 52, 1022, by decide, by decide, .inr (by decide)⟩

instance : Inhabited Double := ⟨zero⟩

def isZero (x : Double) : Bool :=
  x.significand == 0

def negate (x : Double) : Double :=
  { x with negative := !x.negative }

/-- The rounded product. -/
def mul? (x y : Double) : Option Double :=
  ofRatio? (x.negative != y.negative)
    (x.significand * y.significand * powerOfTwo (x.scale + y.scale)) (powerOfTwo 2148)

/-- The rounded quotient, nothing for a zero divisor. -/
def div? (x y : Double) : Option Double :=
  if y.isZero then none
  else ofRatio? (x.negative != y.negative)
    (x.significand * powerOfTwo x.scale) (y.significand * powerOfTwo y.scale)

/-- Equality as numbers: the two zeros are equal. -/
def same (x y : Double) : Bool :=
  x.significand == y.significand && x.scale == y.scale
    && (x.negative == y.negative || x.isZero)

end Double

end SearchCompiler
