import SearchCompiler.Json.Basic
import SearchCompiler.Text.Digits

/-!
Numerals of JSON texts and the numbers they stand for.

A numeral without point and exponent is an integer when it lies between −2^63
and 2^64 − 1; the numeral `-0` has no integer to stand for and is a double.
All other numerals are doubles: their leading digits are gathered into a
significand below 2^64, digits that do not fit before the point raise the
power of ten and those after it are dropped, and the significand is then
multiplied or divided once by the double nearest to the power of ten. Powers
beyond 10^308 have no such double; a numeral that would need one for a
multiplication is too large, and divisions go in steps of 10^308.
-/

namespace SearchCompiler

/-- A numeral as it is written, digit by digit. -/
structure Numeral where
  negative : Bool
  whole : List Nat
  fraction : Option (List Nat)
  exponent : Option Int

namespace Numeral

/-- The digits a text begins with, and the text after them. -/
def readDigits : List Char → List Nat × List Char
  | [] => ([], [])
  | c :: rest =>
      match digit? c with
      | some d => (d :: (readDigits rest).1, (readDigits rest).2)
      | none => ([], c :: rest)

/-- A whole part is a lone zero or begins with another digit. -/
def isWhole : List Nat → Bool
  | [] => false
  | [_] => true
  | d :: _ => d != 0

def readFraction : List Char → Option (Option (List Nat) × List Char)
  | '.' :: rest =>
      match readDigits rest with
      | ([], _) => none
      | (digits, rest) => some (some digits, rest)
  | cs => some (none, cs)

def readSigned (negative : Bool) (cs : List Char) : Option (Option Int × List Char) :=
  match readDigits cs with
  | ([], _) => none
  | (digits, rest) =>
      let n : Int := ofDigits digits
      some (some (if negative then -n else n), rest)

def readExponent : List Char → Option (Option Int × List Char)
  | 'e' :: '-' :: rest | 'E' :: '-' :: rest => readSigned true rest
  | 'e' :: '+' :: rest | 'E' :: '+' :: rest => readSigned false rest
  | 'e' :: rest | 'E' :: rest => readSigned false rest
  | cs => some (none, cs)

def readUnsigned (negative : Bool) (cs : List Char) : Option (Numeral × List Char) := do
  let (whole, rest) := readDigits cs
  guard (isWhole whole)
  let (fraction, rest) ← readFraction rest
  let (exponent, rest) ← readExponent rest
  return (⟨negative, whole, fraction, exponent⟩, rest)

/-- The numeral a text begins with, and the text after it. -/
def read : List Char → Option (Numeral × List Char)
  | '-' :: rest => readUnsigned true rest
  | cs => readUnsigned false cs

/-- Appends digits to a significand as long as it stays below 2^64. -/
def gather (significand : Nat) : List Nat → Nat × List Nat
  | [] => (significand, [])
  | d :: rest =>
      if significand * 10 + d < UInt64.size then gather (significand * 10 + d) rest
      else (significand, d :: rest)

def tenTo? (n : Nat) : Option Double :=
  Double.ofRatio? false (powerOfTen n) 1

/-- Divides by a power of ten, the largest powers in steps of `step`, the
double nearest to 10^308. -/
def divideByTenTo? (step x : Double) (n : Nat) : Option Double :=
  if h : 308 < n then
    if x.isZero then some x
    else (x.div? step).bind fun y => divideByTenTo? step y (n - 308)
  else (tenTo? n).bind x.div?
termination_by n
decreasing_by omega

def timesTenTo? (x : Double) (n : Int) : Option Double :=
  if n < 0 then (tenTo? 308).bind fun step => divideByTenTo? step x (-n).toNat
  else if n ≤ 308 then (tenTo? n.toNat).bind x.mul?
  else if x.isZero then some x
  else none

/-- The number a numeral stands for; nothing when it is too large. -/
def value? (n : Numeral) : Option Number := do
  let (significand, excess) := gather 0 n.whole
  if n.fraction.isNone && n.exponent.isNone && excess.isEmpty then
    if !n.negative then return .int significand
    else if significand ≠ 0 ∧ significand ≤ powerOfTwo 63 then return .int (-significand)
    else return .double (← Double.ofRatio? true significand 1)
  else
    let fraction := n.fraction.getD []
    let (significand, dropped) := gather significand fraction
    let places : Int := fraction.length - dropped.length
    let magnitude ← timesTenTo? (← Double.ofRatio? false significand 1)
      (n.exponent.getD 0 + excess.length - places)
    return .double { magnitude with negative := n.negative }

end Numeral

end SearchCompiler
