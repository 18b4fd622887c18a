/-!
Decimal digits and the unsigned integers written with them. Only the ten ASCII
digits count as digits.
-/

namespace SearchCompiler

def digit? (c : Char) : Option Nat :=
  if '0' ≤ c ∧ c ≤ '9' then some (c.toNat - '0'.toNat) else none

def ofDigits (digits : List Nat) : Nat :=
  digits.foldl (fun n d => n * 10 + d) 0

/-- The integer a text spells: at most one plus sign and then digits only, at
least one of them, with a value below `bound`. -/
def unsignedBelow? (bound : Nat) (text : String) : Option Nat := do
  let digits ← match text.toList with
    | '+' :: rest => rest.mapM digit?
    | cs => cs.mapM digit?
  guard (!digits.isEmpty && ofDigits digits < bound)
  return ofDigits digits

end SearchCompiler
