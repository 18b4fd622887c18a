import SearchCompiler.Table
import SearchCompiler.Json.Double

/-!
JSON values. Integers and doubles are kept apart, since `1` and `1.0` are
written differently and only the first is an integer to a reader. The entries
of an object stand in ascending order of their keys, each key once; the
reader and all encoders build them so, and two objects are then the same map
exactly when they are the same list.
-/

namespace SearchCompiler

inductive Number where
  | int (value : Int)
  | double (value : Double)
deriving DecidableEq

inductive Json where
  | null
  | bool (value : Bool)
  | number (value : Number)
  | string (value : String)
  | array (items : List Json)
  | object (entries : List (String × Json))
deriving Inhabited

namespace Json

abbrev int (value : Int) : Json := .number (.int value)

abbrev nat (value : Nat) : Json := .number (.int value)

abbrev double (value : Double) : Json := .number (.double value)

abbrev strings (values : List String) : Json := .array (values.map .string)

/-- An absent value is written as null. -/
def ofOption {α : Type} (encode : α → Json) : Option α → Json
  | none => .null
  | some value => encode value

def ofTable (table : Table Json) : Json :=
  .object table.entries

/-- The object with one entry. -/
def single (key : String) (value : Json) : Json :=
  .object [(key, value)]

end Json

/-- An integer never equals a double, whatever their values. -/
def Number.same : Number → Number → Bool
  | .int a, .int b => a == b
  | .double a, .double b => a.same b
  | _, _ => false

mutual

/-- Equality that takes the two zeros among the doubles for one number. -/
def Json.same : Json → Json → Bool
  | .null, .null => true
  | .bool a, .bool b => a == b
  | .number a, .number b => a.same b
  | .string a, .string b => a == b
  | .array as, .array bs => sameItems as bs
  | .object as, .object bs => sameEntries as bs
  | _, _ => false

def sameItems : List Json → List Json → Bool
  | [], [] => true
  | a :: as, b :: bs => a.same b && sameItems as bs
  | _, _ => false

def sameEntries : List (String × Json) → List (String × Json) → Bool
  | [], [] => true
  | (k, a) :: as, (l, b) :: bs => k == l && a.same b && sameEntries as bs
  | _, _ => false

end

end SearchCompiler
