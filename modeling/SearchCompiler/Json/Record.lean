import SearchCompiler.Json.Document

/-!
Decoding of documents into typed values. A record is written as an object or
as the array of its fields in their declared order. In an object the order of
the keys and unknown keys do not matter, but a declared key may stand only
once; an array may stop early, and then the remaining fields are missing, but
may not go on after the last field. Whether a field may be missing is the
field's own matter; a null is a value and never the same as a missing field.
-/

namespace SearchCompiler

namespace Document

def bool? : Document → Option Bool
  | .bool b => some b
  | _ => none

def string? : Document → Option String
  | .string s => s
  | _ => none

/-- An integer token from zero up to and without `bound`. -/
def natBelow? (bound : Nat) : Document → Option Nat
  | .number (some (.int n)) => if 0 ≤ n ∧ n < bound then some n.toNat else none
  | _ => none

def uint32? (d : Document) : Option UInt32 :=
  (d.natBelow? UInt32.size).map UInt32.ofNat

def uint64? (d : Document) : Option UInt64 :=
  (d.natBelow? UInt64.size).map UInt64.ofNat

/-- Integers are read as the nearest double. -/
def double? : Document → Option Double
  | .number (some (.int n)) => Double.ofInt? n
  | .number (some (.double x)) => some x
  | _ => none

def list? {α : Type} (item? : Document → Option α) : Document → Option (List α)
  | .array items => items.mapM item?
  | _ => none

/-- The entries of an object in their order, all keys readable. -/
def entries? {α : Type} (value? : Document → Option α) : Document → Option (List (String × α))
  | .object entries => entries.mapM fun (key, value) => do return (← key, ← value? value)
  | _ => none

/-- A map from names, in which of repeated keys the last one counts. -/
def table? {α : Type} (value? : Document → Option α) (d : Document) : Option (Table α) :=
  (d.entries? value?).map Table.ofList

/-- One of finitely many named choices: its name, or an object with null
under its name. -/
def choice? {α : Type} (choices : List (String × α)) : Document → Option α
  | .string name => name.bind fun name => choices.lookup name
  | .object [(name, .null)] => name.bind fun name => choices.lookup name
  | _ => none

/-- The fields of a record with the given field names. -/
def record? (names : List String) : Document → Option (String → Option Document)
  | .array items =>
      if items.length ≤ names.length then some fun name => items[names.idxOf name]? else none
  | .object entries =>
      if entries.all (·.1.isSome) && names.all (fun name => entries.countP (·.1 == some name) ≤ 1)
      then some fun name => entries.lookup (some name)
      else none
  | _ => none

/-- A field that has to be there. -/
def required {α : Type} (decode : Document → Option α) : Option Document → Option α
  | none => none
  | some d => decode d

/-- A field with a default for when it is missing. -/
def defaulted {α : Type} (default : α) (decode : Document → Option α) :
    Option Document → Option α
  | none => some default
  | some d => decode d

end Document

end SearchCompiler
