import SearchCompiler.Error
import SearchCompiler.SortedSet

/-!
The namespaces that a query text itself asks for: every one, or those of a
set. The empty set means that the text asks for none in particular.
-/

namespace SearchCompiler

inductive Namespaces where
  | all
  | these (ids : SortedSet Int32)
deriving DecidableEq

namespace Namespaces

/-- Nothing in particular. -/
def unspecified : Namespaces := .these .empty

instance : Inhabited Namespaces := ⟨unspecified⟩

def isAll : Namespaces → Bool
  | .all => true
  | .these _ => false

def isUnspecified : Namespaces → Bool
  | .all => false
  | .these ids => ids.isEmpty

/-- A namespace id is an integer of 32 bits; a double never is one. -/
def id? : Json → Except QueryError Int32
  | .number (.int n) =>
      if Int32.minValue.toInt ≤ n ∧ n ≤ Int32.maxValue.toInt then .ok (Int32.ofInt n)
      else .error (.notNamespace (.number (.int n)))
  | value => .error (.notNamespace value)

/-- Reads the marker for all namespaces or a list of ids; of the items that
are no ids the first is reported. -/
def ofJson : Json → Except QueryError Namespaces
  | .string "all" => .ok .all
  | .array items => (items.mapM id?).map fun ids => .these (.ofList ids)
  | value => .error (.notNamespaces value)

def toJson : Namespaces → Json
  | .all => .string "all"
  | .these ids => .array (ids.elements.map fun id => .int id.toInt)

end Namespaces

end SearchCompiler
