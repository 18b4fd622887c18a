import SearchCompiler.Json.Record

/-!
Named aggregations of a request. In a request they form one object, in which
of two with the same name the later one counts.
-/

namespace SearchCompiler

structure Aggregation where
  name : String
  body : Json

namespace Aggregation

def toJson (a : Aggregation) : Json :=
  .object [("body", a.body), ("name", .string a.name)]

def decode? (d : Document) : Option Aggregation := do
  let field ← d.record? ["name", "body"]
  let name ← Document.required Document.string? (field "name")
  let body ← Document.required Document.value? (field "body")
  return { name, body }

/-- The object of the bodies under their names. -/
def merged (aggregations : List Aggregation) : Json :=
  .ofTable (Table.ofList (aggregations.map fun a => (a.name, a.body)))

end Aggregation

end SearchCompiler
