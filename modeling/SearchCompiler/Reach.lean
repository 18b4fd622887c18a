import SearchCompiler.Json.Record

/-!
How far beyond the host wiki a search may go: to other projects, to other
languages and to additional indices. Each keyword of a query allows a reach of
its own, and the query as a whole reaches as far as all of them allow.
-/

namespace SearchCompiler

structure Reach where
  crossProject : Bool
  crossLanguage : Bool
  extraIndices : Bool
deriving DecidableEq, Repr

namespace Reach

def everywhere : Reach := ⟨true, true, true⟩

def hostOnly : Reach := ⟨false, false, false⟩

instance : Inhabited Reach := ⟨everywhere⟩

/-- What both reaches allow. -/
def meet (a b : Reach) : Reach where
  crossProject := a.crossProject && b.crossProject
  crossLanguage := a.crossLanguage && b.crossLanguage
  extraIndices := a.extraIndices && b.extraIndices

/-- Whether all that `b` allows is allowed by `a`. -/
def covers (a b : Reach) : Bool :=
  a.meet b == b

def describe (r : Reach) : String :=
  let flag (b : Bool) := if b then "true" else "false"
  "cross_project=" ++ flag r.crossProject ++ ", cross_language=" ++ flag r.crossLanguage
    ++ ", extra_indices=" ++ flag r.extraIndices

def toJson (r : Reach) : Json :=
  .object [
    ("cross_language", .bool r.crossLanguage),
    ("cross_project", .bool r.crossProject),
    ("extra_indices", .bool r.extraIndices)]

def decode? (d : Document) : Option Reach := do
  let field ← d.record? ["cross_project", "cross_language", "extra_indices"]
  let crossProject ← Document.required Document.bool? (field "cross_project")
  let crossLanguage ← Document.required Document.bool? (field "cross_language")
  let extraIndices ← Document.required Document.bool? (field "extra_indices")
  return { crossProject, crossLanguage, extraIndices }

end Reach

end SearchCompiler
