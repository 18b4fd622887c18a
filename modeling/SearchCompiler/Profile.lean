import SearchCompiler.Json.Record

/-!
Profiles are named bundles of backend settings, kept elsewhere; here only
their names are chosen. A name is chosen for a kind of profile in a context,
by a service that may look at the parameters of the context.
-/

namespace SearchCompiler

inductive ProfileKind where
  | rescore
  | fulltext
deriving DecidableEq, Repr

namespace ProfileKind

def all : List ProfileKind := [.rescore, .fulltext]

def name : ProfileKind → String
  | .rescore => "rescore"
  | .fulltext => "fulltext_query_builder"

/-- The parameter of a context that settles the choice. -/
def parameter : ProfileKind → String
  | .rescore => "rescore_profile"
  | .fulltext => "fulltext_profile"

def decode? (d : Document) : Option ProfileKind :=
  d.choice? (all.map fun kind => (kind.name, kind))

end ProfileKind

/-- Chooses the name of a profile by kind, context and parameters. -/
structure ProfileService where
  choose : ProfileKind → (context : String) → (params : Table String) → String

/-- Names registered for a kind in one context, and names for a kind in all
others. Registrations are kept in their order, and the last one for a key
counts. -/
structure ProfileTable where
  names : List ((ProfileKind × String) × String) := []
  fallbacks : List (ProfileKind × String) := []

namespace ProfileTable

def register (table : ProfileTable) (kind : ProfileKind) (context name : String) :
    ProfileTable :=
  { table with names := table.names ++ [((kind, context), name)] }

def registerFallback (table : ProfileTable) (kind : ProfileKind) (name : String) :
    ProfileTable :=
  { table with fallbacks := table.fallbacks ++ [(kind, name)] }

/-- The parameter first, then the name for the context, then the fallback. -/
def choose (table : ProfileTable) (kind : ProfileKind) (context : String)
    (params : Table String) : String :=
  (params.get? kind.parameter
    <|> table.names.reverse.lookup (kind, context)
    <|> table.fallbacks.reverse.lookup kind).getD "default"

def service (table : ProfileTable) : ProfileService :=
  ⟨table.choose⟩

end ProfileTable

end SearchCompiler
