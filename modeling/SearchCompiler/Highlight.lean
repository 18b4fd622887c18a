import SearchCompiler.Expr.Encoding

/-!
The highlighting section of a request. What is highlighted depends on the kind
of results that are wanted, which may take up options for further fields; a
highlight query narrows it to what that query matches.
-/

namespace SearchCompiler

/-- A kind of results, seen from its highlighting: the configuration for
options of further fields, or none if these results are not highlighted. -/
structure Highlighter where
  configure : (extraFields : Table Json) → Option (Table Json)

namespace Highlighter

/-- For results without highlighting. -/
def plain : Highlighter := ⟨fun _ => none⟩

/-- The tag before what is highlighted, unless another one is wanted. -/
def usualPreTag : String := "<span class=\"searchmatch\">"

def usualPostTag : String := "</span>"

/-- For results that show the given fields, one fragment of each, with tags
around what is highlighted. Options for further fields replace those of the
given ones. -/
def ofFields (fields : List String) (preTag postTag : String) : Highlighter where
  configure extraFields :=
    if fields.isEmpty && extraFields.isEmpty then none
    else
      let one := Json.object [("number_of_fragments", .int 1)]
      let options := (Table.ofList (fields.map fun field => (field, one))).insertAll
        extraFields.entries
      some (Table.ofList [
        ("pre_tags", .strings [preTag]),
        ("post_tags", .strings [postTag]),
        ("fields", .ofTable options)])

end Highlighter

structure Highlight where
  config : Table Json
  query : Option Expr

/-- The query stands among the entries of the configuration, in place of one
of its name. -/
def Highlight.toJson (h : Highlight) : Json :=
  match h.query with
  | none => .ofTable h.config
  | some query => .ofTable (h.config.insert "highlight_query" query.toJson)

end SearchCompiler
