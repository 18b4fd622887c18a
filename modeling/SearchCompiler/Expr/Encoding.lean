import SearchCompiler.Expr.Basic

/-!
The JSON form in which the backend receives an expression: an object with one
entry, whose key tells the kind of expression. Empty clause groups are left
out, and the body of a scoring function is merged with its filter and weight.
-/

namespace SearchCompiler

def Operator.name : Operator → String
  | .and => "and"
  | .or => "or"

/-- A clause group under its name, left out when it is empty. -/
def groupEntry (name : String) (clauses : List Json) : List (String × Json) :=
  if clauses.isEmpty then [] else [(name, .array clauses)]

/-- The encoded parts of a scoring function as one object. Filter and weight
take the place of entries of the body under the same names. -/
def scoreEntries (filter : Option Json) (weight : Double) (body : Option (Table Json)) : Json :=
  let body := body.getD .empty
  let body := match filter with
    | none => body
    | some filter => body.insert "filter" filter
  .ofTable (body.insert "weight" (.double weight))

mutual

def Expr.toJson : Expr → Json
  | .matchAll => .single "match_all" (.object [])
  | .matchNone => .single "match_none" (.object [])
  | .matchText field text operator => .single "match" <| .single field <|
      .object [("operator", .string operator.name), ("query", .string text)]
  | .phrase field text slop => .single "match_phrase" <| .single field <|
      .object [("query", .string text), ("slop", .nat slop.toNat)]
  | .phrasePrefix field text => .single "match_phrase_prefix" <| .single field <|
      .object [("query", .string text)]
  | .termPrefix field value => .single "prefix" <| .single field <| .string value
  | .fuzzy field value distance => .single "fuzzy" <| .single field <|
      .object [
        ("fuzziness", match distance with
          | none => .string "AUTO"
          | some n => .nat n.toNat),
        ("value", .string value)]
  | .wildcard field value => .single "wildcard" <| .single field <| .string value
  | .term field value => .single "term" <| .single field value
  | .terms field values => .single "terms" <| .single field <| .array values
  | .bool ⟨must, should, mustNot, filter⟩ => .single "bool" <| .object <|
      groupEntry "filter" (toJsonList filter) ++ groupEntry "must" (toJsonList must)
        ++ groupEntry "must_not" (toJsonList mustNot)
        ++ groupEntry "should" (toJsonList should)
  | .functionScore query functions scoreMode boostMode => .single "function_score" <|
      .object [
        ("boost_mode", .string boostMode),
        ("functions", .array (toJsonFunctions functions)),
        ("query", query.toJson),
        ("score_mode", .string scoreMode)]

def toJsonList : List Expr → List Json
  | [] => []
  | e :: rest => e.toJson :: toJsonList rest

def toJsonFunctions : List (ScoreFunction Expr) → List Json
  | [] => []
  | ⟨none, weight, body⟩ :: rest => scoreEntries none weight body :: toJsonFunctions rest
  | ⟨some filter, weight, body⟩ :: rest =>
      scoreEntries (some filter.toJson) weight body :: toJsonFunctions rest

end

def ScoreFunction.toJson (f : ScoreFunction Expr) : Json :=
  scoreEntries (f.filter.map Expr.toJson) f.weight f.body

end SearchCompiler
