import SearchCompiler.Draft.Basic
import SearchCompiler.Highlight
import SearchCompiler.Rescore

/-!
What a draft amounts to: the composite query, the highlighting, the rescoring
chain, the suggestion and the whole request. All of it is computed from the
draft as it stands.

The composite query demands the main query, all queries beside it and one
filter for all filters. The filter goes into a boolean combination that is
there already, unless its should clauses are required: next to a filter they
would become optional, so such a combination is wrapped.

The rescoring chain is left to a builder. The one at hand takes the chain of a profile from
a list of profiles by name. Other builders may ask for the names of both profiles, as often
as they like and also of copies of the draft under other settings; a copy that is asked
leaves the draft itself alone.
-/

namespace SearchCompiler

/-- Adds a filter to a query without changing what the query demands. -/
def Expr.filtered (query filter : Expr) : Expr :=
  match query with
  | .bool clauses =>
      if clauses.should.isEmpty || !clauses.must.isEmpty || !clauses.filter.isEmpty then
        .bool (clauses.add .filter filter)
      else .bool { must := [query], filter := [filter] }
  | _ => .bool { must := [query], filter := [filter] }

/-- A question for the name of a profile, put to a draft or to a copy of it under other
settings. -/
structure NameQuestion where
  kind : ProfileKind
  copy : Option Settings := none

/-- The name that answers a question. -/
def Draft.nameFor (draft : Draft) (question : NameQuestion) : String :=
  match question.copy with
  | none => draft.profileName question.kind
  | some settings => (draft.withSettings settings).profileName question.kind

/-- The draft after a question. The name is fixed in whatever was asked. -/
def Draft.settle (draft : Draft) (question : NameQuestion) : Draft :=
  match question.copy with
  | none => draft.fixProfile question.kind
  | some _ => draft

/-- How a rescoring chain comes about: it is there, or the name of a profile is asked for
and tells how to go on. -/
inductive RescorePlan where
  | done (chain : List Rescore)
  | ask (question : NameQuestion) (next : String → RescorePlan)

/-- Follows a plan. -/
def RescorePlan.follow : RescorePlan → Draft → List Rescore × Draft
  | .done chain, draft => (chain, draft)
  | .ask question next, draft => (next (draft.nameFor question)).follow (draft.settle question)

/-- Builds rescoring chains. A builder may look at everything in a draft but the names of
its profiles, for which it has to ask. -/
structure RescoreBuilder where
  plan : Draft → RescorePlan

/-- The builder that asks for the name of the rescore profile and takes the chain of that
profile; an unknown profile has none. -/
def RescoreProfiles.builder (profiles : RescoreProfiles) : RescoreBuilder where
  plan draft := .ask { kind := .rescore } fun name =>
    match profiles.get? name with
    | none => .done []
    | some profile => .done (profile.chain draft.phraseRescoreQuery draft.scoreFunctions)

instance : Coe RescoreProfiles RescoreBuilder := ⟨RescoreProfiles.builder⟩

namespace Draft

/-- The main query and the queries beside it. -/
def baseQuery (draft : Draft) : Expr :=
  if draft.nonTextQueries.isEmpty then draft.mainQuery.getD .matchAll
  else .bool { must := draft.mainQuery.toList ++ draft.nonTextQueries }

/-- The filter for the chosen namespaces, if there are any. -/
def namespaceFilter (draft : Draft) : Option Expr :=
  draft.namespaces.map fun ids =>
    .terms draft.settings.namespaceField (ids.elements.map fun id => .int id.toInt)

/-- One filter for everything that restricts the results. -/
def unifiedFilter (draft : Draft) : Option Expr :=
  Expr.unify (draft.filters ++ draft.namespaceFilter.toList) draft.notFilters

/-- The composite query. -/
def query (draft : Draft) : Expr :=
  match draft.unifiedFilter with
  | none => draft.baseQuery
  | some filter => draft.baseQuery.filtered filter

/-- What narrows the highlighting: the highlight query, or it and the queries
beside it as alternatives. -/
def narrowing (draft : Draft) : Option Expr :=
  if draft.nonTextHighlightQueries.isEmpty then draft.highlightQuery
  else some (.bool { should := draft.highlightQuery.toList ++ draft.nonTextHighlightQueries })

/-- The highlighting for a kind of results; an empty configuration is none. -/
def highlight (draft : Draft) (highlighter : Highlighter) : Option Highlight :=
  ((highlighter.configure draft.extraHighlightFields).filter (!·.isEmpty)).map fun config =>
    { config, query := draft.narrowing }

/-- The rescoring chain that a builder comes to, and the draft with the names fixed that
it asked for. -/
def rescoring (draft : Draft) (builder : RescoreBuilder) : List Rescore × Draft :=
  (builder.plan draft.unnamed).follow draft

/-- The rescoring chain that a builder comes to. -/
def rescore (draft : Draft) (builder : RescoreBuilder) : List Rescore :=
  (draft.rescoring builder).1

/-- The chain of a profile from a list is that of the profile under the name in force. -/
theorem rescore_builder (draft : Draft) (profiles : RescoreProfiles) :
    draft.rescore profiles =
      match profiles.get? draft.rescoreProfileName with
      | none => []
      | some profile => profile.chain draft.phraseRescoreQuery draft.scoreFunctions := by
  change (RescorePlan.follow (match profiles.get? draft.rescoreProfileName with
    | none => .done []
    | some profile => .done (profile.chain draft.phraseRescoreQuery draft.scoreFunctions))
    draft.fixRescoreProfile).1 = _
  cases profiles.get? draft.rescoreProfileName <;> rfl

/-- The suggester and the text it works on: the search text between the
suggestion prefixes and suffixes. -/
def suggestion (draft : Draft) : Option Json :=
  draft.suggest.map fun suggest =>
    let text := String.join draft.suggestPrefixes ++ draft.searchText.getD ""
      ++ String.join draft.suggestSuffixes
    .object [("suggest", suggest), ("text", .string text)]

/-- The request that a draft amounts to. Sections without content are left
out. -/
def request (draft : Draft) (highlighter : Highlighter) (builder : RescoreBuilder) : Json :=
  let entry (name : String) (value : Option Json) := value.toList.map fun v => (name, v)
  let section? (empty : Bool) (value : Json) := if empty then none else some value
  let chain := draft.rescore builder
  .object <|
    entry "aggs" (section? draft.aggregations.isEmpty (Aggregation.merged draft.aggregations))
      ++ entry "highlight" ((draft.highlight highlighter).map Highlight.toJson)
      ++ [("query", draft.query.toJson)]
      ++ entry "rescore" (section? chain.isEmpty (.array (chain.map Rescore.toJson)))
      ++ entry "suggest" draft.suggestion

end Draft

end SearchCompiler
