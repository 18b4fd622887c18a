import SearchCompiler.Aggregation
import SearchCompiler.Profile
import SearchCompiler.Query

/-!
A search request under construction. A draft gathers what one request needs,
change by change; the request is assembled from it at any time. A draft is
dirty after the first change that can affect which results are found.
-/

namespace SearchCompiler

structure Draft where
  settings : Settings
  profiles : ProfileService
  mainQuery : Option Expr := none
  /-- Queries beside the main one that have to match too. -/
  nonTextQueries : List Expr := []
  filters : List Expr := []
  notFilters : List Expr := []
  /-- Without namespaces, all of them are searched. -/
  namespaces : Option (SortedSet Int32) := none
  highlightQuery : Option Expr := none
  nonTextHighlightQueries : List Expr := []
  extraHighlightFields : Table Json := .empty
  phraseRescoreQuery : Option Expr := none
  scoreFunctions : List (ScoreFunction Expr) := []
  suggest : Option Json := none
  suggestPrefixes : List String := []
  suggestSuffixes : List String := []
  aggregations : List Aggregation := []
  /-- The features used and their weights, in the order of first use. -/
  featuresUsed : List (String × UInt64) := []
  /-- In seconds; zero turns caching off. -/
  cacheTtl : UInt64 := 0
  resultsPossible : Bool := true
  localOnly : Bool := false
  searchText : Option String := none
  rawTerm : Option String := none
  warnings : List Warning := []
  /-- The name set for the rescore profile or chosen when it was first read. -/
  rescoreProfile : Option String := none
  /-- The same for the full-text profile. -/
  fulltextProfile : Option String := none
  dirty : Bool := false

/-- The weight of ordinary features. -/
def ordinaryWeight : UInt64 := 10

/-- Records the use of a feature. Used again, it keeps its place and takes the
new weight. -/
def recordFeature (name : String) (weight : UInt64) :
    List (String × UInt64) → List (String × UInt64)
  | [] => [(name, weight)]
  | (other, old) :: rest =>
      if other = name then (name, weight) :: rest
      else (other, old) :: recordFeature name weight rest

/-- The heaviest entry, of several the first. -/
def heaviest : List (String × UInt64) → Option (String × UInt64)
  | [] => none
  | entry :: rest =>
      some (rest.foldl (fun best next => if best.2 < next.2 then next else best) entry)

/-- A change of one part of a draft. -/
inductive Change where
  | addFilter (filter : Expr)
  | addNotFilter (filter : Expr)
  | setMainQuery (query : Expr)
  | addNonTextQuery (query : Expr)
  | setNamespaces (ids : Option (SortedSet Int32))
  | setHighlightQuery (query : Expr)
  | addNonTextHighlightQuery (query : Expr)
  | addHighlightField (field : String) (options : Json)
  | setPhraseRescoreQuery (query : Expr)
  | addScoreFunction (function : ScoreFunction Expr)
  | setSuggest (suggest : Json)
  | addSuggestPrefix (text : String)
  | addSuggestSuffix (text : String)
  | addAggregation (aggregation : Aggregation)
  | addFeature (name : String) (weight : UInt64)
  | setCacheTtl (seconds : UInt64)
  | setResultsPossible (possible : Bool)
  | setLocalOnly (only : Bool)
  | setSearchText (text : String)
  | setRawTerm (term : String)
  | addWarning (warning : Warning)
  | setRescoreProfile (name : String)
  | setFulltextProfile (name : String)

/-- Whether a change leaves a draft as clean as it was. -/
def Change.isHarmless : Change → Bool
  | .addSuggestPrefix _ | .setRawTerm _ | .addWarning _ => true
  | _ => false

namespace Draft

/-- A draft that nothing was put into yet. -/
def fresh (settings : Settings) (profiles : ProfileService) : Draft :=
  { settings, profiles }

/-- The draft with one part changed, all else being equal. -/
def change (draft : Draft) : Change → Draft
  | .addFilter filter => { draft with filters := draft.filters ++ [filter] }
  | .addNotFilter filter => { draft with notFilters := draft.notFilters ++ [filter] }
  | .setMainQuery query => { draft with mainQuery := some query }
  | .addNonTextQuery query => { draft with nonTextQueries := draft.nonTextQueries ++ [query] }
  | .setNamespaces ids => { draft with namespaces := ids.filter (!·.isEmpty) }
  | .setHighlightQuery query => { draft with highlightQuery := some query }
  | .addNonTextHighlightQuery query =>
      { draft with nonTextHighlightQueries := draft.nonTextHighlightQueries ++ [query] }
  | .addHighlightField field options =>
      { draft with extraHighlightFields := draft.extraHighlightFields.insert field options }
  | .setPhraseRescoreQuery query => { draft with phraseRescoreQuery := some query }
  | .addScoreFunction function =>
      { draft with scoreFunctions := draft.scoreFunctions ++ [function] }
  | .setSuggest suggest => { draft with suggest := some suggest }
  | .addSuggestPrefix text => { draft with suggestPrefixes := draft.suggestPrefixes ++ [text] }
  | .addSuggestSuffix text => { draft with suggestSuffixes := draft.suggestSuffixes ++ [text] }
  | .addAggregation aggregation =>
      { draft with aggregations := draft.aggregations ++ [aggregation] }
  | .addFeature name weight =>
      { draft with featuresUsed := recordFeature name weight draft.featuresUsed }
  | .setCacheTtl seconds => { draft with cacheTtl := seconds }
  | .setResultsPossible possible => { draft with resultsPossible := possible }
  | .setLocalOnly only => { draft with localOnly := only }
  | .setSearchText text => { draft with searchText := some text }
  | .setRawTerm term => { draft with rawTerm := some term }
  | .addWarning warning => { draft with warnings := draft.warnings ++ [warning] }
  | .setRescoreProfile name => { draft with rescoreProfile := some name }
  | .setFulltextProfile name => { draft with fulltextProfile := some name }

/-- Makes a change, and the draft dirty unless the change is harmless. -/
def apply (draft : Draft) (c : Change) : Draft :=
  { draft.change c with dirty := draft.dirty || !c.isHarmless }

/-- The same draft under other settings. Profile names that were chosen
already stay chosen. -/
def withSettings (draft : Draft) (settings : Settings) : Draft :=
  { draft with settings }

def usesFeature (draft : Draft) (name : String) : Bool :=
  draft.featuresUsed.any (·.1 == name)

/-- The heaviest feature used. -/
def searchType (draft : Draft) : String :=
  ((heaviest draft.featuresUsed).map (·.1)).getD "full_text"

/-- The name that the service chooses under the settings. -/
def chosenProfile (draft : Draft) (kind : ProfileKind) : String :=
  draft.profiles.choose kind draft.settings.profileContext draft.settings.profileParams

/-- The name of the rescore profile: the one that is set or was read before,
or else the choice of the service. -/
def rescoreProfileName (draft : Draft) : String :=
  draft.rescoreProfile.getD (draft.chosenProfile .rescore)

/-- The draft after its rescore profile was read. -/
def fixRescoreProfile (draft : Draft) : Draft :=
  { draft with rescoreProfile := some draft.rescoreProfileName }

def fulltextProfileName (draft : Draft) : String :=
  draft.fulltextProfile.getD (draft.chosenProfile .fulltext)

def fixFulltextProfile (draft : Draft) : Draft :=
  { draft with fulltextProfile := some draft.fulltextProfileName }

/-- The name of the profile of a kind. -/
def profileName (draft : Draft) : ProfileKind → String
  | .rescore => draft.rescoreProfileName
  | .fulltext => draft.fulltextProfileName

/-- The draft after the name of its profile of a kind was read. -/
def fixProfile (draft : Draft) : ProfileKind → Draft
  | .rescore => draft.fixRescoreProfile
  | .fulltext => draft.fixFulltextProfile

/-- The draft without the names of its profiles. -/
def unnamed (draft : Draft) : Draft :=
  { draft with rescoreProfile := none, fulltextProfile := none }

end Draft

end SearchCompiler
