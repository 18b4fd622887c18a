import SearchCompiler.Draft.Basic
import SearchCompiler.Node.Compile

/-!
Putting a parsed query into a draft. A query whose text is too long is
refused, and the draft is then left alone. A draft may have been used before:
lists grow by what the query yields, and what the query does not speak about
stays as it is.

A build is announced to whoever records such events, with the name of its
full-text profile. Where nobody does, the name is not asked for.
-/

namespace SearchCompiler

/-- The change that meets a demand for namespaces; a text that asks for none
in particular makes none. -/
def Namespaces.changes : Namespaces → List Change
  | .all => [.setNamespaces none]
  | .these ids => if ids.isEmpty then [] else [.setNamespaces (some ids)]

/-- The changes that take up what the compilation of a tree came to. The plain
words, if there are several, make the phrase to rescore with. -/
def Yield.changes (settings : Settings) (main : Option Expr) (yield : Yield) : List Change :=
  yield.features.map (Change.addFeature · ordinaryWeight)
    ++ yield.filters.map Change.addFilter
    ++ yield.notFilters.map Change.addNotFilter
    ++ yield.lifted.map Change.addNonTextQuery
    ++ yield.lifted.map Change.addNonTextHighlightQuery
    ++ main.toList.map Change.setHighlightQuery
    ++ main.toList.map Change.setMainQuery
    ++ (if 1 < yield.words.length then
        [Change.setPhraseRescoreQuery
          (.phrase settings.allField (joinWords yield.words) settings.phraseSlop)]
      else [])

/-- The changes that put a query into a draft, given what its tree came to. -/
def Query.changesFor (settings : Settings) (query : Query) (compiled : Option Expr × Yield) :
    List Change :=
  .setRawTerm query.rawText :: .setSearchText query.text ::
    (query.namespaces.changes ++ query.warnings.map Change.addWarning
      ++ if query.root.isEmpty then [.setResultsPossible false]
        else compiled.2.changes settings compiled.1)

/-- The changes that put a query into a draft. -/
def Query.changes (settings : Settings) (query : Query) : List Change :=
  query.changesFor settings (query.root.compile settings false true)

namespace Draft

/-- Puts a query into a draft, whatever its length. -/
def absorb (draft : Draft) (query : Query) : Draft :=
  (query.changes draft.settings).foldl apply draft

/-- The draft after a build was announced. If the announcement is recorded, the
name of the full-text profile is read for it. -/
def announced (draft : Draft) (logged : Bool) : Draft :=
  if logged then draft.fixFulltextProfile else draft

/-- Puts a query into a draft. The length that counts is that of the text as
it was typed, in characters. -/
def build (draft : Draft) (query : Query) (logged : Bool) : Except QueryError Draft :=
  let length := query.rawText.length
  let limit := draft.settings.maxLength.toNat
  if limit < length then .error (.tooLong length limit)
  else .ok ((draft.announced logged).absorb query)

end Draft

end SearchCompiler
