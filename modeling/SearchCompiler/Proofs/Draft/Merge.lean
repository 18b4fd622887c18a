import SearchCompiler.Proofs.Draft.Features
import SearchCompiler.Proofs.Draft.History

/-!
What a build does to a draft, whatever was in it. Compilation does not look at
the draft, so what a query yields is the same everywhere, and each part of it
goes to one field: lists grow, single values are replaced, the features are
recorded again. A build into a used draft is therefore the used draft with a
build into a fresh one laid over it.

The announcement of a build, where it is recorded, fixes the name of the full-text
profile beside that. It is the name the draft had in force anyway, before the build and
after it.
-/

namespace SearchCompiler

/-- The phrase to rescore with, if there are several words. -/
def Yield.phrase? (settings : Settings) (yield : Yield) : Option Expr :=
  if 1 < yield.words.length then
    some (.phrase settings.allField (joinWords yield.words) settings.phraseSlop)
  else none

/-- A query that was parsed as it was typed, without complaints, and that asks for
no namespaces. -/
def Query.typed (root : Node) (text : String) : Query where
  root
  text
  rawText := text
  cleanups := []
  warnings := []
  namespaces := .unspecified
  changed := fun h => absurd rfl h

/-- The namespaces after a demand. -/
def Namespaces.over (namespaces : Namespaces) (before : Option (SortedSet Int32)) :
    Option (SortedSet Int32) :=
  match namespaces with
  | .all => none
  | .these ids => if ids.isEmpty then before else some ids

namespace Draft

/-- A dirty draft stays dirty, so nothing is left to say about the flag. -/
theorem foldl_apply_of_dirty {draft : Draft} (hdirty : draft.dirty = true)
    (changes : List Change) : changes.foldl apply draft = changes.foldl change draft := by
  induction changes generalizing draft with
  | nil => rfl
  | cons c rest ih =>
      have hkept : (draft.change c).dirty = true := by cases c <;> exact hdirty
      have happly : draft.apply c = draft.change c := by
        rw [apply, hdirty, Bool.true_or, ← hkept]
      rw [List.foldl_cons, List.foldl_cons, happly, ih hkept]

section Effects

variable (draft : Draft)

/-- Changes of one kind, when it is known what they come to one by one. -/
private theorem foldl_change_map {α : Type} {make : α → Change} (put : Draft → List α → Draft)
    (hnil : ∀ d, put d [] = d) (hcons : ∀ d x xs, put d (x :: xs) = put (d.change (make x)) xs)
    (xs : List α) : (xs.map make).foldl change draft = put draft xs := by
  induction xs generalizing draft with
  | nil => exact (hnil draft).symm
  | cons x rest ih => rw [List.map_cons, List.foldl_cons, ih, hcons]

private theorem foldl_addFeature (names : List String) :
    (names.map (Change.addFeature · ordinaryWeight)).foldl change draft =
      { draft with
        featuresUsed := recordAll draft.featuresUsed (names.map (·, ordinaryWeight)) } :=
  foldl_change_map draft (fun d xs => { d with
    featuresUsed := recordAll d.featuresUsed (xs.map (·, ordinaryWeight)) })
    (fun _ => rfl) (fun _ _ _ => rfl) names

private theorem foldl_addFilter (es : List Expr) :
    (es.map Change.addFilter).foldl change draft =
      { draft with filters := draft.filters ++ es } :=
  foldl_change_map draft (fun d xs => { d with filters := d.filters ++ xs })
    (by simp) (by simp [change]) es

private theorem foldl_addNotFilter (es : List Expr) :
    (es.map Change.addNotFilter).foldl change draft =
      { draft with notFilters := draft.notFilters ++ es } :=
  foldl_change_map draft (fun d xs => { d with notFilters := d.notFilters ++ xs })
    (by simp) (by simp [change]) es

private theorem foldl_addNonTextQuery (es : List Expr) :
    (es.map Change.addNonTextQuery).foldl change draft =
      { draft with nonTextQueries := draft.nonTextQueries ++ es } :=
  foldl_change_map draft (fun d xs => { d with nonTextQueries := d.nonTextQueries ++ xs })
    (by simp) (by simp [change]) es

private theorem foldl_addNonTextHighlightQuery (es : List Expr) :
    (es.map Change.addNonTextHighlightQuery).foldl change draft =
      { draft with nonTextHighlightQueries := draft.nonTextHighlightQueries ++ es } :=
  foldl_change_map draft
    (fun d xs => { d with nonTextHighlightQueries := d.nonTextHighlightQueries ++ xs })
    (by simp) (by simp [change]) es

private theorem foldl_addWarning (warnings : List Warning) :
    (warnings.map Change.addWarning).foldl change draft =
      { draft with warnings := draft.warnings ++ warnings } :=
  foldl_change_map draft (fun d xs => { d with warnings := d.warnings ++ xs })
    (by simp) (by simp [change]) warnings

private theorem foldl_namespaces_changes (namespaces : Namespaces) :
    namespaces.changes.foldl change draft =
      { draft with namespaces := namespaces.over draft.namespaces } := by
  cases namespaces with
  | all => rfl
  | these ids =>
      simp only [Namespaces.changes, Namespaces.over]
      split
      · rfl
      · next hids => simp [change, Option.filter, hids]

/-- What the yield of a tree does to a draft. -/
theorem foldl_yield_changes (settings : Settings) (main : Option Expr) (yield : Yield) :
    (yield.changes settings main).foldl change draft =
      { draft with
        featuresUsed := recordAll draft.featuresUsed (yield.features.map (·, ordinaryWeight))
        filters := draft.filters ++ yield.filters
        notFilters := draft.notFilters ++ yield.notFilters
        nonTextQueries := draft.nonTextQueries ++ yield.lifted
        nonTextHighlightQueries := draft.nonTextHighlightQueries ++ yield.lifted
        highlightQuery := main <|> draft.highlightQuery
        mainQuery := main <|> draft.mainQuery
        phraseRescoreQuery := yield.phrase? settings <|> draft.phraseRescoreQuery } := by
  simp only [Yield.changes, List.foldl_append, foldl_addFeature, foldl_addFilter,
    foldl_addNotFilter, foldl_addNonTextQuery, foldl_addNonTextHighlightQuery]
  cases main <;> unfold Yield.phrase? <;> split <;> rfl

end Effects

/-- A build, whatever was in the draft before. -/
theorem absorb_eq (draft : Draft) (query : Query) :
    let (main, yield) := query.root.compile draft.settings false true
    draft.absorb query =
      { draft with
        rawTerm := some query.rawText
        searchText := some query.text
        namespaces := query.namespaces.over draft.namespaces
        warnings := draft.warnings ++ query.warnings
        resultsPossible := draft.resultsPossible && !query.root.isEmpty
        featuresUsed := recordAll draft.featuresUsed (yield.features.map (·, ordinaryWeight))
        filters := draft.filters ++ yield.filters
        notFilters := draft.notFilters ++ yield.notFilters
        nonTextQueries := draft.nonTextQueries ++ yield.lifted
        nonTextHighlightQueries := draft.nonTextHighlightQueries ++ yield.lifted
        highlightQuery := main <|> draft.highlightQuery
        mainQuery := main <|> draft.mainQuery
        phraseRescoreQuery := yield.phrase? draft.settings <|> draft.phraseRescoreQuery
        dirty := true } := by
  simp only
  have hdirty : ((draft.apply (.setRawTerm query.rawText)).apply
      (.setSearchText query.text)).dirty = true := Bool.or_true _
  rw [absorb, Query.changes, Query.changesFor, List.foldl_cons, List.foldl_cons,
    foldl_apply_of_dirty hdirty, List.foldl_append, List.foldl_append, foldl_namespaces_changes,
    foldl_addWarning]
  split
  · next hempty =>
      -- Nothing comes from an empty tree, so all lists grow by nothing.
      obtain ⟨span, hroot⟩ : ∃ span, query.root = .empty span := by
        cases h : query.root <;> simp_all [Node.isEmpty]
      simp [hroot, Node.compile, Node.isEmpty, change, apply, Change.isHarmless, recordAll,
        Yield.phrase?]
  · next hroot =>
      rw [foldl_yield_changes]
      simp [hroot, change, apply, Change.isHarmless]

/-- A build into a fresh draft is all that there is in it. -/
theorem absorb_fresh (settings : Settings) (profiles : ProfileService) (query : Query) :
    let (main, yield) := query.root.compile settings false true
    (fresh settings profiles).absorb query =
      { fresh settings profiles with
        rawTerm := some query.rawText
        searchText := some query.text
        namespaces := query.namespaces.over none
        warnings := query.warnings
        resultsPossible := !query.root.isEmpty
        featuresUsed := recordAll [] (yield.features.map (·, ordinaryWeight))
        filters := yield.filters
        notFilters := yield.notFilters
        nonTextQueries := yield.lifted
        nonTextHighlightQueries := yield.lifted
        highlightQuery := main
        mainQuery := main
        phraseRescoreQuery := yield.phrase? settings
        dirty := true } := by
  have hkept (o : Option Expr) : (o <|> none) = o := by cases o <;> rfl
  rw [absorb_eq]
  simp only [fresh, hkept, List.nil_append, Bool.true_and]

/-- What an accepted build leaves. -/
theorem eq_absorb_of_build {draft result : Draft} {query : Query} {logged : Bool}
    (hbuild : draft.build query logged = .ok result) :
    result = { draft.absorb query with
      fulltextProfile :=
        if logged then some draft.fulltextProfileName else draft.fulltextProfile } := by
  obtain ⟨_, rfl⟩ := build_eq_ok_iff.mp hbuild
  rw [absorb_eq, absorb_eq]
  cases logged <;> rfl

/-- Two plain words. -/
def redRose : Query where
  root := .words ⟨0, 8⟩ "red rose"
  text := "red rose"
  rawText := "red rose"
  cleanups := []
  warnings := []
  namespaces := .unspecified
  changed := fun h => absurd rfl h

end Draft

end SearchCompiler
