import SearchCompiler.Proofs.Draft.Merge
import SearchCompiler.Proofs.Expr.Truth

/-!
Highlighting beside the composite query. The two are put together in different
ways: the composite query demands the main query and every query beside it,
while the highlighting is narrowed to what matches one of the highlight
queries. A build sets both kinds of queries, and to the same, so as long as none
of them is set by hand, whatever is found can be highlighted.
-/

namespace SearchCompiler

/-- Whether a change sets one of the queries that documents are found by or
highlighted with. -/
def Change.setsQuery : Change → Bool
  | .setMainQuery _ | .addNonTextQuery _ | .setHighlightQuery _
  | .addNonTextHighlightQuery _ => true
  | _ => false

namespace Draft

/-- A draft whose queries for highlighting are its queries for results. -/
structure Mirrored (draft : Draft) : Prop where
  main : draft.highlightQuery = draft.mainQuery
  beside : draft.nonTextHighlightQueries = draft.nonTextQueries

section Runs

variable {draft : Draft}

theorem mirrored_fresh (settings : Settings) (profiles : ProfileService) :
    (fresh settings profiles).Mirrored :=
  ⟨rfl, rfl⟩

theorem Mirrored.change (h : draft.Mirrored) {c : Change} (hspares : c.setsQuery = false) :
    (draft.apply c).Mirrored := by
  cases c with
  | setMainQuery | addNonTextQuery | setHighlightQuery | addNonTextHighlightQuery =>
      cases hspares
  | _ => exact ⟨h.main, h.beside⟩

/-- Names of profiles are on neither side. -/
theorem Mirrored.of_unnamed {d e : Draft} (h : d.Mirrored) (heq : e.unnamed = d.unnamed) :
    e.Mirrored where
  main := (congrArg highlightQuery heq).trans (h.main.trans (congrArg mainQuery heq).symm)
  beside := (congrArg nonTextHighlightQueries heq).trans
    (h.beside.trans (congrArg nonTextQueries heq).symm)

/-- A build adds to both sides what it takes from the tree. -/
theorem Mirrored.absorb (h : draft.Mirrored) (query : Query) : (draft.absorb query).Mirrored := by
  let compiled := query.root.compile draft.settings false true
  rw [absorb_eq]
  have hmain : (compiled.1 <|> draft.highlightQuery) = (compiled.1 <|> draft.mainQuery) := by
    rw [h.main]
  have hbeside : draft.nonTextHighlightQueries ++ compiled.2.lifted =
      draft.nonTextQueries ++ compiled.2.lifted := by
    rw [h.beside]
  exact ⟨hmain, hbeside⟩

/-- One step keeps the sides alike, unless it sets a query by hand. -/
theorem Mirrored.run (h : draft.Mirrored) {step : Step}
    (hspares : ∀ c, step = .change c → c.setsQuery = false) : (step.run draft).1.Mirrored := by
  cases step with
  | change c => exact h.change (hspares c rfl)
  | build query logged =>
      rw [run_build]
      split
      · exact h
      · dsimp only
        exact (h.absorb query).of_unnamed (unnamed_absorb draft query logged)
  | rebind settings => exact ⟨h.main, h.beside⟩
  | read what => exact h.of_unnamed (unnamed_leave draft what)

theorem Mirrored.runSteps (h : draft.Mirrored) {steps : List Step}
    (hspares : ∀ c, .change c ∈ steps → c.setsQuery = false) :
    (runSteps draft steps).1.Mirrored := by
  induction steps generalizing draft with
  | nil => exact h
  | cons step rest ih =>
      have hstep : (step.run draft).1.Mirrored :=
        h.run fun c hc => hspares c (hc ▸ List.mem_cons_self)
      exact ih hstep fun c hc => hspares c (List.mem_cons_of_mem step hc)

end Runs

section Narrowing

variable {draft : Draft}

theorem query_of_highlight {highlighter : Highlighter} {shown : Highlight}
    (h : draft.highlight highlighter = some shown) : shown.query = draft.narrowing := by
  obtain ⟨config, _, rfl⟩ := Option.map_eq_some_iff.mp h
  rfl

/-- What narrows the highlighting holds wherever the composite query does. One
of the alternatives is enough for it, and the composite query demands all. -/
theorem Mirrored.holds_narrowing (h : draft.Mirrored) {leaf : Expr → Bool}
    (hfound : draft.query.holds leaf) : ∀ e ∈ draft.narrowing, e.holds leaf := by
  obtain ⟨hmain, hbeside, _⟩ := (holds_query leaf draft).mp hfound
  intro e he
  unfold narrowing at he
  rw [h.main, h.beside] at he
  split at he
  · exact hmain e he
  · next hsome =>
      obtain ⟨first, hfirst⟩ : ∃ first, first ∈ draft.nonTextQueries :=
        List.exists_mem_of_ne_nil _ (by simpa using hsome)
      obtain rfl := Option.some.inj he
      have halternative : first ∈ draft.mainQuery.toList ++ draft.nonTextQueries :=
        List.mem_append_right _ hfirst
      rw [Expr.holds_any]
      exact .inr ⟨first, halternative, hbeside first hfirst⟩

/-- Nothing narrows the highlighting only where nothing is searched for. -/
theorem Mirrored.narrowing_eq_none_iff (h : draft.Mirrored) :
    draft.narrowing = none ↔ draft.mainQuery = none ∧ draft.nonTextQueries = [] := by
  unfold narrowing
  rw [h.main, h.beside]
  split
  · next hnone => simp [List.isEmpty_iff.mp hnone]
  · next hsome => simpa using fun _ => by simpa using hsome

end Narrowing

/-- Highlighting excludes no document that is found. After every run of builds,
moves to other settings, reads and changes of anything but these queries, each
document that matches the composite query matches the highlight query too, and
a highlighting section has no highlight query exactly when the draft has neither
a main query nor a query beside it. -/
theorem highlight_keeps_found (settings : Settings) (profiles : ProfileService)
    (steps : List Step) (hspares : ∀ c, .change c ∈ steps → c.setsQuery = false)
    (leaf : Expr → Bool) :
    let draft := (runSteps (fresh settings profiles) steps).1
    ∀ highlighter shown, draft.highlight highlighter = some shown →
      (∀ e, shown.query = some e → draft.query.holds leaf → e.holds leaf) ∧
      (shown.query = none ↔ draft.mainQuery = none ∧ draft.nonTextQueries = []) := by
  intro draft highlighter shown hshown
  have hmirrored : draft.Mirrored := (mirrored_fresh settings profiles).runSteps hspares
  rw [query_of_highlight hshown]
  refine ⟨?_, hmirrored.narrowing_eq_none_iff⟩
  intro e he hfound
  exact hmirrored.holds_narrowing hfound e he

/-- A title of which the last word may go on. -/
def roseTitle : Query where
  root := .phrasePrefix ⟨0, 10⟩ "red ros"
  text := "\"red ros*\""
  rawText := "\"red ros*\""
  cleanups := []
  warnings := []
  namespaces := .unspecified
  changed := fun h => absurd rfl h

/-- Two words, a title that is refused, a filter, and the title again, which
leaves no text behind. -/
def rosesTwice : List Step :=
  [.build redRose, .rebind { maxLength := 4 }, .build roseTitle, .rebind {},
    .change (.addFilter (.term "category" (.string "gardens"))), .build roseTitle]

/-- The words of the first query and the title of the second are both shown. -/
theorem highlight_keeps_found_rosesTwice :
    let draft := (runSteps (fresh {} (ProfileTable.service {})) rosesTwice).1
    let narrowing : Expr := .bool
      { should := [.allTerms "all" "red rose", .phrasePrefix "title" "red ros"] }
    (∀ c, .change c ∈ rosesTwice → c.setsQuery = false) ∧
      ∃ shown, draft.highlight (.ofFields ["title"] "<b>" "</b>") = some shown ∧
        shown.query = some narrowing ∧ draft.query.holds (fun _ => true) ∧
        narrowing.holds (fun _ => true) := by
  intro draft narrowing
  have hspares : ∀ c, .change c ∈ rosesTwice → c.setsQuery = false := by
    intro c hc
    obtain rfl : c = .addFilter _ := by simpa [rosesTwice] using hc
    rfl
  have hnarrowing : draft.narrowing = some narrowing := rfl
  have hsome : (draft.highlight (.ofFields ["title"] "<b>" "</b>")).isSome := by decide +kernel
  obtain ⟨shown, hshown⟩ := Option.isSome_iff_exists.mp hsome
  have hquery : shown.query = some narrowing := (query_of_highlight hshown).trans hnarrowing
  have hfound : draft.query.holds (fun _ => true) := by decide +kernel
  have hkept := (highlight_keeps_found {} (ProfileTable.service {}) rosesTwice hspares
    (fun _ => true) _ shown hshown).1 narrowing hquery hfound
  exact ⟨hspares, shown, hshown, hquery, hfound, hkept⟩

end Draft

end SearchCompiler
