import SearchCompiler.Proofs.Draft.History
import SearchCompiler.Proofs.Expr.Truth

/-!
What a draft demands of a document, read off its history. The composite query
is assembled anew at every read, from parts that may be combinations of any
shape; the main statement says that nothing of it is lost or weakened, whatever
was done to the draft and in whatever order: a document matches the query
exactly when it matches the last main query, all queries beside it, all
filters, none of the excluded filters and the last choice of namespaces.
-/

namespace SearchCompiler

namespace Change

def mainQuery? : Change → Option Expr
  | .setMainQuery query => some query
  | _ => none

def nonTextQuery? : Change → Option Expr
  | .addNonTextQuery query => some query
  | _ => none

def filter? : Change → Option Expr
  | .addFilter filter => some filter
  | _ => none

def notFilter? : Change → Option Expr
  | .addNotFilter filter => some filter
  | _ => none

def namespaces? : Change → Option (Option (SortedSet Int32))
  | .setNamespaces ids => some ids
  | _ => none

end Change

private theorem mem_filterMap_iff {changes : List Change} {part : Change → Option Expr}
    {make : Expr → Change} (h : ∀ c e, part c = some e ↔ c = make e) (e : Expr) :
    e ∈ changes.filterMap part ↔ make e ∈ changes := by
  simp [List.mem_filterMap, h]

theorem mem_nonTextQueries {changes : List Change} (e : Expr) :
    e ∈ changes.filterMap Change.nonTextQuery? ↔ .addNonTextQuery e ∈ changes :=
  mem_filterMap_iff (fun c _ => by cases c <;> simp [Change.nonTextQuery?]) e

theorem mem_filters {changes : List Change} (e : Expr) :
    e ∈ changes.filterMap Change.filter? ↔ .addFilter e ∈ changes :=
  mem_filterMap_iff (fun c _ => by cases c <;> simp [Change.filter?]) e

theorem mem_notFilters {changes : List Change} (e : Expr) :
    e ∈ changes.filterMap Change.notFilter? ↔ .addNotFilter e ∈ changes :=
  mem_filterMap_iff (fun c _ => by cases c <;> simp [Change.notFilter?]) e

namespace Draft

section Fresh

variable (settings : Settings) (profiles : ProfileService) (changes : List Change)

theorem mainQuery_foldl :
    (changes.foldl apply (fresh settings profiles)).mainQuery =
      (changes.filterMap Change.mainQuery?).getLast? :=
  (foldl_latest_or mainQuery Change.mainQuery? (fun d c => by cases c <;> rfl) changes
    (fresh settings profiles)).trans Option.or_none

theorem nonTextQueries_foldl :
    (changes.foldl apply (fresh settings profiles)).nonTextQueries =
      changes.filterMap Change.nonTextQuery? :=
  foldl_gathers nonTextQueries Change.nonTextQuery?
    (fun d c => by cases c <;> simp [apply, change, Change.nonTextQuery?]) changes _

theorem filters_foldl :
    (changes.foldl apply (fresh settings profiles)).filters = changes.filterMap Change.filter? :=
  foldl_gathers filters Change.filter?
    (fun d c => by cases c <;> simp [apply, change, Change.filter?]) changes _

theorem notFilters_foldl :
    (changes.foldl apply (fresh settings profiles)).notFilters =
      changes.filterMap Change.notFilter? :=
  foldl_gathers notFilters Change.notFilter?
    (fun d c => by cases c <;> simp [apply, change, Change.notFilter?]) changes _

theorem namespaces_foldl :
    (changes.foldl apply (fresh settings profiles)).namespaces =
      (changes.filterMap Change.namespaces?).getLast?.join.filter (!·.isEmpty) := by
  have hset (d : Draft) (c : Change) : (d.apply c).namespaces =
      (c.namespaces?.map (·.filter (!·.isEmpty))).getD d.namespaces := by
    cases c <;> rfl
  rw [foldl_latest namespaces _ hset, ← List.map_filterMap, List.getLast?_map]
  cases (changes.filterMap Change.namespaces?).getLast? <;> rfl

end Fresh

/-- What is demanded of the namespaces when the last choice of them is known.
No choice and the choice of none demand nothing. -/
theorem holds_namespaceFilter (leaf : Expr → Bool) (draft : Draft)
    (choice : Option (Option (SortedSet Int32)))
    (h : draft.namespaces = choice.join.filter (!·.isEmpty)) :
    (∀ e ∈ draft.namespaceFilter, e.holds leaf) ↔
      ∀ ids, choice = some (some ids) → ids.isEmpty = false →
        (Expr.terms draft.settings.namespaceField
          (ids.elements.map fun id => .int id.toInt)).holds leaf := by
  rw [namespaceFilter, h]
  match choice with
  | none => simp
  | some none => simp
  | some (some ids) => cases hempty : ids.isEmpty <;> simp [Option.filter, hempty]

/-- A document matches the composite query of a draft exactly when it matches
the last main query that was set, every query beside it and every filter that
was added, none of the excluded filters that were added, and, when the last
choice of namespaces was a set with elements, these namespaces. It does so
after every run of changes, builds, moves to other settings and reads. -/
theorem holds_query_iff_history (settings : Settings) (profiles : ProfileService)
    (steps : List Step) (leaf : Expr → Bool) :
    let draft := (runSteps (fresh settings profiles) steps).1
    let changes := history settings steps
    draft.query.holds leaf ↔
      (∀ e ∈ (changes.filterMap Change.mainQuery?).getLast?, e.holds leaf) ∧
      (∀ e, .addNonTextQuery e ∈ changes → e.holds leaf) ∧
      (∀ e, .addFilter e ∈ changes → e.holds leaf) ∧
      (∀ e, .addNotFilter e ∈ changes → ¬ e.holds leaf) ∧
      ∀ ids, (changes.filterMap Change.namespaces?).getLast? = some (some ids) →
        ids.isEmpty = false →
        (Expr.terms draft.settings.namespaceField
          (ids.elements.map fun id => .int id.toInt)).holds leaf := by
  intro draft changes
  have hdraft : draft.unnamed = _ := unnamed_runSteps (fresh settings profiles) steps
  have hmain : draft.mainQuery = _ :=
    (congrArg mainQuery hdraft).trans (mainQuery_foldl settings profiles changes)
  have hbeside : draft.nonTextQueries = _ :=
    (congrArg nonTextQueries hdraft).trans (nonTextQueries_foldl settings profiles changes)
  have hfilters : draft.filters = _ :=
    (congrArg filters hdraft).trans (filters_foldl settings profiles changes)
  have hnot : draft.notFilters = _ :=
    (congrArg notFilters hdraft).trans (notFilters_foldl settings profiles changes)
  have hspaces : draft.namespaces = _ :=
    (congrArg namespaces hdraft).trans (namespaces_foldl settings profiles changes)
  rw [holds_query, holds_namespaceFilter leaf draft _ hspaces, hmain, hbeside, hfilters, hnot]
  simp only [mem_nonTextQueries, mem_filters, mem_notFilters]

end Draft

end SearchCompiler
