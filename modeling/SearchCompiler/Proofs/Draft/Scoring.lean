import Mathlib.Algebra.GroupWithZero.Nat
import SearchCompiler.Proofs.Expr.Truth

/-!
Scores of composite queries. The filter of a draft is put into the query in one of
two ways, into a combination that is there or beside the query in a new one, and it
is a combination itself. In neither way does it count: only must clauses and matching
should clauses do, and what was among these stays there. So what restricts the results
decides which documents are found and leaves their order as it is.
-/

namespace SearchCompiler

variable (leaf : Expr → Bool) (own : Expr → Nat)

theorem scoreAll_eq_sum (es : List Expr) :
    scoreAll leaf own es = (es.map (·.score leaf own)).sum := by
  induction es with
  | nil => rfl
  | cons e rest ih => rw [scoreAll, ih, List.map_cons, List.sum_cons]

theorem scoreMatching_eq_sum (es : List Expr) :
    scoreMatching leaf own es = ((es.filter (·.holds leaf)).map (·.score leaf own)).sum := by
  induction es with
  | nil => rfl
  | cons e rest ih =>
      rw [scoreMatching, ih, List.filter_cons]
      cases e.holds leaf with
      | true => rw [if_pos rfl, if_pos rfl, List.map_cons, List.sum_cons]
      | false => rw [if_neg Bool.false_ne_true, if_neg Bool.false_ne_true, Nat.zero_add]

namespace Expr

/-- What adds to the score of a combination. -/
theorem score_bool (clauses : Clauses Expr) :
    (Expr.bool clauses).score leaf own =
      (clauses.must.map (·.score leaf own)).sum +
        ((clauses.should.filter (·.holds leaf)).map (·.score leaf own)).sum := by
  obtain ⟨must, should, mustNot, filter⟩ := clauses
  rw [Expr.score, scoreAll_eq_sum, scoreMatching_eq_sum]

/-- A filter adds nothing, wherever it is put, and keeps nothing from being added. -/
theorem score_filtered (query filter : Expr) :
    (query.filtered filter).score leaf own = query.score leaf own := by
  have wrapped : (Expr.bool { must := [query], filter := [filter] }).score leaf own =
      query.score leaf own := by
    rw [score_bool, List.map_singleton, List.sum_singleton]
    rfl
  unfold Expr.filtered
  split
  · split
    · rw [score_bool, score_bool]
      rfl
    · exact wrapped
  · exact wrapped

end Expr

namespace Draft

/-- The draft with nothing in it that restricts the results. -/
def unrestricted (draft : Draft) : Draft :=
  { draft with filters := [], notFilters := [], namespaces := none }

/-- The composite query scores as the main query and the queries beside it do. -/
theorem score_query (draft : Draft) :
    draft.query.score leaf own = draft.baseQuery.score leaf own := by
  unfold query
  cases draft.unifiedFilter with
  | none => rfl
  | some filter => exact Expr.score_filtered leaf own draft.baseQuery filter

/-- Filters restrict but never score. A document is found exactly if it is found without
the filters, the excluded filters and the namespaces, and satisfies each of these;
and its score is the one that it has without them. -/
theorem filters_never_score (draft : Draft) :
    (draft.query.holds leaf ↔
      draft.unrestricted.query.holds leaf ∧
      (∀ e ∈ draft.filters, e.holds leaf) ∧
      (∀ e ∈ draft.notFilters, ¬ e.holds leaf) ∧
      ∀ e ∈ draft.namespaceFilter, e.holds leaf) ∧
    draft.query.score leaf own = draft.unrestricted.query.score leaf own := by
  have hquery : draft.unrestricted.query = draft.baseQuery := rfl
  rw [hquery]
  refine ⟨?_, score_query leaf own draft⟩
  rw [holds_query, holds_baseQuery, and_assoc]

/-- An alternative of two words stays required beside a filter and scores for each word
that is found. -/
example :
    let word (text : String) : Expr := .allTerms "all" text
    let draft : Draft := { fresh {} (ProfileTable.service {}) with
      mainQuery := some ((word "red").or (word "rose"))
      filters := [.term "kind" (.string "plant")] }
    (draft.query.score (fun _ => true) fun _ => 2) = 4 := by
  rfl

end Draft

end SearchCompiler
