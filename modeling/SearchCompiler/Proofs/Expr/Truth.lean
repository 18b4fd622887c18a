import SearchCompiler.Draft.Assembly
import SearchCompiler.Expr.Reading

/-!
Truth of composite expressions, said clause by clause. Whoever builds a
combination need not know how its rule is computed: what the rule asks of the
clauses is one statement for combinations in general, and one for each way in
which the library puts expressions together.
-/

namespace SearchCompiler

variable (leaf : Expr → Bool)

theorem holdsList_eq_map (es : List Expr) : holdsList leaf es = es.map (·.holds leaf) := by
  induction es with
  | nil => rfl
  | cons e rest ih => rw [holdsList, ih, List.map_cons]

namespace Expr

/-- What a combination asks of its clauses. Its should clauses are required
only when nothing else is. -/
theorem holds_bool (clauses : Clauses Expr) :
    (Expr.bool clauses).holds leaf ↔
      (∀ e ∈ clauses.must, e.holds leaf) ∧
      (∀ e ∈ clauses.filter, e.holds leaf) ∧
      (∀ e ∈ clauses.mustNot, ¬ e.holds leaf) ∧
      (clauses.should = [] ∨ clauses.must ≠ [] ∨ clauses.filter ≠ [] ∨
        ∃ e ∈ clauses.should, e.holds leaf) := by
  obtain ⟨must, should, mustNot, filter⟩ := clauses
  simp only [Expr.holds, Clauses.holds, holdsList_eq_map, Bool.and_eq_true, Bool.or_eq_true,
    List.all_map, List.any_map, List.all_eq_true, List.any_eq_true, List.isEmpty_iff,
    Bool.not_eq_true', List.isEmpty_eq_false_iff, Function.comp_apply, id_eq,
    List.map_eq_nil_iff, ne_eq, and_assoc, or_assoc, Bool.not_eq_true]

/-- A combination of must clauses alone. -/
theorem holds_all (es : List Expr) :
    (Expr.bool { must := es }).holds leaf ↔ ∀ e ∈ es, e.holds leaf := by
  rw [holds_bool]
  simp

/-- A combination of should clauses alone. -/
theorem holds_any (es : List Expr) :
    (Expr.bool { should := es }).holds leaf ↔ es = [] ∨ ∃ e ∈ es, e.holds leaf := by
  rw [holds_bool]
  simp

theorem holds_not (e : Expr) : e.not.holds leaf ↔ ¬ e.holds leaf := by
  rw [Expr.not, holds_bool]
  simp

/-- One filter says what all of the filters say. -/
theorem holds_unify (required excluded : List Expr) :
    (∀ e ∈ Expr.unify required excluded, e.holds leaf) ↔
      (∀ e ∈ required, e.holds leaf) ∧ ∀ e ∈ excluded, ¬ e.holds leaf := by
  unfold Expr.unify
  split
  · simp
  · simp
  · simp [holds_bool]

/-- A filter is demanded beside the query, wherever it is put. It may join a
combination only when that has no should clauses or has clauses that make them
optional: the filter would make required ones optional. -/
theorem holds_filtered (query filter : Expr) :
    (query.filtered filter).holds leaf ↔ query.holds leaf ∧ filter.holds leaf := by
  have wrapped : (Expr.bool { must := [query], filter := [filter] }).holds leaf ↔
      query.holds leaf ∧ filter.holds leaf := by
    rw [holds_bool]
    simp
  unfold Expr.filtered
  split
  · next clauses =>
      split
      · next optional =>
          have hopt : clauses.should = [] ∨ clauses.must ≠ [] ∨ clauses.filter ≠ [] := by
            simpa [or_assoc] using optional
          simp only [holds_bool, Clauses.add, List.forall_mem_append, List.forall_mem_singleton]
          constructor
          · rintro ⟨hmust, ⟨hold, hnew⟩, hnot, _⟩
            refine ⟨⟨hmust, hold, hnot, ?_⟩, hnew⟩
            exact hopt.imp id (·.imp id .inl)
          · rintro ⟨⟨hmust, hold, hnot, _⟩, hnew⟩
            exact ⟨hmust, ⟨hold, hnew⟩, hnot, .inr (.inr (.inl (by simp)))⟩
      · exact wrapped
  · exact wrapped

end Expr

namespace Draft

theorem holds_baseQuery (draft : Draft) :
    draft.baseQuery.holds leaf ↔
      (∀ e ∈ draft.mainQuery, e.holds leaf) ∧
      ∀ e ∈ draft.nonTextQueries, e.holds leaf := by
  unfold baseQuery
  split
  · next hempty =>
      rw [List.isEmpty_iff.mp hempty]
      cases draft.mainQuery <;> simp [Expr.holds]
  · rw [Expr.holds_all, List.forall_mem_append]
    simp only [Option.mem_toList, Option.mem_def]

/-- The composite query demands each part of the draft once. -/
theorem holds_query (draft : Draft) :
    draft.query.holds leaf ↔
      (∀ e ∈ draft.mainQuery, e.holds leaf) ∧
      (∀ e ∈ draft.nonTextQueries, e.holds leaf) ∧
      (∀ e ∈ draft.filters, e.holds leaf) ∧
      (∀ e ∈ draft.notFilters, ¬ e.holds leaf) ∧
      ∀ e ∈ draft.namespaceFilter, e.holds leaf := by
  have hfilter := Expr.holds_unify leaf (draft.filters ++ draft.namespaceFilter.toList)
    draft.notFilters
  have hquery : draft.query.holds leaf ↔
      draft.baseQuery.holds leaf ∧ ∀ e ∈ draft.unifiedFilter, e.holds leaf := by
    unfold query
    cases draft.unifiedFilter with
    | none => simp
    | some filter => simp [Expr.holds_filtered]
  rw [hquery, holds_baseQuery, unifiedFilter, hfilter, List.forall_mem_append]
  simp only [Option.mem_toList, and_assoc]
  exact ⟨fun ⟨hmain, hbeside, hfilters, hspace, hnot⟩ => ⟨hmain, hbeside, hfilters, hnot, hspace⟩,
    fun ⟨hmain, hbeside, hfilters, hnot, hspace⟩ => ⟨hmain, hbeside, hfilters, hspace, hnot⟩⟩

end Draft

end SearchCompiler
