import SearchCompiler.Proofs.Node.NormalForm

/-!
Expressions whose scoring functions come apart again after they were merged into
one object: a body has entries of its own, and none under the names that filter and
weight are put under. The rule is about every function at any depth, so it goes
through combinations and into the filters of the functions themselves.
-/

namespace SearchCompiler

namespace Expr

/-- Induction over expressions, in which the hypothesis for a combination speaks of
its clauses and the one for a scored query of the filters of its functions. -/
@[elab_as_elim]
theorem induction {motive : Expr → Prop} (matchAll : motive .matchAll)
    (matchNone : motive .matchNone)
    (matchText : ∀ field text operator, motive (.matchText field text operator))
    (phrase : ∀ field text slop, motive (.phrase field text slop))
    (phrasePrefix : ∀ field text, motive (.phrasePrefix field text))
    (termPrefix : ∀ field value, motive (.termPrefix field value))
    (fuzzy : ∀ field value distance, motive (.fuzzy field value distance))
    (wildcard : ∀ field value, motive (.wildcard field value))
    (term : ∀ field value, motive (.term field value))
    (terms : ∀ field values, motive (.terms field values))
    (bool : ∀ must should mustNot filter, (∀ e ∈ must, motive e) → (∀ e ∈ should, motive e) →
      (∀ e ∈ mustNot, motive e) → (∀ e ∈ filter, motive e) →
        motive (.bool ⟨must, should, mustNot, filter⟩))
    (functionScore : ∀ query functions scoreMode boostMode, motive query →
      (∀ f ∈ functions, ∀ e ∈ f.filter, motive e) →
        motive (.functionScore query functions scoreMode boostMode)) (e : Expr) : motive e := by
  refine @Expr.rec motive (fun clauses => motive (.bool clauses))
    (fun functions => ∀ f ∈ functions, ∀ e ∈ f.filter, motive e) (fun es => ∀ e ∈ es, motive e)
    (fun f => ∀ e ∈ f.filter, motive e) (fun filter => ∀ e ∈ filter, motive e)
    matchAll matchNone matchText phrase phrasePrefix termPrefix fuzzy wildcard term terms
    (fun _ h => h) functionScore bool ?_ ?_ ?_ ?_ ?_ ?_ ?_ e
  · intro f hf
    cases hf
  · intro head rest hhead hrest
    exact List.forall_mem_cons.mpr ⟨hhead, hrest⟩
  · intro e he
    cases he
  · intro head rest hhead hrest
    exact List.forall_mem_cons.mpr ⟨hhead, hrest⟩
  · intro filter weight body hfilter
    exact hfilter
  · intro e he
    cases he
  · intro part hpart e he
    exact Option.some.inj he ▸ hpart

end Expr

/-- A scoring function whose body, if it has one, is not empty and leaves the names
of filter and weight alone. -/
def ScoreFunction.Separable {α : Type} (f : ScoreFunction α) : Prop :=
  ∀ body ∈ f.body, body.isEmpty = false ∧ body.get? "filter" = none ∧ body.get? "weight" = none

namespace Expr

/-- An expression all of whose scoring functions are separable. -/
def Separable (e : Expr) : Prop :=
  ∀ query functions scoreMode boostMode,
    e.Contains (.functionScore query functions scoreMode boostMode) →
      ∀ f ∈ functions, f.Separable

theorem separable_bool {must should mustNot filter : List Expr} :
    (Expr.bool ⟨must, should, mustNot, filter⟩).Separable ↔
      (∀ e ∈ must, e.Separable) ∧ (∀ e ∈ should, e.Separable) ∧
        (∀ e ∈ mustNot, e.Separable) ∧ ∀ e ∈ filter, e.Separable := by
  have hparts : (Expr.bool ⟨must, should, mustNot, filter⟩).Separable ↔
      ∀ e ∈ Clauses.parts ⟨must, should, mustNot, filter⟩, e.Separable := by
    constructor
    · intro h e he query functions scoreMode boostMode hcontains
      exact h _ _ _ _ (.clause he hcontains)
    · intro h query functions scoreMode boostMode hcontains
      cases hcontains with
      | clause hpart hcontains => exact h _ hpart _ _ _ _ hcontains
  rw [hparts, Clauses.parts, List.forall_mem_append, List.forall_mem_append,
    List.forall_mem_append, and_assoc, and_assoc]

theorem separable_functionScore {query : Expr} {functions : List (ScoreFunction Expr)}
    {scoreMode boostMode : String} :
    (Expr.functionScore query functions scoreMode boostMode).Separable ↔
      query.Separable ∧ ∀ f ∈ functions, f.Separable ∧ ∀ e ∈ f.filter, e.Separable := by
  constructor
  · intro h
    refine ⟨?_, fun f hf => ⟨h _ _ _ _ (.self _) f hf, ?_⟩⟩
    · intro inner others mode boost hcontains
      exact h _ _ _ _ (.scored hcontains)
    · intro e he inner others mode boost hcontains
      exact h _ _ _ _ (.weighed hf he hcontains)
  · rintro ⟨hquery, hfunctions⟩ inner others mode boost hcontains
    cases hcontains with
    | self => exact fun f hf => (hfunctions f hf).1
    | scored hcontains => exact hquery _ _ _ _ hcontains
    | weighed hf he hcontains => exact (hfunctions _ hf).2 _ he _ _ _ _ hcontains

end Expr

end SearchCompiler
