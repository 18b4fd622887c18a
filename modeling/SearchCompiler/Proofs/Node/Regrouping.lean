import SearchCompiler.Proofs.Node.Compilation

/-!
Groupings that make no difference. A tree may hold combinations of a single
required clause and clauses with nothing in them, both of which nobody typed: a
parser that is generous with brackets writes them, another one does not. The
compilation does not see them, and neither does a visitor that looks only at
the leaves, at negations and at the operators that were typed.
-/

namespace SearchCompiler

/-- The second tree is the first with a grouping or an empty clause put in at
one place. -/
inductive Regroups : Node → Node → Prop
  /-- A node becomes the only clause of a combination, and is required. -/
  | group (span : Span) (node : Node) : Regroups node (.boolean span [⟨.must, false, node⟩])
  /-- A clause with nothing in it joins a combination. -/
  | pad {occur : Occur} (hoccur : occur ≠ .mustNot) (span inner : Span)
      (before after : List (Clause Node)) :
      Regroups (.boolean span (before ++ after))
        (.boolean span (before ++ ⟨occur, false, .empty inner⟩ :: after))
  /-- Either may happen further down, in a clause. -/
  | clause {node other : Node} (span : Span) (occur : Occur) (explicit : Bool)
      (before after : List (Clause Node)) : Regroups node other →
      Regroups (.boolean span (before ++ ⟨occur, explicit, node⟩ :: after))
        (.boolean span (before ++ ⟨occur, explicit, other⟩ :: after))
  /-- Or under a negation. -/
  | negated {child other : Node} (span : Span) (operator : String) : Regroups child other →
      Regroups (.negated span operator child) (.negated span operator other)

/-- Nothing can be put into an empty tree but a grouping around it. -/
theorem Regroups.not_isEmpty {node other : Node} (h : Regroups node other) :
    other.isEmpty = false := by
  cases h <;> rfl

namespace Yield

variable (a b c : Yield)

theorem append_empty : a ++ ({} : Yield) = a := by
  change Yield.mk _ _ _ _ _ = _
  simp only [List.append_nil]

theorem append_assoc : a ++ b ++ c = a ++ (b ++ c) := by
  change Yield.mk _ _ _ _ _ = Yield.mk _ _ _ _ _
  simp only [Yield.mk.injEq]
  exact ⟨List.append_assoc .., List.append_assoc .., List.append_assoc .., List.append_assoc ..,
    List.append_assoc ..⟩

end Yield

section Clauses

variable (settings : Settings) (negated required : Bool)

theorem compileClauses_cons (c : Clause Node) (rest : List (Clause Node)) :
    compileClauses settings negated required (c :: rest) =
      ((c.compile settings negated required).1.toList.map (c.occur, ·) ++
          (compileClauses settings negated required rest).1,
        (c.compile settings negated required).2 ++
          (compileClauses settings negated required rest).2) := rfl

theorem compileClauses_append (before after : List (Clause Node)) :
    compileClauses settings negated required (before ++ after) =
      ((compileClauses settings negated required before).1 ++
          (compileClauses settings negated required after).1,
        (compileClauses settings negated required before).2 ++
          (compileClauses settings negated required after).2) := by
  induction before with
  | nil => rfl
  | cons c rest ih =>
      rw [List.cons_append, compileClauses_cons, compileClauses_cons, ih, List.append_assoc,
        Yield.append_assoc]

theorem walkClauses_append {σ : Type} (visitor : Visitor σ) (before after : List (Clause Node))
    (s : σ) :
    walkClauses visitor (before ++ after) s =
      walkClauses visitor after (walkClauses visitor before s) := by
  induction before generalizing s with
  | nil => rfl
  | cons c rest ih => exact ih _

end Clauses

/-- A tree with a grouping put in compiles to the same: a required clause is
compiled under the flags of its combination and stands for itself, and a clause
with nothing in it is left out. -/
theorem Regroups.compile_eq {settings : Settings} {node other : Node} (h : Regroups node other)
    (negated required : Bool) :
    other.compile settings negated required = node.compile settings negated required := by
  induction h generalizing negated required with
  | group span node =>
      have hclause : Clause.compile settings negated required ⟨.must, false, node⟩ =
          node.compile settings negated required := by
        change node.compile settings (negated ^^ false) (required && true) = _
        rw [Bool.xor_false, Bool.and_true]
      rw [compile_boolean, compileClauses_cons, hclause]
      cases hnode : node.compile settings negated required with
      | mk expr yield =>
          refine Prod.ext ?_ yield.append_empty
          cases expr <;> rfl
  | pad hoccur span inner before after =>
      rw [compile_boolean, compile_boolean, compileClauses_append, compileClauses_append,
        compileClauses_cons]
      rfl
  | @clause node other span occur explicit before after _ ih =>
      have hclause : Clause.compile settings negated required ⟨occur, explicit, other⟩ =
          Clause.compile settings negated required ⟨occur, explicit, node⟩ := ih _ _
      rw [compile_boolean, compile_boolean, compileClauses_append, compileClauses_append,
        compileClauses_cons, compileClauses_cons, hclause]
  | negated span operator _ ih => rw [Node.compile, Node.compile, ih]

/-- A visitor that does nothing at groupings, at empty nodes and at clauses
nobody typed, and looks at nothing but the operators elsewhere. -/
structure Visitor.IgnoresGrouping {σ : Type} (visitor : Visitor σ) : Prop where
  boolean : ∀ span clauses s, visitor.boolean span clauses s = s
  empty : ∀ span s, visitor.empty span s = s
  implicit : ∀ c s, c.explicit = false → c.occur ≠ .mustNot → visitor.clause c s = s
  clause : ∀ occur explicit node other s,
    visitor.clause ⟨occur, explicit, node⟩ s = visitor.clause ⟨occur, explicit, other⟩ s
  negated : ∀ span operator child other s,
    visitor.negated span operator child s = visitor.negated span operator other s

/-- Such a visitor ends a walk over a tree with a grouping put in as it does
without. -/
theorem Regroups.walk_eq {σ : Type} {visitor : Visitor σ} {node other : Node}
    (h : Regroups node other) (hvisitor : visitor.IgnoresGrouping) (s : σ) :
    other.walk visitor s = node.walk visitor s := by
  induction h generalizing s with
  | group span node =>
      have hclause := hvisitor.implicit ⟨.must, false, node⟩
      simp only [Node.walk, walkClauses, hvisitor.boolean]
      rw [hclause s rfl (by simp)]
  | pad hoccur span inner before after =>
      simp only [Node.walk, walkClauses_append, walkClauses, hvisitor.boolean, hvisitor.empty]
      rw [hvisitor.implicit _ _ rfl hoccur]
  | @clause node other span occur explicit before after _ ih =>
      simp only [Node.walk, walkClauses_append, walkClauses, hvisitor.boolean, ih]
      rw [hvisitor.clause occur explicit other node]
  | @negated child other span operator _ ih =>
      rw [Node.walk, Node.walk, ih, hvisitor.negated span operator other child]

end SearchCompiler
