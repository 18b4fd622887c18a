import SearchCompiler.Node.Basic

/-!
Where nodes stand in a tree. What a node means to a query depends on the way
down to it: whether an odd or an even number of exclusions is passed, and
whether the way leads through required clauses only.
-/

namespace SearchCompiler

namespace Node

/-- Induction over trees, in which the hypothesis for a combination speaks of
the nodes of all of its clauses. -/
@[elab_as_elim]
theorem induction {motive : Node → Prop}
    (boolean : ∀ span clauses, (∀ c ∈ clauses, motive c.node) → motive (.boolean span clauses))
    (negated : ∀ span operator child, motive child → motive (.negated span operator child))
    (words : ∀ span text, motive (.words span text))
    (phrase : ∀ span text slop stem, motive (.phrase span text slop stem))
    (phrasePrefix : ∀ span text, motive (.phrasePrefix span text))
    (wordPrefix : ∀ span text, motive (.wordPrefix span text))
    (fuzzy : ∀ span text distance, motive (.fuzzy span text distance))
    (wildcard : ∀ span text, motive (.wildcard span text))
    (empty : ∀ span, motive (.empty span))
    (keyword : ∀ occurrence feature, motive (.keyword occurrence feature)) (node : Node) :
    motive node := by
  refine @Node.rec motive (fun clauses => ∀ c ∈ clauses, motive c.node)
    (fun clause => motive clause.node) boolean words phrase phrasePrefix wordPrefix
    fuzzy wildcard negated empty keyword ?_ ?_ ?_ node
  · intro c hc
    cases hc
  · intro head rest hhead hrest c hc
    rcases List.mem_cons.mp hc with rfl | hc
    · exact hhead
    · exact hrest c hc
  · intro occur explicit node hnode
    exact hnode

/-- A node that every result has to satisfy: the root, or one that is reached
from it through required clauses only. -/
inductive Requires : Node → Node → Prop
  | root (node : Node) : Requires node node
  | clause {span : Span} {clauses : List (Clause Node)} {c : Clause Node} {node : Node} :
      c ∈ clauses → c.occur = .must → Requires c.node node → Requires (.boolean span clauses) node

/-- A node that stands in a tree, with the parity of the exclusions above it:
`true` stands for an odd number of negations and must-not clauses. -/
inductive Occurs : Node → Bool → Node → Prop
  | root (node : Node) : Occurs node false node
  | clause {span : Span} {clauses : List (Clause Node)} {c : Clause Node} {odd : Bool}
      {node : Node} :
      c ∈ clauses → Occurs c.node odd node →
        Occurs (.boolean span clauses) (odd ^^ (c.occur == .mustNot)) node
  | negated {span : Span} {operator : String} {child : Node} {odd : Bool} {node : Node} :
      Occurs child odd node → Occurs (.negated span operator child) (!odd) node

theorem requires_boolean {span : Span} {clauses : List (Clause Node)} {node : Node} :
    (Node.boolean span clauses).Requires node ↔
      node = .boolean span clauses ∨
        ∃ c ∈ clauses, c.occur = .must ∧ c.node.Requires node := by
  constructor
  · intro h
    cases h with
    | root => exact .inl rfl
    | clause hc hmust h => exact .inr ⟨_, hc, hmust, h⟩
  · rintro (rfl | ⟨c, hc, hmust, h⟩)
    · exact .root _
    · exact .clause hc hmust h

/-- The nodes without clauses require nothing but themselves. -/
theorem requires_self {root node : Node} (h : ∀ span clauses, root ≠ .boolean span clauses) :
    root.Requires node ↔ node = root := by
  constructor
  · intro hreq
    cases hreq with
    | root => rfl
    | clause => exact absurd rfl (h _ _)
  · rintro rfl
    exact .root _

theorem occurs_boolean {span : Span} {clauses : List (Clause Node)} {odd : Bool} {node : Node} :
    (Node.boolean span clauses).Occurs odd node ↔
      (odd = false ∧ node = .boolean span clauses) ∨
        ∃ c ∈ clauses, c.node.Occurs (odd ^^ (c.occur == .mustNot)) node := by
  constructor
  · intro h
    cases h with
    | root => exact .inl ⟨rfl, rfl⟩
    | @clause _ _ c odd _ hc h => exact .inr ⟨c, hc, by simpa using h⟩
  · rintro (⟨rfl, rfl⟩ | ⟨c, hc, h⟩)
    · exact .root _
    · have hclause : (Node.boolean span clauses).Occurs _ node := .clause hc h
      simpa using hclause

theorem occurs_negated {span : Span} {operator : String} {child : Node} {odd : Bool}
    {node : Node} :
    (Node.negated span operator child).Occurs odd node ↔
      (odd = false ∧ node = .negated span operator child) ∨ child.Occurs (!odd) node := by
  constructor
  · intro h
    cases h with
    | root => exact .inl ⟨rfl, rfl⟩
    | negated h => exact .inr (by simpa using h)
  · rintro (⟨rfl, rfl⟩ | h)
    · exact .root _
    · have hnegated : (Node.negated span operator child).Occurs _ node := .negated h
      simpa using hnegated

/-- In a leaf nothing occurs but the leaf. -/
theorem occurs_self {root node : Node} {odd : Bool}
    (hboolean : ∀ span clauses, root ≠ .boolean span clauses)
    (hnegated : ∀ span operator child, root ≠ .negated span operator child) :
    root.Occurs odd node ↔ odd = false ∧ node = root := by
  constructor
  · intro h
    cases h with
    | root => exact ⟨rfl, rfl⟩
    | clause => exact absurd rfl (hboolean _ _)
    | negated => exact absurd rfl (hnegated _ _ _)
  · rintro ⟨rfl, rfl⟩
    exact .root _

end Node

end SearchCompiler
