import SearchCompiler.Proofs.Folds
import SearchCompiler.Proofs.Node.Events

/-!
What stands in a tree, at whatever depth, and changes made at one place of it. A
walk passes the nodes that stand in a tree and the clauses of the combinations
among them, so what a visitor comes to know is a statement about the whole tree.
-/

namespace SearchCompiler

namespace Node

/-- A tree has itself and every node below it, under whatever clauses and
negations. -/
def Has (root node : Node) : Prop :=
  ∃ odd, root.Occurs odd node

theorem has_boolean {span : Span} {clauses : List (Clause Node)} {node : Node} :
    (Node.boolean span clauses).Has node ↔
      node = .boolean span clauses ∨ ∃ c ∈ clauses, c.node.Has node := by
  simp only [Has, occurs_boolean]
  constructor
  · rintro ⟨odd, ⟨_, rfl⟩ | ⟨c, hc, h⟩⟩
    · exact .inl rfl
    · exact .inr ⟨c, hc, _, h⟩
  · rintro (rfl | ⟨c, hc, odd, h⟩)
    · exact ⟨false, .inl ⟨rfl, rfl⟩⟩
    · exact ⟨odd ^^ (c.occur == .mustNot), .inr ⟨c, hc, by simpa using h⟩⟩

theorem has_negated {span : Span} {operator : String} {child node : Node} :
    (Node.negated span operator child).Has node ↔
      node = .negated span operator child ∨ child.Has node := by
  simp only [Has, occurs_negated]
  constructor
  · rintro ⟨odd, ⟨_, rfl⟩ | h⟩
    · exact .inl rfl
    · exact .inr ⟨_, h⟩
  · rintro (rfl | ⟨odd, h⟩)
    · exact ⟨false, .inl ⟨rfl, rfl⟩⟩
    · exact ⟨!odd, .inr (by simpa using h)⟩

theorem has_leaf {root node : Node} (hboolean : ∀ span clauses, root ≠ .boolean span clauses)
    (hnegated : ∀ span operator child, root ≠ .negated span operator child) :
    root.Has node ↔ node = root := by
  simp [Has, occurs_self hboolean hnegated]

/-- A walk comes to the nodes of a tree and to no others. -/
theorem node_mem_events {root node : Node} : .node node ∈ root.events ↔ root.Has node := by
  induction root using Node.induction with
  | boolean span clauses ih =>
      rw [events, eventsOfClauses_eq_flatMap, List.mem_cons, List.mem_flatMap, has_boolean]
      refine or_congr (by simp) (exists_congr fun c => and_congr_right fun hc => ?_)
      rw [← ih c hc, List.mem_cons]
      simp
  | negated span operator child ih =>
      rw [events, List.mem_cons, has_negated, ih]
      simp
  | words | phrase | phrasePrefix | wordPrefix | fuzzy | wildcard | empty | keyword =>
      rw [has_leaf (by simp) (by simp), events, List.mem_singleton]
      simp

/-- It comes to the clauses of the combinations among them. -/
theorem clause_mem_events {root : Node} {c : Clause Node} :
    .clause c ∈ root.events ↔ ∃ span clauses, root.Has (.boolean span clauses) ∧ c ∈ clauses := by
  induction root using Node.induction with
  | boolean span clauses ih =>
      rw [events, eventsOfClauses_eq_flatMap, List.mem_cons, List.mem_flatMap]
      simp only [reduceCtorEq, false_or, List.mem_cons, Event.clause.injEq, has_boolean,
        Node.boolean.injEq]
      constructor
      · rintro ⟨d, hd, rfl | h⟩
        · exact ⟨span, clauses, .inl ⟨rfl, rfl⟩, hd⟩
        · obtain ⟨inner, others, hhas, hc⟩ := (ih d hd).mp h
          exact ⟨inner, others, .inr ⟨d, hd, hhas⟩, hc⟩
      · rintro ⟨inner, others, ⟨rfl, rfl⟩ | ⟨d, hd, hhas⟩, hc⟩
        · exact ⟨c, hc, .inl rfl⟩
        · exact ⟨d, hd, .inr ((ih d hd).mpr ⟨inner, others, hhas, hc⟩)⟩
  | negated span operator child ih =>
      rw [events, List.mem_cons, ih]
      simp only [reduceCtorEq, false_or, has_negated]
  | words | phrase | phrasePrefix | wordPrefix | fuzzy | wildcard | empty | keyword =>
      simp [events, has_leaf]

/-- The leaves of a tree are those of its nodes that have nothing below them. -/
theorem mem_leafNodes {root leaf : Node} :
    leaf ∈ root.leafNodes ↔ root.Has leaf ∧ (Event.node leaf).leaf? = some leaf := by
  rw [leafNodes, List.mem_filterMap]
  constructor
  · rintro ⟨event, hevent, hleaf⟩
    obtain rfl : event = .node leaf := by
      unfold Event.leaf? at hleaf
      split at hleaf <;> simp_all
    exact ⟨node_mem_events.mp hevent, hleaf⟩
  · rintro ⟨hhas, hleaf⟩
    exact ⟨_, node_mem_events.mpr hhas, hleaf⟩

/-- A change that is made at one place of a tree, all else being equal. -/
inductive Somewhere (change : Node → Node → Prop) : Node → Node → Prop
  | here {node other : Node} : change node other → Somewhere change node other
  | clause {node other : Node} (span : Span) (occur : Occur) (explicit : Bool)
      (before after : List (Clause Node)) : Somewhere change node other →
      Somewhere change (.boolean span (before ++ ⟨occur, explicit, node⟩ :: after))
        (.boolean span (before ++ ⟨occur, explicit, other⟩ :: after))
  | negated {child other : Node} (span : Span) (operator : String) :
      Somewhere change child other →
      Somewhere change (.negated span operator child) (.negated span operator other)

end Node

end SearchCompiler
