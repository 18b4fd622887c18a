import SearchCompiler.Node.Walk
import SearchCompiler.Proofs.Node.Leaves

/-!
The events of a tree. Walking over a tree is going through its events one after
the other, whatever the visitor does; so what a visitor counts can be read off a
list, and the leaves that it passes are those that are compiled, in the same
order.
-/

namespace SearchCompiler

theorem eventsOfClauses_eq_flatMap (clauses : List (Clause Node)) :
    eventsOfClauses clauses = clauses.flatMap fun c => .clause c :: c.node.events := by
  induction clauses with
  | nil => rfl
  | cons c rest ih =>
      rw [List.flatMap_cons, ← ih, eventsOfClauses, List.cons_append]

/-- The state after a walk is that after all events of the tree. -/
theorem walk_eq_foldl {σ : Type} (visitor : Visitor σ) (node : Node) (s : σ) :
    node.walk visitor s = node.events.foldl visitor.on s := by
  induction node using Node.induction generalizing s with
  | boolean span clauses ih =>
      have hclauses : ∀ s, walkClauses visitor clauses s =
          (eventsOfClauses clauses).foldl visitor.on s := by
        induction clauses with
        | nil => exact fun _ => rfl
        | cons c rest ihrest =>
            intro s
            obtain ⟨hnode, hrest⟩ := List.forall_mem_cons.mp ih
            rw [walkClauses, eventsOfClauses, List.foldl_cons, List.foldl_append, ihrest hrest,
              hnode]
            rfl
      exact hclauses _
  | negated span operator child ih => exact ih _
  | words | phrase | phrasePrefix | wordPrefix | fuzzy | wildcard | empty | keyword => rfl

/-- The leaf that an event is about, if it is about one. -/
def Event.leaf? : Event → Option Node
  | .clause _ | .node (.boolean ..) | .node (.negated ..) => none
  | .node leaf => some leaf

namespace Node

/-- What stands in a tree apart from combinations and negations, as a walk comes
to it. -/
def leafNodes (node : Node) : List Node :=
  node.events.filterMap Event.leaf?

def words? : Node → Option String
  | .words _ text => some text
  | _ => none

def phrase? : Node → Option String
  | .phrase _ text _ _ => some text
  | _ => none

/-- The texts of plain words in a tree, as a walk comes to them. -/
def texts (node : Node) : List String :=
  node.leafNodes.filterMap words?

/-- The same for quoted words. -/
def phrases (node : Node) : List String :=
  node.leafNodes.filterMap phrase?

/-- A walk passes the leaves that are compiled, in the same order. -/
theorem leafNodes_eq_map (node : Node) (odd required : Bool) :
    node.leafNodes = (node.leaves odd required).map Placed.leaf := by
  induction node using Node.induction generalizing odd required with
  | boolean span clauses ih =>
      rw [leafNodes, events, eventsOfClauses_eq_flatMap, leaves_boolean, List.map_flatMap]
      change (clauses.flatMap _).filterMap Event.leaf? = _
      rw [List.filterMap_flatMap]
      exact List.flatMap_congr fun c hc => ih c hc _ _
  | negated span operator child ih => exact ih _ _
  | words | phrase | phrasePrefix | wordPrefix | fuzzy | wildcard | empty | keyword => rfl

end Node

end SearchCompiler
