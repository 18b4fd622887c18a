import Mathlib.Data.Nat.Bits
import SearchCompiler.Proofs.Node.Events

/-!
The ways down to the leaves of a tree. A compilation carries two flags from the
root to the leaves; here the same is read off the whole way afterwards. A leaf is
excluded when an odd number of steps on the way to it excludes what is below, and
it is required when every step leads into a required clause.
-/

namespace SearchCompiler

/-- A step down a tree. -/
inductive Descent where
  | clause (occur : Occur)
  | negation
deriving DecidableEq, Repr

/-- Whether a step excludes what is below it. -/
def Descent.excludes : Descent → Bool
  | .clause occur => occur == .mustNot
  | .negation => true

/-- Whether a step leads into a required clause. -/
def Descent.demands : Descent → Bool
  | .clause occur => occur == .must
  | .negation => false

/-- A leaf and the steps from the root down to it. -/
structure Spot where
  way : List Descent
  leaf : Node

namespace Spot

/-- Whether an odd number of the steps down to a leaf exclude it. -/
def odd (spot : Spot) : Bool :=
  (spot.way.countP Descent.excludes).bodd

/-- Whether all steps down to a leaf lead into required clauses. -/
def required (spot : Spot) : Bool :=
  spot.way.all Descent.demands

/-- The same leaf, seen from one step higher up. -/
def below (step : Descent) (spot : Spot) : Spot :=
  { spot with way := step :: spot.way }

/-- The place of a leaf in a tree that is itself placed. -/
def placed (odd required : Bool) (spot : Spot) : Placed :=
  ⟨odd ^^ spot.odd, required && spot.required, spot.leaf⟩

@[simp]
theorem leaf_below (step : Descent) (spot : Spot) : (spot.below step).leaf = spot.leaf := rfl

@[simp]
theorem odd_below (step : Descent) (spot : Spot) :
    (spot.below step).odd = (step.excludes ^^ spot.odd) := by
  have hcount : (spot.below step).way.countP Descent.excludes =
      spot.way.countP Descent.excludes + step.excludes.toNat := by
    rw [below, List.countP_cons]
    cases step.excludes <;> rfl
  rw [odd, hcount, Nat.bodd_add, odd, Bool.xor_comm]
  cases step.excludes <;> rfl

@[simp]
theorem required_below (step : Descent) (spot : Spot) :
    (spot.below step).required = (step.demands && spot.required) :=
  List.all_cons

/-- A tree that is not part of another is compiled without an exclusion and as
required, so the way down decides alone. -/
theorem compile_placed (settings : Settings) (spot : Spot) :
    (spot.placed false true).compile settings =
      spot.leaf.compile settings spot.odd spot.required := by
  rw [Placed.compile, placed, Bool.false_xor, Bool.true_and]

/-- What is required is not excluded. -/
theorem odd_of_required {spot : Spot} (h : spot.required) : spot.odd = false := by
  have hnone : spot.way.countP Descent.excludes = 0 := by
    rw [List.countP_eq_zero]
    intro step hstep
    have hdemands : step.demands = true := List.all_eq_true.mp h step hstep
    cases step with
    | clause occur => rw [Descent.excludes, beq_iff_eq.mp hdemands]; exact Bool.false_ne_true
    | negation => cases hdemands
  rw [odd, hnone]
  rfl

end Spot

mutual

/-- The leaves of a tree in the order of the text, each with the way down to it. -/
def Node.spots : Node → List Spot
  | .boolean _ clauses => spotsOfClauses clauses
  | .negated _ _ child => child.spots.map (Spot.below .negation)
  | leaf => [⟨[], leaf⟩]

def spotsOfClauses : List (Clause Node) → List Spot
  | [] => []
  | ⟨occur, _, node⟩ :: rest =>
      node.spots.map (Spot.below (.clause occur)) ++ spotsOfClauses rest

end

theorem spots_boolean (span : Span) (clauses : List (Clause Node)) :
    (Node.boolean span clauses).spots =
      clauses.flatMap fun c => c.node.spots.map (Spot.below (.clause c.occur)) := by
  rw [Node.spots]
  induction clauses with
  | nil => rfl
  | cons c rest ih => rw [List.flatMap_cons, ← ih]; rfl

/-- The flags that a compilation carries down to the leaves are those of the
ways to them. -/
theorem Node.leaves_eq_map_spots (node : Node) (odd required : Bool) :
    node.leaves odd required = node.spots.map (Spot.placed odd required) := by
  induction node using Node.induction generalizing odd required with
  | boolean span clauses ih =>
      rw [leaves_boolean, spots_boolean, List.map_flatMap]
      refine List.flatMap_congr fun c hc => ?_
      rw [Clause.leaves, ih c hc, List.map_map]
      refine List.map_congr_left fun spot _ => ?_
      simp only [Spot.placed, Function.comp_apply, Spot.leaf_below, Spot.odd_below,
        Spot.required_below, Descent.excludes, Descent.demands, Bool.xor_assoc, Bool.and_assoc]
  | negated span operator child ih =>
      rw [Node.leaves, ih, Node.spots, List.map_map]
      refine List.map_congr_left fun spot _ => ?_
      simp [Spot.placed, Descent.excludes, Descent.demands]
  | words | phrase | phrasePrefix | wordPrefix | fuzzy | wildcard | empty | keyword =>
      simp [Node.leaves, Node.spots, Spot.placed, Spot.odd, Spot.required]

/-- Whether a node has nothing below it. -/
def Node.isLeaf : Node → Bool
  | .boolean .. | .negated .. => false
  | _ => true

theorem Node.isLeaf_of_mem_spots (node : Node) : ∀ spot ∈ node.spots, spot.leaf.isLeaf := by
  induction node using Node.induction with
  | boolean span clauses ih =>
      rw [spots_boolean]
      intro spot hspot
      obtain ⟨c, hc, hspot⟩ := List.mem_flatMap.mp hspot
      obtain ⟨inner, hinner, rfl⟩ := List.mem_map.mp hspot
      exact ih c hc inner hinner
  | negated span operator child ih =>
      rw [Node.spots]
      intro spot hspot
      obtain ⟨inner, hinner, rfl⟩ := List.mem_map.mp hspot
      exact ih inner hinner
  | words | phrase | phrasePrefix | wordPrefix | fuzzy | wildcard | empty | keyword =>
      intro spot hspot
      obtain rfl := List.mem_singleton.mp hspot
      rfl

/-- A walk passes the leaves in the order of the text. -/
theorem Node.leafNodes_eq_map_spots (node : Node) : node.leafNodes = node.spots.map Spot.leaf := by
  rw [node.leafNodes_eq_map false true, node.leaves_eq_map_spots, List.map_map]
  rfl

end SearchCompiler
