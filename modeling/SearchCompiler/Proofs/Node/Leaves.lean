import Mathlib.Data.List.Perm.Basic
import SearchCompiler.Proofs.Node.Compilation

/-!
The leaves of trees and of expressions. Compilation goes through a tree leaf by
leaf: what it collects is what the leaves yield in the order of the text, and
the leaves of the expression are those that the leaves of the tree are compiled
to. Only the order of the latter may change, for clauses are sorted into groups.
-/

namespace SearchCompiler

/-- A leaf of a tree in its place: whether it stands under an odd number of
exclusions, and whether in required clauses only. -/
structure Placed where
  odd : Bool
  required : Bool
  leaf : Node

/-- What a leaf is compiled to in its place. -/
def Placed.compile (settings : Settings) (p : Placed) : Option Expr × Yield :=
  p.leaf.compile settings p.odd p.required

mutual

/-- The leaves of a tree in the order of the text, those with nothing to search
for among them. -/
def Node.leaves (odd required : Bool) : Node → List Placed
  | .boolean _ clauses => leavesOfClauses odd required clauses
  | .negated _ _ child => child.leaves (!odd) false
  | leaf => [⟨odd, required, leaf⟩]

def leavesOfClauses (odd required : Bool) : List (Clause Node) → List Placed
  | [] => []
  | ⟨occur, _, node⟩ :: rest =>
      node.leaves (odd ^^ (occur == .mustNot)) (required && occur == .must)
        ++ leavesOfClauses odd required rest

end

mutual

/-- The leaves of an expression, each with whether it stands under an odd number
of exclusions. Functions that change a score are not looked at. -/
def Expr.literals (odd : Bool) : Expr → List (Bool × Expr)
  | .bool ⟨must, should, mustNot, filter⟩ =>
      literalsOfList odd must ++ literalsOfList odd should ++ literalsOfList (!odd) mustNot
        ++ literalsOfList odd filter
  | .functionScore query _ _ _ => query.literals odd
  | leaf => [(odd, leaf)]

def literalsOfList (odd : Bool) : List Expr → List (Bool × Expr)
  | [] => []
  | e :: rest => e.literals odd ++ literalsOfList odd rest

end

/-- The leaves of an expression, wherever they stand. -/
def Expr.leaves (e : Expr) : List Expr :=
  (e.literals false).map Prod.snd

/-- The leaves of the node of a clause. -/
def Clause.leaves (odd required : Bool) (c : Clause Node) : List Placed :=
  c.node.leaves (odd ^^ (c.occur == .mustNot)) (required && c.occur == .must)

theorem leaves_boolean (odd required : Bool) (span : Span) (clauses : List (Clause Node)) :
    (Node.boolean span clauses).leaves odd required =
      clauses.flatMap (Clause.leaves odd required) := by
  rw [Node.leaves]
  induction clauses with
  | nil => rfl
  | cons c rest ih => rw [List.flatMap_cons, ← ih]; rfl

theorem literalsOfList_eq_flatMap (odd : Bool) (es : List Expr) :
    literalsOfList odd es = es.flatMap (Expr.literals odd) := by
  induction es with
  | nil => rfl
  | cons e rest ih => rw [List.flatMap_cons, ← ih, literalsOfList]

/-- What a tree yields is what its leaves yield, one after the other. -/
theorem yield_compile {β : Type} (field : Yield → List β) (hempty : field {} = [])
    (happend : ∀ a b : Yield, field (a ++ b) = field a ++ field b) (settings : Settings)
    (node : Node) (odd required : Bool) :
    field (node.compile settings odd required).2 =
      (node.leaves odd required).flatMap fun p => field (p.compile settings).2 := by
  induction node using Node.induction generalizing odd required with
  | boolean span clauses ih =>
      rw [compile_boolean, leaves_boolean, List.flatMap_assoc,
        yield_compileClauses settings odd required field hempty happend]
      exact List.flatMap_congr fun c hc => ih c hc _ _
  | negated span operator child ih => exact ih _ _
  | words | phrase | phrasePrefix | wordPrefix | fuzzy | wildcard | empty | keyword =>
      exact (List.append_nil _).symm

section Literals

variable (odd : Bool)

theorem literals_bool (clauses : Clauses Expr) (hfilter : clauses.filter = []) :
    (Expr.bool clauses).literals odd =
      clauses.must.flatMap (Expr.literals odd) ++ clauses.should.flatMap (Expr.literals odd)
        ++ clauses.mustNot.flatMap (Expr.literals (!odd)) := by
  obtain ⟨must, should, mustNot, filter⟩ := clauses
  obtain rfl : filter = [] := hfilter
  simp only [Expr.literals, literalsOfList_eq_flatMap, List.flatMap_nil, List.append_nil]

/-- A combination that is left out or unwrapped has the leaves that it has. -/
theorem literals_toExpr? (clauses : Clauses Expr) (hfilter : clauses.filter = []) :
    clauses.toExpr?.toList.flatMap (Expr.literals odd) = (Expr.bool clauses).literals odd := by
  rw [literals_bool odd clauses hfilter]
  obtain ⟨must, should, mustNot, filter⟩ := clauses
  obtain rfl : filter = [] := hfilter
  unfold Clauses.toExpr?
  split
  · next hempty =>
      simp only [Clauses.isEmpty, Bool.and_eq_true, List.isEmpty_iff] at hempty
      obtain ⟨⟨⟨rfl, rfl⟩, rfl⟩, _⟩ := hempty
      rfl
  · split
    · next only hmust hshould hnot =>
        obtain rfl : must = [only] := hmust
        obtain rfl : should = [] := hshould
        obtain rfl : mustNot = [] := hnot
        simp
    · rw [Option.toList_some, List.flatMap_singleton, literals_bool odd _ rfl]

/-- Sorted into groups, the parts of a combination keep their leaves. -/
theorem literals_ofParts (parts : List (Occur × Expr)) :
    ((Expr.bool (Clauses.ofParts parts)).literals odd).Perm
      (parts.flatMap fun part => part.2.literals (odd ^^ (part.1 == .mustNot))) := by
  rw [literals_bool odd _ rfl, ofParts_eq]
  induction parts with
  | nil => exact .nil
  | cons part rest ih =>
      obtain ⟨occur, e⟩ := part
      rw [List.flatMap_cons]
      refine List.Perm.trans ?_ (ih.append_left _)
      -- The leaves of the new part move past those of the groups before its own.
      cases occur with
      | must =>
          have hflag : (odd ^^ (Occur.must == .mustNot)) = odd := Bool.xor_false odd
          simp [inRole, hflag]
      | should =>
          have hflag : (odd ^^ (Occur.should == .mustNot)) = odd := Bool.xor_false odd
          simpa [inRole, hflag] using List.perm_append_comm_assoc _ (e.literals odd) _
      | mustNot =>
          have hmove := List.perm_append_comm_assoc
            ((inRole rest .must).flatMap (Expr.literals odd)
              ++ (inRole rest .should).flatMap (Expr.literals odd))
            (e.literals !odd) ((inRole rest .mustNot).flatMap (Expr.literals !odd))
          simpa [inRole] using hmove

/-- The leaves of what a tree is compiled to are what its leaves are compiled
to, each under as many exclusions as before, but perhaps in another order. -/
theorem literals_compile (settings : Settings) (node : Node) (required : Bool) :
    ((node.compile settings odd required).1.toList.flatMap (Expr.literals odd)).Perm
      ((node.leaves odd required).flatMap fun p =>
        (p.compile settings).1.toList.map (p.odd, ·)) := by
  induction node using Node.induction generalizing odd required with
  | boolean span clauses ih =>
      rw [compile_boolean, leaves_boolean, List.flatMap_assoc, literals_toExpr? odd _ rfl]
      refine (literals_ofParts odd _).trans ?_
      rw [parts_compileClauses, List.flatMap_assoc]
      refine List.Perm.flatMap_left _ fun c hc => ?_
      rw [List.flatMap_map]
      exact ih c hc (odd ^^ (c.occur == .mustNot)) (required && c.occur == .must)
  | negated span operator child ih =>
      have hnot (e : Expr) : e.not.literals odd = e.literals (!odd) := by
        simp [Expr.not, Expr.literals, literalsOfList]
      have hchild := ih (!odd) false
      rw [Node.compile, Node.leaves, Option.toList_map, List.flatMap_map]
      simpa only [hnot] using hchild
  | phrasePrefix span text =>
      simp only [Node.leaves, List.flatMap_singleton, Placed.compile, Node.compile]
      split <;> exact .refl _
  | words | phrase | wordPrefix | fuzzy | wildcard | empty | keyword => exact .refl _

end Literals

end SearchCompiler
