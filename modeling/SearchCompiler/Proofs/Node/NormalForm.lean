import SearchCompiler.Proofs.Node.Leaves

/-!
The form of compiled expressions. A combination with no clauses would match every
document, and one with a single required clause says what the clause says; both
are gone after compilation, at any depth, however clauses come to nothing below.
A tree is compiled to nothing only when all of its leaves are.
-/

namespace SearchCompiler

/-- The clauses of all groups. -/
def Clauses.parts {α : Type} (clauses : Clauses α) : List α :=
  clauses.must ++ clauses.should ++ clauses.mustNot ++ clauses.filter

/-- A combination that is neither empty nor the same as its only clause, and that
filters nothing. -/
structure Clauses.Tidy (clauses : Clauses Expr) : Prop where
  nonempty : clauses.isEmpty = false
  unfiltered : clauses.filter = []
  not_lone : ∀ only, clauses ≠ { must := [only] }

namespace Expr

/-- An expression that stands somewhere in another. -/
inductive Contains : Expr → Expr → Prop
  | self (e : Expr) : Contains e e
  | clause {clauses : Clauses Expr} {part e : Expr} :
      part ∈ clauses.parts → Contains part e → Contains (.bool clauses) e
  | scored {query e : Expr} {functions : List (ScoreFunction Expr)}
      {scoreMode boostMode : String} :
      Contains query e → Contains (.functionScore query functions scoreMode boostMode) e
  | weighed {query part e : Expr} {functions : List (ScoreFunction Expr)}
      {scoreMode boostMode : String} {function : ScoreFunction Expr} :
      function ∈ functions → function.filter = some part → Contains part e →
        Contains (.functionScore query functions scoreMode boostMode) e

/-- An expression of tidy combinations and of leaves, in which no scores are
changed. -/
structure Normal (e : Expr) : Prop where
  tidy : ∀ clauses, e.Contains (.bool clauses) → clauses.Tidy
  unscored : ∀ query functions scoreMode boostMode,
    ¬ e.Contains (.functionScore query functions scoreMode boostMode)

/-- What has nothing below it is normal. -/
theorem Normal.of_alone {e : Expr} (halone : ∀ part, e.Contains part → part = e)
    (hbool : ∀ clauses, e ≠ .bool clauses)
    (hscore : ∀ query functions scoreMode boostMode,
      e ≠ .functionScore query functions scoreMode boostMode) : e.Normal where
  tidy clauses h := (hbool clauses (halone _ h).symm).elim
  unscored query functions scoreMode boostMode h :=
    hscore query functions scoreMode boostMode (halone _ h).symm

theorem Normal.bool {clauses : Clauses Expr} (htidy : clauses.Tidy)
    (hparts : ∀ part ∈ clauses.parts, part.Normal) : (Expr.bool clauses).Normal where
  tidy inner hinner := by
    cases hinner with
    | self => exact htidy
    | clause hpart hinner => exact (hparts _ hpart).tidy inner hinner
  unscored query functions scoreMode boostMode hinner := by
    cases hinner with
    | clause hpart hinner => exact (hparts _ hpart).unscored _ _ _ _ hinner

theorem Normal.not {e : Expr} (h : e.Normal) : e.not.Normal := by
  have htidy : Clauses.Tidy { mustNot := [e] } := ⟨rfl, rfl, by simp⟩
  refine .bool htidy fun part hpart => ?_
  obtain rfl := List.mem_singleton.mp hpart
  exact h

/-- Unwrapped or left out where it has to be, a combination of normal parts is
normal. -/
theorem normal_toExpr? {clauses : Clauses Expr} (hfilter : clauses.filter = [])
    (hparts : ∀ part ∈ clauses.parts, part.Normal) : ∀ e ∈ clauses.toExpr?, e.Normal := by
  intro e he
  unfold Clauses.toExpr? at he
  split at he
  · cases he
  · next hfull =>
      split at he
      · next only hmust _ _ =>
          obtain rfl := Option.some.inj he
          exact hparts only (by simp [Clauses.parts, hmust])
      · next hlone =>
          obtain rfl := Option.some.inj he
          refine .bool ⟨Bool.eq_false_iff.mpr hfull, hfilter, ?_⟩ hparts
          rintro only rfl
          exact hlone only rfl rfl rfl

end Expr

theorem toExpr?_eq_none_iff {clauses : Clauses Expr} :
    clauses.toExpr? = none ↔ clauses.isEmpty := by
  unfold Clauses.toExpr?
  split
  · next hempty => exact iff_of_true rfl hempty
  · next hfull =>
      refine iff_of_false ?_ hfull
      split <;> exact Option.some_ne_none _

theorem mem_parts_ofParts {parts : List (Occur × Expr)} {e : Expr} :
    e ∈ (Clauses.ofParts parts).parts ↔ ∃ occur, (occur, e) ∈ parts := by
  simp only [Clauses.parts, ofParts_eq, List.mem_append, mem_inRole, List.not_mem_nil, or_false]
  constructor
  · rintro ((h | h) | h) <;> exact ⟨_, h⟩
  · rintro ⟨occur, h⟩
    cases occur with
    | must => exact .inl (.inl h)
    | should => exact .inl (.inr h)
    | mustNot => exact .inr h

theorem mem_parts_compileClauses {settings : Settings} {negated required : Bool}
    {clauses : List (Clause Node)} {occur : Occur} {e : Expr} :
    (occur, e) ∈ (compileClauses settings negated required clauses).1 ↔
      ∃ c ∈ clauses, c.occur = occur ∧ (c.compile settings negated required).1 = some e := by
  simp only [parts_compileClauses, List.mem_flatMap, List.mem_map, Option.mem_toList,
    Prod.mk.injEq]
  constructor
  · rintro ⟨c, hc, _, he, hoccur, rfl⟩
    exact ⟨c, hc, hoccur, he⟩
  · rintro ⟨c, hc, hoccur, he⟩
    exact ⟨c, hc, e, he, hoccur, rfl⟩

namespace Node

variable {settings : Settings} {negated required : Bool}

/-- Trees are compiled to normal expressions. -/
theorem normal_compile (node : Node) :
    ∀ e ∈ (node.compile settings negated required).1, e.Normal := by
  induction node using Node.induction generalizing negated required with
  | boolean span clauses ih =>
      rw [compile_boolean]
      refine Expr.normal_toExpr? rfl fun part hpart => ?_
      obtain ⟨occur, hpart⟩ := mem_parts_ofParts.mp hpart
      obtain ⟨c, hc, _, he⟩ := mem_parts_compileClauses.mp hpart
      exact ih c hc part he
  | negated span operator child ih =>
      intro e he
      obtain ⟨inner, hinner, rfl⟩ := Option.map_eq_some_iff.mp he
      exact (ih inner hinner).not
  | phrasePrefix span text =>
      intro e he
      rw [compile] at he
      split at he
      · cases he
      · obtain rfl := Option.some.inj he
        exact .of_alone (by rintro _ ⟨⟩; rfl) (by rintro _ ⟨⟩) (by rintro _ _ _ _ ⟨⟩)
  | empty | keyword =>
      intro e he
      cases he
  | words | phrase | wordPrefix | fuzzy | wildcard =>
      intro e he
      obtain rfl := Option.some.inj he
      exact .of_alone (by rintro _ ⟨⟩; rfl) (by rintro _ ⟨⟩) (by rintro _ _ _ _ ⟨⟩)

/-- Nothing comes of a tree only when nothing comes of any leaf. -/
theorem compile_eq_none_iff (node : Node) :
    (node.compile settings negated required).1 = none ↔
      ∀ p ∈ node.leaves negated required, (p.compile settings).1 = none := by
  induction node using Node.induction generalizing negated required with
  | boolean span clauses ih =>
      rw [compile_boolean, toExpr?_eq_none_iff, isEmpty_ofParts, List.isEmpty_iff,
        parts_compileClauses, leaves_boolean, List.flatMap_eq_nil_iff]
      simp only [List.map_eq_nil_iff, Option.toList_eq_nil_iff, List.mem_flatMap]
      constructor
      · rintro h p ⟨c, hc, hp⟩
        exact (ih c hc).mp (h c hc) p hp
      · intro h c hc
        exact (ih c hc).mpr fun p hp => h p ⟨c, hc, hp⟩
  | negated span operator child ih => exact Option.map_eq_none_iff.trans ih
  | words | phrase | phrasePrefix | wordPrefix | fuzzy | wildcard | empty | keyword =>
      simp [leaves, Placed.compile]

end Node

end SearchCompiler
