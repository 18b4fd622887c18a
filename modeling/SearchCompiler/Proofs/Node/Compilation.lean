import Mathlib.Data.List.Basic
import SearchCompiler.Proofs.Draft.Demands
import SearchCompiler.Proofs.Node.TextTree

/-!
What compilation keeps of a tree. Taken by itself, the compiled expression
says what the text tree says; the phrase prefixes that were taken out are those
that the tree requires, and the filters are those of its keywords, sorted by
the parity of the exclusions above them. Put together, this is the meaning of
a whole query.

A tree is compiled under two flags. They are spoken of together here: a node
that stands in required clauses only never stands under an exclusion.
-/

namespace SearchCompiler

/-- The compilation of the node of a clause. -/
def Clause.compile (settings : Settings) (negated required : Bool) (c : Clause Node) :
    Option Expr × Yield :=
  c.node.compile settings (negated ^^ (c.occur == .mustNot)) (required && c.occur == .must)

/-- The filters of the keywords under an even number of exclusions, or under
an odd one. -/
def Yield.filtersAt (yield : Yield) : (odd : Bool) → List Expr
  | false => yield.filters
  | true => yield.notFilters

section Clauses

variable (settings : Settings) (negated required : Bool)

theorem compile_boolean (span : Span) (clauses : List (Clause Node)) :
    (Node.boolean span clauses).compile settings negated required =
      ((Clauses.ofParts (compileClauses settings negated required clauses).1).toExpr?,
        (compileClauses settings negated required clauses).2) := rfl

theorem parts_compileClauses (clauses : List (Clause Node)) :
    (compileClauses settings negated required clauses).1 =
      clauses.flatMap fun c =>
        (c.compile settings negated required).1.toList.map (c.occur, ·) := by
  induction clauses with
  | nil => rfl
  | cons c rest ih => rw [List.flatMap_cons, ← ih]; rfl

/-- What a combination yields is what its clauses yield, one after the other. -/
theorem yield_compileClauses {β : Type} (field : Yield → List β) (hempty : field {} = [])
    (happend : ∀ a b : Yield, field (a ++ b) = field a ++ field b)
    (clauses : List (Clause Node)) :
    field (compileClauses settings negated required clauses).2 =
      clauses.flatMap fun c => field (c.compile settings negated required).2 := by
  induction clauses with
  | nil => exact hempty
  | cons c rest ih => rw [List.flatMap_cons, ← ih, ← happend]; rfl

end Clauses

section Grouping

variable (leaf : Expr → Bool)

/-- A combination that is left out or unwrapped says what it says as it is. -/
theorem holds_toExpr? (clauses : Clauses Expr) (hfilter : clauses.filter = []) :
    clauses.toExpr?.map (·.holds leaf) =
      if clauses.isEmpty then none else some ((Expr.bool clauses).holds leaf) := by
  obtain ⟨must, should, mustNot, filter⟩ := clauses
  obtain rfl : filter = [] := hfilter
  unfold Clauses.toExpr?
  split
  · rfl
  · split
    · next only hmust hshould hnot =>
        obtain rfl : must = [only] := hmust
        obtain rfl : should = [] := hshould
        obtain rfl : mustNot = [] := hnot
        have honly : (Expr.bool { must := [only] }).holds leaf = only.holds leaf := by
          rw [Bool.eq_iff_iff, Expr.holds_all]
          simp
        rw [honly]
        rfl
    · rfl

theorem isEmpty_ofParts (parts : List (Occur × Expr)) :
    (Clauses.ofParts parts).isEmpty = parts.isEmpty := by
  cases parts with
  | nil => rfl
  | cons part rest =>
      obtain ⟨occur, e⟩ := part
      cases occur <;> simp [Clauses.ofParts, Clauses.isEmpty]

/-- The parts that have one role. -/
def inRole (parts : List (Occur × Expr)) (occur : Occur) : List Expr :=
  parts.filterMap fun part => if part.1 = occur then some part.2 else none

theorem ofParts_eq (parts : List (Occur × Expr)) :
    Clauses.ofParts parts =
      { must := inRole parts .must, should := inRole parts .should,
        mustNot := inRole parts .mustNot } := rfl

theorem mem_inRole {parts : List (Occur × Expr)} {occur : Occur} {e : Expr} :
    e ∈ inRole parts occur ↔ (occur, e) ∈ parts := by
  simp only [inRole, List.mem_filterMap, Option.ite_none_right_eq_some, Option.some.injEq]
  constructor
  · rintro ⟨_, hmem, rfl, rfl⟩
    exact hmem
  · intro hmem
    exact ⟨_, hmem, rfl, rfl⟩

theorem inRole_eq_nil {parts : List (Occur × Expr)} {occur : Occur} :
    inRole parts occur = [] ↔ ¬ ∃ part ∈ parts, part.1 = occur := by
  simp only [inRole, List.filterMap_eq_nil_iff, ite_eq_right_iff, reduceCtorEq, imp_false,
    not_exists, not_and]

/-- Parts put together by their roles say what their verdicts come to. -/
theorem holds_ofParts (parts : List (Occur × Expr)) :
    (Clauses.ofParts parts).toExpr?.map (·.holds leaf) =
      if parts.isEmpty then none
      else some (combine (parts.map fun part => (part.1, part.2.holds leaf))) := by
  have hall (occur : Occur) (p : Expr → Prop) :
      (∀ e ∈ inRole parts occur, p e) ↔ ∀ part ∈ parts, part.1 = occur → p part.2 := by
    simp only [mem_inRole]
    constructor
    · rintro h ⟨_, e⟩ hmem rfl
      exact h e hmem
    · intro h e hmem
      exact h _ hmem rfl
  have hany (occur : Occur) (p : Expr → Prop) :
      (∃ e ∈ inRole parts occur, p e) ↔ ∃ part ∈ parts, part.1 = occur ∧ p part.2 := by
    simp only [mem_inRole]
    constructor
    · rintro ⟨e, hmem, hp⟩
      exact ⟨_, hmem, rfl, hp⟩
    · rintro ⟨⟨_, e⟩, hmem, rfl, hp⟩
      exact ⟨e, hmem, hp⟩
  have hcombine : (Expr.bool (Clauses.ofParts parts)).holds leaf =
      combine (parts.map fun part => (part.1, part.2.holds leaf)) := by
    rw [Bool.eq_iff_iff, Expr.holds_bool, combine_map_iff, imp_iff_not_or]
    simp only [ofParts_eq, hall, hany, inRole_eq_nil, ne_eq, not_not, not_true_eq_false,
      false_or, List.not_mem_nil, false_imp_iff, implies_true, true_and]
  rw [holds_toExpr? leaf _ rfl, isEmpty_ofParts, hcombine]

end Grouping

namespace Node

variable {settings : Settings} {negated required : Bool}

/-- A clause that stands in required clauses only stands under no exclusion
either: what the flags of a combination promise holds for its clauses. -/
private theorem flags_clause (h : required → negated = false) (c : Clause Node) :
    (required && c.occur == .must) → (negated ^^ (c.occur == .mustNot)) = false := by
  intro hflags
  obtain ⟨hreq, hmust⟩ := Bool.and_eq_true_iff.mp hflags
  rw [h hreq, beq_iff_eq.mp hmust]
  rfl

/-- The compiled expression holds exactly when the text tree is satisfied, and
there is none exactly when there is no text. -/
theorem holds_compile (leaf : Expr → Bool) (node : Node) (h : required → negated = false) :
    (node.compile settings negated required).1.map (·.holds leaf) =
      (node.textTree required).map (·.satisfied settings leaf) := by
  induction node using Node.induction generalizing negated required with
  | boolean span clauses ih =>
      have hverdicts :
          (compileClauses settings negated required clauses).1.map
              (fun part => (part.1, part.2.holds leaf)) =
            verdicts settings leaf (textClauses required clauses) := by
        rw [parts_compileClauses, verdicts_eq_map, textClauses_eq_flatMap, List.map_flatMap,
          List.map_flatMap]
        refine List.flatMap_congr fun c hc => ?_
        have hc' := congrArg (fun o => o.toList.map (c.occur, ·)) (ih c hc (flags_clause h c))
        simpa only [Clause.compile, Option.toList_map, List.map_map, Function.comp_def] using hc'
      have hnone : (compileClauses settings negated required clauses).1 = [] ↔
          textClauses required clauses = [] := by
        have hlength := congrArg List.length hverdicts
        rw [verdicts_eq_map, List.length_map, List.length_map] at hlength
        rw [← List.length_eq_zero_iff, hlength, List.length_eq_zero_iff]
      rw [compile_boolean, holds_ofParts, hverdicts, textTree]
      split
      · next hempty => rw [hnone.mp (List.isEmpty_iff.mp hempty)]; rfl
      · next hpresent =>
          split
          · next hnil => exact absurd (List.isEmpty_iff.mpr (hnone.mpr hnil)) hpresent
          · rfl
  | negated span operator child ih =>
      have hchild := @ih (!negated) false (by simp)
      have hnot (e : Expr) : e.not.holds leaf = !e.holds leaf := by
        rw [Bool.eq_iff_iff, Expr.holds_not, Bool.not_eq_true, Bool.not_eq_true']
      calc
        ((child.compile settings (!negated) false).1.map Expr.not).map (·.holds leaf) =
            ((child.compile settings (!negated) false).1.map (·.holds leaf)).map (!·) := by
              simp only [Option.map_map, Function.comp_def, hnot]
        _ = ((child.textTree false).map (·.satisfied settings leaf)).map (!·) := by rw [hchild]
        _ = ((child.textTree false).map (Node.negated span operator)).map
              (Node.satisfied settings leaf) := by
              simp only [Option.map_map, Function.comp_def, satisfied]
  | phrasePrefix span text =>
      cases required with
      | false => rfl
      | true =>
          rw [h rfl]
          rfl
  | words span text => rfl
  | phrase span text slop stem => rfl
  | wordPrefix span text => rfl
  | fuzzy span text distance => rfl
  | wildcard span text => rfl
  | empty span => rfl
  | keyword occurrence feature => rfl

/-- The compiled expression demands what the text tree demands. -/
theorem demand_compile (leaf : Expr → Bool) (node : Node) (h : required → negated = false) :
    (∀ e ∈ (node.compile settings negated required).1, e.holds leaf) ↔
      ∀ t ∈ node.textTree required, t.satisfied settings leaf := by
  have hholds := @holds_compile settings _ _ leaf node h
  cases hexpr : (node.compile settings negated required).1 with
  | none =>
      cases htree : node.textTree required with
      | none => simp
      | some t => simp [hexpr, htree] at hholds
  | some e =>
      cases htree : node.textTree required with
      | none => simp [hexpr, htree] at hholds
      | some t =>
          rw [hexpr, htree, Option.map_some, Option.map_some, Option.some.injEq] at hholds
          simp [hholds]

/-- The filters of the keywords in a tree: those that stand under an even
number of exclusions are required, the others excluded. -/
theorem mem_filtersAt_compile (node : Node) (odd : Bool) (e : Expr) :
    e ∈ (node.compile settings negated required).2.filtersAt odd ↔
      ∃ occurrence feature, node.Occurs (negated ^^ odd) (.keyword occurrence feature) ∧
        e ∈ feature.filter occurrence settings := by
  have none_of_leaf (root : Node) (hboolean : ∀ span clauses, root ≠ .boolean span clauses)
      (hnegated : ∀ span operator child, root ≠ .negated span operator child)
      (hkeyword : ∀ occurrence feature, root ≠ .keyword occurrence feature) {odd : Bool} :
      ¬ ∃ occurrence feature, root.Occurs odd (.keyword occurrence feature) ∧
        e ∈ feature.filter occurrence settings := by
    rintro ⟨occurrence, feature, hoccurs, _⟩
    exact hkeyword _ _ ((occurs_self hboolean hnegated).mp hoccurs).2.symm
  induction node using Node.induction generalizing negated required with
  | boolean span clauses ih =>
      rw [compile_boolean, yield_compileClauses settings negated required (·.filtersAt odd)
        (by cases odd <;> rfl) (fun _ _ => by cases odd <;> rfl), List.mem_flatMap]
      simp only [occurs_boolean, reduceCtorEq, and_false, false_or]
      have hodd (c : Clause Node) : ((negated ^^ (c.occur == .mustNot)) ^^ odd) =
          ((negated ^^ odd) ^^ (c.occur == .mustNot)) := Bool.xor_right_comm _ _ _
      constructor
      · rintro ⟨c, hc, hmem⟩
        obtain ⟨occurrence, feature, hoccurs, he⟩ := (ih c hc).mp hmem
        exact ⟨occurrence, feature, ⟨c, hc, hodd c ▸ hoccurs⟩, he⟩
      · rintro ⟨occurrence, feature, ⟨c, hc, hoccurs⟩, he⟩
        exact ⟨c, hc, (ih c hc).mpr ⟨occurrence, feature, (hodd c).symm ▸ hoccurs, he⟩⟩
  | negated span operator child ih =>
      simp only [occurs_negated, reduceCtorEq, and_false, false_or, ← Bool.not_xor]
      exact ih
  | keyword occurrence feature =>
      have hkeyword (k : Keyword) (f : Feature) :
          (Node.keyword occurrence feature).Occurs (negated ^^ odd) (.keyword k f) ↔
            (negated ^^ odd) = false ∧ k = occurrence ∧ f = feature := by
        rw [occurs_self (by simp) (by simp), Node.keyword.injEq]
      simp only [hkeyword]
      cases negated <;> cases odd <;> simp [compile, Yield.filtersAt]
  | phrasePrefix span text =>
      refine iff_of_false ?_ (none_of_leaf _ (by simp) (by simp) (by simp))
      rw [compile]
      split <;> cases odd <;> exact List.not_mem_nil
  | words | phrase | wordPrefix | fuzzy | wildcard | empty =>
      refine iff_of_false ?_ (none_of_leaf _ (by simp) (by simp) (by simp))
      cases odd <;> exact List.not_mem_nil

/-- What is taken out of a tree are the phrase prefixes that it requires. -/
theorem mem_lifted_compile (node : Node) (h : required → negated = false) (e : Expr) :
    e ∈ (node.compile settings negated required).2.lifted ↔
      required ∧ ∃ span text, node.Requires (.phrasePrefix span text) ∧
        e = .phrasePrefix settings.titleField text := by
  induction node using Node.induction generalizing negated required with
  | boolean span clauses ih =>
      rw [compile_boolean, yield_compileClauses settings negated required (·.lifted) rfl
        (fun _ _ => rfl), List.mem_flatMap]
      simp only [requires_boolean, reduceCtorEq, false_or]
      constructor
      · rintro ⟨c, hc, hmem⟩
        obtain ⟨hreq, prefixSpan, text, hrequires, he⟩ := (ih c hc (flags_clause h c)).mp hmem
        obtain ⟨hreq, hmust⟩ := Bool.and_eq_true_iff.mp hreq
        exact ⟨hreq, prefixSpan, text, ⟨c, hc, beq_iff_eq.mp hmust, hrequires⟩, he⟩
      · rintro ⟨hreq, prefixSpan, text, ⟨c, hc, hmust, hrequires⟩, he⟩
        refine ⟨c, hc, (ih c hc (flags_clause h c)).mpr ⟨?_, prefixSpan, text, hrequires, he⟩⟩
        rw [hreq, hmust]
        rfl
  | negated span operator child ih =>
      have hchild := @ih (!negated) false (by simp)
      simp only [Bool.false_eq_true, false_and, iff_false] at hchild
      refine iff_of_false hchild ?_
      rintro ⟨_, _, _, hrequires, _⟩
      cases (requires_self (by simp)).mp hrequires
  | phrasePrefix span text =>
      have hself (prefixSpan : Span) (prefixText : String) :
          (Node.phrasePrefix span text).Requires (.phrasePrefix prefixSpan prefixText) ↔
            prefixSpan = span ∧ prefixText = text := by
        rw [requires_self (by simp), Node.phrasePrefix.injEq]
      simp only [hself]
      cases required with
      | false => simp [compile]
      | true => simp [compile, h rfl]
  | words | phrase | wordPrefix | fuzzy | wildcard | empty | keyword =>
      refine iff_of_false List.not_mem_nil ?_
      rintro ⟨_, _, _, hrequires, _⟩
      cases (requires_self (by simp)).mp hrequires

end Node

end SearchCompiler
