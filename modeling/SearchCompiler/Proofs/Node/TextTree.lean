import Mathlib.Logic.Basic
import SearchCompiler.Proofs.Expr.Truth
import SearchCompiler.Proofs.Node.Occurrence
import SearchCompiler.Settings

/-!
The text that a tree searches for. Keywords, empty nodes and the phrase
prefixes that are demanded beside the tree say nothing about the text; a
combination or negation of nothing but these goes with them. What is left is
read clause by clause, and the should clauses of a combination are required
when none of its must clauses is left.
-/

namespace SearchCompiler

mutual

/-- The tree without the nodes that search for no text, if anything is left.
In required clauses phrase prefixes are taken out too. -/
def Node.textTree (required : Bool) : Node → Option Node
  | .boolean span clauses =>
      match textClauses required clauses with
      | [] => none
      | kept => some (.boolean span kept)
  | .negated span operator child => (child.textTree false).map (.negated span operator)
  | .phrasePrefix span text => if required then none else some (.phrasePrefix span text)
  | .keyword .. | .empty _ => none
  | .words span text => some (.words span text)
  | .phrase span text slop stem => some (.phrase span text slop stem)
  | .wordPrefix span text => some (.wordPrefix span text)
  | .fuzzy span text distance => some (.fuzzy span text distance)
  | .wildcard span text => some (.wildcard span text)

def textClauses (required : Bool) : List (Clause Node) → List (Clause Node)
  | [] => []
  | ⟨occur, explicit, node⟩ :: rest =>
      ((node.textTree (required && occur == .must)).toList.map fun kept =>
        ⟨occur, explicit, kept⟩) ++ textClauses required rest

end

/-- How the verdicts on the clauses of a combination come together. -/
def combine (verdicts : List (Occur × Bool)) : Bool :=
  verdicts.all (fun v => v.1 != .must || v.2)
    && verdicts.all (fun v => v.1 != .mustNot || !v.2)
    && (!verdicts.any (·.1 == .should) || verdicts.any (·.1 == .must)
      || verdicts.any (fun v => v.1 == .should && v.2))

mutual

/-- Whether a document has the text that a tree searches for. -/
def Node.satisfied (settings : Settings) (leaf : Expr → Bool) : Node → Bool
  | .boolean _ clauses => combine (verdicts settings leaf clauses)
  | .negated _ _ child => !child.satisfied settings leaf
  | .words _ text => leaf (.allTerms settings.allField text)
  | .phrase _ text slop stem =>
      leaf (.phrase (if stem then settings.allField else settings.allField ++ ".plain") text
        (slop.getD 0))
  | .phrasePrefix _ text => leaf (.phrasePrefix settings.titleField text)
  | .wordPrefix _ text => leaf (.termPrefix settings.allField text)
  | .fuzzy _ text distance => leaf (.fuzzy settings.allField text distance)
  | .wildcard _ text => leaf (.wildcard settings.allField text)
  | .keyword .. | .empty _ => true

def verdicts (settings : Settings) (leaf : Expr → Bool) :
    List (Clause Node) → List (Occur × Bool)
  | [] => []
  | ⟨occur, _, node⟩ :: rest =>
      (occur, node.satisfied settings leaf) :: verdicts settings leaf rest

end

theorem textClauses_eq_flatMap (required : Bool) (clauses : List (Clause Node)) :
    textClauses required clauses = clauses.flatMap fun c =>
      (c.node.textTree (required && c.occur == .must)).toList.map fun kept =>
        { c with node := kept } := by
  induction clauses with
  | nil => rfl
  | cons c rest ih => rw [textClauses, ih, List.flatMap_cons]

theorem verdicts_eq_map (settings : Settings) (leaf : Expr → Bool) (clauses : List (Clause Node)) :
    verdicts settings leaf clauses =
      clauses.map fun c => (c.occur, c.node.satisfied settings leaf) := by
  induction clauses with
  | nil => rfl
  | cons c rest ih => rw [verdicts, ih, List.map_cons]

/-- A combination is satisfied when every must clause is, no must-not clause
is, and, if there are should clauses but no must clause, one of them is. -/
theorem combine_map_iff {α : Type} (xs : List α) (occur : α → Occur) (verdict : α → Bool) :
    combine (xs.map fun x => (occur x, verdict x)) ↔
      (∀ x ∈ xs, occur x = .must → verdict x) ∧
      (∀ x ∈ xs, occur x = .mustNot → ¬ verdict x) ∧
      ((∃ x ∈ xs, occur x = .should) →
        (∃ x ∈ xs, occur x = .must) ∨ ∃ x ∈ xs, occur x = .should ∧ verdict x) := by
  rw [combine, Bool.and_eq_true, Bool.and_eq_true, and_assoc]
  simp only [List.all_map, List.any_map]
  refine and_congr ?_ (and_congr ?_ ?_)
  · simp [imp_iff_not_or]
  · simp [imp_iff_not_or]
  · rw [imp_iff_not_or, Bool.or_eq_true, Bool.or_eq_true, or_assoc, Bool.not_eq_true',
      ← Bool.not_eq_true]
    simp only [List.any_eq_true, Function.comp_apply, beq_iff_eq, Bool.and_eq_true]

/-- What is left of the clauses of a combination, one by one. -/
theorem mem_textClauses (required : Bool) (clauses : List (Clause Node)) (kept : Clause Node) :
    kept ∈ textClauses required clauses ↔
      ∃ c ∈ clauses, ∃ t ∈ c.node.textTree (required && c.occur == .must),
        kept = { c with node := t } := by
  rw [textClauses_eq_flatMap]
  simp only [List.mem_flatMap, List.mem_map, Option.mem_toList, eq_comm, Option.mem_def]

theorem isSome_boolean (required : Bool) (span : Span) (clauses : List (Clause Node)) :
    ((Node.boolean span clauses).textTree required).isSome ↔
      ∃ c ∈ clauses, (c.node.textTree (required && c.occur == .must)).isSome := by
  have hleft : ((Node.boolean span clauses).textTree required).isSome ↔
      ∃ kept, kept ∈ textClauses required clauses := by
    rw [Node.textTree]
    split
    · next hnil => simp [hnil]
    · next hleft => simpa using List.exists_mem_of_ne_nil _ hleft
  simp only [hleft, mem_textClauses, Option.isSome_iff_exists]
  constructor
  · rintro ⟨_, c, hc, t, ht, rfl⟩
    exact ⟨c, hc, t, ht⟩
  · rintro ⟨c, hc, t, ht⟩
    exact ⟨_, c, hc, t, ht, rfl⟩

/-- Some clause of a role has text left. -/
def HasText (required : Bool) (occur : Occur) (clauses : List (Clause Node)) : Prop :=
  ∃ c ∈ clauses, c.occur = occur ∧ (c.node.textTree required).isSome

/-- One of the should clauses is satisfied, if there are any. -/
def MeetsShould (settings : Settings) (leaf : Expr → Bool) (clauses : List (Clause Node)) : Prop :=
  HasText false .should clauses →
    ∃ c ∈ clauses, c.occur = .should ∧ ∃ t ∈ c.node.textTree false, t.satisfied settings leaf

/-- What is left of a combination is satisfied when the texts of its clauses
are, each in its role. -/
theorem satisfied_boolean (settings : Settings) (leaf : Expr → Bool) (required : Bool)
    (span : Span) (clauses : List (Clause Node)) :
    (∀ t ∈ (Node.boolean span clauses).textTree required, t.satisfied settings leaf) ↔
      (∀ c ∈ clauses, c.occur = .must →
        ∀ t ∈ c.node.textTree required, t.satisfied settings leaf) ∧
      (∀ c ∈ clauses, c.occur = .mustNot →
        ∀ t ∈ c.node.textTree false, ¬ t.satisfied settings leaf) ∧
      (HasText required .must clauses ∨ MeetsShould settings leaf clauses) := by
  have hverdicts : (∀ t ∈ (Node.boolean span clauses).textTree required,
      t.satisfied settings leaf) ↔
      combine (verdicts settings leaf (textClauses required clauses)) := by
    rw [Node.textTree]
    split
    · next hnil => simp [hnil, verdicts, combine]
    · simp [Node.satisfied]
  have hflag (c : Clause Node) (occur : Occur) (hoccur : c.occur = occur) :
      (required && c.occur == .must) = (required && occur == .must) := by
    rw [hoccur]
  have hall (occur : Occur) (p : Node → Prop) :
      (∀ kept ∈ textClauses required clauses, kept.occur = occur → p kept.node) ↔
        ∀ c ∈ clauses, c.occur = occur →
          ∀ t ∈ c.node.textTree (required && occur == .must), p t := by
    simp only [mem_textClauses]
    constructor
    · intro h c hc hoccur t ht
      exact h _ ⟨c, hc, t, hflag c occur hoccur ▸ ht, rfl⟩ hoccur
    · rintro h _ ⟨c, hc, t, ht, rfl⟩ hoccur
      exact h c hc hoccur t (hflag c occur hoccur ▸ ht)
  have hany (occur : Occur) (p : Node → Prop) :
      (∃ kept ∈ textClauses required clauses, kept.occur = occur ∧ p kept.node) ↔
        ∃ c ∈ clauses, c.occur = occur ∧
          ∃ t ∈ c.node.textTree (required && occur == .must), p t := by
    simp only [mem_textClauses]
    constructor
    · rintro ⟨_, ⟨c, hc, t, ht, rfl⟩, hoccur, hp⟩
      exact ⟨c, hc, hoccur, t, hflag c occur hoccur ▸ ht, hp⟩
    · rintro ⟨c, hc, hoccur, t, ht, hp⟩
      exact ⟨_, ⟨c, hc, t, hflag c occur hoccur ▸ ht, rfl⟩, hoccur, hp⟩
  have hpresent (occur : Occur) :
      (∃ kept ∈ textClauses required clauses, kept.occur = occur) ↔
        HasText (required && occur == .must) occur clauses := by
    have h := hany occur fun _ => True
    simpa [HasText, Option.isSome_iff_exists] using h
  have hmust : (required && Occur.must == .must) = required := Bool.and_true required
  have hmustNot : (required && Occur.mustNot == .must) = false := Bool.and_false required
  have hshould : (required && Occur.should == .must) = false := Bool.and_false required
  rw [hverdicts, verdicts_eq_map, combine_map_iff, hall .must (·.satisfied settings leaf),
    hall .mustNot (¬ ·.satisfied settings leaf), hany .should (·.satisfied settings leaf),
    hpresent, hpresent, hmust, hmustNot, hshould, MeetsShould]
  refine and_congr_right' (and_congr_right' ?_)
  rw [imp_iff_not_or, or_left_comm, ← imp_iff_not_or]

end SearchCompiler
