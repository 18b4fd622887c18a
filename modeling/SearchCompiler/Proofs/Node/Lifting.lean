import SearchCompiler.Proofs.Node.Compilation

/-!
What taking phrase prefixes out of a tree does to its meaning. The prefixes
are demanded beside the tree, so none of the documents that miss one is
gained. But a combination that had no other must clause is left with its
should clauses alone, and one of them has to match then, where they were
optional before. This is the only difference to leaving the prefixes in place.
-/

namespace SearchCompiler

mutual

/-- Compiles a node and leaves every phrase prefix where it stands. -/
def Node.compileInPlace (settings : Settings) (negated : Bool) : Node → Option Expr × Yield
  | .boolean _ clauses =>
      let (parts, yield) := compileClausesInPlace settings negated clauses
      ((Clauses.ofParts parts).toExpr?, yield)
  | .negated _ _ child =>
      let (expr, yield) := child.compileInPlace settings (!negated)
      (expr.map Expr.not, yield)
  | .words _ text =>
      (some (.allTerms settings.allField text),
        { features := ["full_text"], words := if negated then [] else wordsOf text })
  | .phrase _ text slop stem =>
      let field := if stem then settings.allField else settings.allField ++ ".plain"
      (some (.phrase field text (slop.getD 0)), { features := ["phrase"] })
  | .phrasePrefix _ text =>
      (some (.phrasePrefix settings.titleField text), { features := ["phrase_prefix"] })
  | .wordPrefix _ text =>
      (some (.termPrefix settings.allField text), { features := ["prefix"] })
  | .fuzzy _ text distance =>
      (some (.fuzzy settings.allField text distance), { features := ["fuzzy"] })
  | .wildcard _ text =>
      (some (.wildcard settings.allField text), { features := ["wildcard"] })
  | .keyword occurrence feature =>
      let filter := (feature.filter occurrence settings).toList
      (none,
        { filters := if negated then [] else filter
          notFilters := if negated then filter else []
          features := [feature.nameOf occurrence] })
  | .empty _ => (none, {})

def compileClausesInPlace (settings : Settings) (negated : Bool) :
    List (Clause Node) → List (Occur × Expr) × Yield
  | [] => ([], {})
  | ⟨occur, _, node⟩ :: rest =>
      let (expr, yield) := node.compileInPlace settings (negated ^^ (occur == .mustNot))
      let (parts, yields) := compileClausesInPlace settings negated rest
      (expr.toList.map (occur, ·) ++ parts, yield ++ yields)

end

namespace Node

/-- Nothing is taken out of a tree that is not required. -/
theorem compileInPlace_eq (settings : Settings) (negated : Bool) (node : Node) :
    node.compileInPlace settings negated = node.compile settings negated false := by
  induction node using Node.induction generalizing negated with
  | boolean span clauses ih =>
      have hclauses (rest : List (Clause Node)) (hrest : ∀ c ∈ rest, c ∈ clauses) :
          compileClausesInPlace settings negated rest =
            compileClauses settings negated false rest := by
        induction rest with
        | nil => rfl
        | cons c rest hind =>
            have hnode := ih c (hrest c List.mem_cons_self) (negated ^^ (c.occur == .mustNot))
            have htail := hind fun d hd => hrest d (List.mem_cons_of_mem c hd)
            rw [compileClausesInPlace, compileClauses, hnode, htail, Bool.false_and]
      rw [compileInPlace, compile, hclauses clauses fun _ hc => hc]
  | negated span operator child ih => rw [compileInPlace, compile, ih]
  | phrasePrefix span text => rfl
  | words | phrase | wordPrefix | fuzzy | wildcard | empty | keyword => rfl

/-- Text that is left when phrase prefixes are taken out is left when they
stay. -/
theorem isSome_textTree {node : Node} (h : (node.textTree true).isSome) :
    (node.textTree false).isSome := by
  induction node using Node.induction with
  | boolean span clauses ih =>
      obtain ⟨c, hc, hleft⟩ := (isSome_boolean true span clauses).mp h
      refine (isSome_boolean false span clauses).mpr ⟨c, hc, ?_⟩
      cases hmust : c.occur == .must with
      | true => exact ih c hc (by simpa [hmust] using hleft)
      | false => simpa [hmust] using hleft
  | phrasePrefix span text => rfl
  | negated | words | phrase | wordPrefix | fuzzy | wildcard | empty | keyword => exact h

end Node

/-- A combination whose must clauses all go when phrase prefixes are taken
out, though not when they stay. -/
structure Exposed (clauses : List (Clause Node)) : Prop where
  inPlace : HasText false .must clauses
  takenOut : ¬ HasText true .must clauses

/-- The only difference between the two readings of a combination. -/
theorem hasText_must_iff (p : Prop) (clauses : List (Clause Node)) :
    HasText true .must clauses ∨ p ↔
      (HasText false .must clauses ∨ p) ∧ (Exposed clauses → p) := by
  have hkept : HasText true .must clauses → HasText false .must clauses := by
    rintro ⟨c, hc, hmust, hleft⟩
    exact ⟨c, hc, hmust, Node.isSome_textTree hleft⟩
  constructor
  · rintro (htext | hp)
    · exact ⟨.inl (hkept htext), fun hexposed => absurd htext hexposed.takenOut⟩
    · exact ⟨.inr hp, fun _ => hp⟩
  · rintro ⟨htext | hp, hexposed⟩
    · by_cases htaken : HasText true .must clauses
      · exact .inl htaken
      · exact .inr (hexposed ⟨htext, htaken⟩)
    · exact .inr hp

namespace Node

/-- A document has the text and the required phrase prefixes of a tree, read
apart, when it has the text of the tree as it stands and, besides, matches a
should clause of every exposed combination that is required. -/
theorem satisfied_takenOut_iff (settings : Settings) (leaf : Expr → Bool) (node : Node) :
    ((∀ t ∈ node.textTree true, t.satisfied settings leaf) ∧
      ∀ span text, node.Requires (.phrasePrefix span text) →
        leaf (.phrasePrefix settings.titleField text)) ↔
    (∀ t ∈ node.textTree false, t.satisfied settings leaf) ∧
      ∀ span clauses, node.Requires (.boolean span clauses) → Exposed clauses →
        MeetsShould settings leaf clauses := by
  induction node using Node.induction with
  | boolean span clauses ih =>
      have hprefixes : (∀ prefixSpan text,
          (Node.boolean span clauses).Requires (.phrasePrefix prefixSpan text) →
            leaf (.phrasePrefix settings.titleField text)) ↔
          ∀ c ∈ clauses, c.occur = .must → ∀ prefixSpan text,
            c.node.Requires (.phrasePrefix prefixSpan text) →
              leaf (.phrasePrefix settings.titleField text) := by
        simp only [requires_boolean, reduceCtorEq, false_or]
        constructor
        · intro h c hc hmust prefixSpan text hrequires
          exact h prefixSpan text ⟨c, hc, hmust, hrequires⟩
        · rintro h prefixSpan text ⟨c, hc, hmust, hrequires⟩
          exact h c hc hmust prefixSpan text hrequires
      have hexposed : (∀ innerSpan inner,
          (Node.boolean span clauses).Requires (.boolean innerSpan inner) → Exposed inner →
            MeetsShould settings leaf inner) ↔
          (Exposed clauses → MeetsShould settings leaf clauses) ∧
          ∀ c ∈ clauses, c.occur = .must → ∀ innerSpan inner,
            c.node.Requires (.boolean innerSpan inner) → Exposed inner →
              MeetsShould settings leaf inner := by
        simp only [requires_boolean, Node.boolean.injEq]
        constructor
        · intro h
          refine ⟨h span clauses (.inl ⟨rfl, rfl⟩), ?_⟩
          intro c hc hmust innerSpan inner hrequires
          exact h innerSpan inner (.inr ⟨c, hc, hmust, hrequires⟩)
        · rintro ⟨hself, hclauses⟩ innerSpan inner (⟨rfl, rfl⟩ | ⟨c, hc, hmust, hrequires⟩)
          · exact hself
          · exact hclauses c hc hmust innerSpan inner hrequires
      rw [satisfied_boolean, satisfied_boolean, hprefixes, hexposed, hasText_must_iff]
      constructor
      · rintro ⟨⟨hmust, hmustNot, hshould, hself⟩, hprefix⟩
        have hclauses (c) (hc : c ∈ clauses) (hrole : c.occur = .must) :=
          (ih c hc).mp ⟨hmust c hc hrole, hprefix c hc hrole⟩
        exact ⟨⟨fun c hc hrole => (hclauses c hc hrole).1, hmustNot, hshould⟩, hself,
          fun c hc hrole => (hclauses c hc hrole).2⟩
      · rintro ⟨⟨hmust, hmustNot, hshould⟩, hself, hexposed⟩
        have hclauses (c) (hc : c ∈ clauses) (hrole : c.occur = .must) :=
          (ih c hc).mpr ⟨hmust c hc hrole, hexposed c hc hrole⟩
        exact ⟨⟨fun c hc hrole => (hclauses c hc hrole).1, hmustNot, hshould, hself⟩,
          fun c hc hrole => (hclauses c hc hrole).2⟩
  | phrasePrefix span text => simp [requires_self, textTree, satisfied]
  | words | phrase | wordPrefix | fuzzy | wildcard | empty | keyword | negated =>
      simp [requires_self, textTree]

end Node

end SearchCompiler
