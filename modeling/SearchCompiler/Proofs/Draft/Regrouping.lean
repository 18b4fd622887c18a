import SearchCompiler.Classifier.Shape
import SearchCompiler.Proofs.Draft.Lifting
import SearchCompiler.Proofs.Node.Regrouping

/-!
Queries whose trees differ in groupings nobody typed. They leave the same draft,
have the same shape, reach equally far and use the same features. The one thing
that tells them apart is an empty tree: with a grouping around it, it no longer
says that there is nothing to find.
-/

namespace SearchCompiler

/-- The query with another tree. -/
def Query.withRoot (query : Query) (root : Node) : Query :=
  { query with root }

section Visitors

theorem Shape.visitor_ignoresGrouping : Shape.visitor.IgnoresGrouping where
  boolean _ _ _ := rfl
  empty _ _ := rfl
  implicit c s hexplicit hoccur := by simp [Shape.visitor, hexplicit, hoccur]
  clause _ _ _ _ _ := rfl
  negated _ _ _ _ _ := rfl

/-- A visitor that looks at keywords alone. -/
theorem Visitor.ignoresGrouping_of_keyword {σ : Type} (keyword : Keyword → Feature → σ → σ) :
    ({ keyword } : Visitor σ).IgnoresGrouping where
  boolean _ _ _ := rfl
  empty _ _ := rfl
  implicit _ _ _ _ := rfl
  clause _ _ _ _ _ := rfl
  negated _ _ _ _ _ := rfl

end Visitors

section Query

variable {query : Query} {root : Node}

theorem Shape.classify_of_regroups (h : Regroups query.root root) :
    Shape.classify (query.withRoot root) = Shape.classify query := by
  have hshape : Shape.ofNode root = Shape.ofNode query.root :=
    h.walk_eq Shape.visitor_ignoresGrouping _
  simp only [Shape.classify, Query.withRoot, hshape]

theorem Query.reach_of_regroups (h : Regroups query.root root) :
    (query.withRoot root).reach = query.reach :=
  h.walk_eq (Visitor.ignoresGrouping_of_keyword _) _

theorem Query.features_of_regroups (h : Regroups query.root root) :
    (query.withRoot root).features = query.features :=
  h.walk_eq (Visitor.ignoresGrouping_of_keyword _) _

end Query

namespace Draft

variable {query : Query} {root : Node}

/-- A query is accepted for its text, whatever its tree. -/
theorem build_withRoot {draft : Draft} {logged : Bool} {after : Draft → Draft}
    (h : (draft.announced logged).absorb (query.withRoot root) =
      after ((draft.announced logged).absorb query)) :
    draft.build (query.withRoot root) logged = (draft.build query logged).map after := by
  have htext : (query.withRoot root).rawText = query.rawText := rfl
  rw [build, build, htext, h]
  by_cases hlong : draft.settings.maxLength.toNat < query.rawText.length
  · simp [hlong, Except.map]
  · simp [hlong, Except.map]

/-- Whatever the tree yields is the same; but with a grouping in it the tree is
not empty. -/
theorem absorb_of_regroups (h : Regroups query.root root) (draft : Draft) :
    draft.absorb (query.withRoot root) =
      { draft.absorb query with resultsPossible := draft.resultsPossible } := by
  rw [absorb_eq, absorb_eq]
  simp only [Query.withRoot, h.compile_eq, h.not_isEmpty, Bool.not_false, Bool.and_true]

/-- A tree that is not empty leaves results as possible as they were. -/
theorem resultsPossible_absorb (hroot : query.root.isEmpty = false) (draft : Draft) :
    (draft.absorb query).resultsPossible = draft.resultsPossible := by
  rw [absorb_eq]
  simp [hroot]

/-- Groupings and empty clauses that nobody typed are invisible. Put into a tree
that is not empty, at any place, they change nothing in the outcome of a build
into any draft; put around an empty tree, they keep results as possible as they
were. In either case they change neither the shape of a query nor its reach nor
the features that it uses. -/
theorem build_of_regroups (h : Regroups query.root root) :
    (query.root.isEmpty = false → ∀ (draft : Draft) (logged : Bool),
      draft.build (query.withRoot root) logged = draft.build query logged) ∧
    (query.root.isEmpty = true → ∀ (draft : Draft) (logged : Bool),
      draft.build (query.withRoot root) logged = (draft.build query logged).map fun built =>
        { built with resultsPossible := draft.resultsPossible }) ∧
    Shape.classify (query.withRoot root) = Shape.classify query ∧
    (query.withRoot root).reach = query.reach ∧
    (query.withRoot root).features = query.features := by
  refine ⟨?_, ?_, Shape.classify_of_regroups h, Query.reach_of_regroups h,
    Query.features_of_regroups h⟩
  · intro hroot draft logged
    have hsame : (draft.announced logged).absorb (query.withRoot root) =
        id ((draft.announced logged).absorb query) := by
      rw [absorb_of_regroups h, ← resultsPossible_absorb hroot, id]
    rw [build_withRoot hsame]
    cases draft.build query logged <;> rfl
  · intro _ draft logged
    have hpossible : (draft.announced logged).resultsPossible = draft.resultsPossible := by
      cases logged <;> rfl
    rw [← hpossible]
    exact build_withRoot (absorb_of_regroups h (draft.announced logged))

/-- A phrase prefix in a grouping of its own is taken out of the tree all the
same. -/
theorem build_of_regroups_optionalWord :
    let root : Node := .boolean ⟨0, 16⟩ [
      ⟨.must, true, .boolean ⟨0, 10⟩ [⟨.must, false, .phrasePrefix ⟨0, 10⟩ "red ros"⟩]⟩,
      ⟨.should, false, .words ⟨11, 16⟩ "thorn"⟩]
    let start := fresh {} (ProfileTable.service {})
    Regroups optionalWord.root root ∧
      start.build (optionalWord.withRoot root) false = .ok (start.absorb optionalWord) ∧
      (start.absorb optionalWord).nonTextQueries = [.phrasePrefix "title" "red ros"] ∧
      Shape.classify (optionalWord.withRoot root) = ["complex_query"] := by
  intro root start
  have hroot : Regroups optionalWord.root root :=
    .clause _ .must true [] _ (.group ⟨0, 10⟩ _)
  obtain ⟨hbuild, _, hshape, _⟩ := build_of_regroups hroot
  have haccepted : start.build optionalWord false = .ok (start.absorb optionalWord) :=
    build_eq_absorb (by decide)
  refine ⟨hroot, (hbuild rfl start false).trans haccepted, rfl, ?_⟩
  rw [hshape]
  rfl

end Draft

end SearchCompiler
