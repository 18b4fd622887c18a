import SearchCompiler.Proofs.Draft.Meaning
import SearchCompiler.Proofs.Node.Lifting

/-!
Required phrase prefixes are queries beside the text. A query that keeps them
in its text is put into a draft of its own here, and the two are compared.
They differ only where the prefixes were all that was required of a
combination: its should clauses are then the whole text left, so that one of
them has to match.
-/

namespace SearchCompiler

namespace Draft

/-- Puts a query into a draft whatever its length, with every phrase prefix
left in the text. -/
def absorbInPlace (draft : Draft) (query : Query) : Draft :=
  (query.changesFor draft.settings (query.root.compileInPlace draft.settings false)).foldl apply
    draft

/-- Puts a query into a draft with every phrase prefix left in the text. -/
def buildInPlace (draft : Draft) (query : Query) : Except QueryError Draft :=
  let length := query.rawText.length
  let limit := draft.settings.maxLength.toNat
  if limit < length then .error (.tooLong length limit) else .ok (draft.absorbInPlace query)

/-- Both ways accept a query that is short enough. -/
theorem build_and_buildInPlace {draft : Draft} {query : Query}
    (hlength : query.rawText.length ≤ draft.settings.maxLength.toNat) :
    draft.build query false = .ok (draft.absorb query) ∧
      draft.buildInPlace query = .ok (draft.absorbInPlace query) :=
  ⟨build_eq_absorb hlength, if_neg (Nat.not_lt.mpr hlength)⟩

/-- A document matches a query when it matches the one that keeps its phrase
prefixes in the text and, besides, a should clause of every required
combination that loses its must clauses with them. -/
theorem holds_build_iff_inPlace (settings : Settings) (profiles : ProfileService) (query : Query)
    (logged : Bool) (draft : Draft)
    (hbuild : (fresh settings profiles).build query logged = .ok draft) :
    ∃ plain, (fresh settings profiles).buildInPlace query = .ok plain ∧
      ∀ leaf, draft.query.holds leaf ↔
        plain.query.holds leaf ∧
          ∀ span clauses, query.root.Requires (.boolean span clauses) → Exposed clauses →
            MeetsShould settings leaf clauses := by
  obtain ⟨hlength, _⟩ := build_eq_ok_iff.mp hbuild
  obtain rfl := eq_absorb_of_build hbuild
  refine ⟨_, (build_and_buildInPlace hlength).2, fun leaf => ?_⟩
  have hsettings : (fresh settings profiles).settings = settings := rfl
  have hlifted := holds_changes_compile settings profiles query true leaf
  have hplain := holds_changes_compile settings profiles query false leaf
  rw [forall_prop_of_true rfl, ← and_assoc, Node.satisfied_takenOut_iff] at hlifted
  rw [forall_prop_of_false Bool.false_ne_true, true_and] at hplain
  change ((fresh settings profiles).absorb query).query.holds leaf ↔ _
  rw [absorb, Query.changes, absorbInPlace, hsettings, Node.compileInPlace_eq, hlifted, hplain,
    and_right_comm]

/-- A required phrase prefix beside a word that may match. -/
def optionalWord : Query where
  root := .boolean ⟨0, 16⟩ [
    ⟨.must, true, .phrasePrefix ⟨0, 10⟩ "red ros"⟩,
    ⟨.should, false, .words ⟨11, 16⟩ "thorn"⟩]
  text := "\"red ros*\" thorn"
  rawText := "\"red ros*\" thorn"
  cleanups := []
  warnings := []
  namespaces := .unspecified
  changed := fun h => absurd rfl h

/-- The word does not have to match as long as the prefix stays in the text. -/
theorem holds_build_iff_inPlace_optionalWord :
    let start := fresh {} (ProfileTable.service {})
    start.build optionalWord false = .ok (start.absorb optionalWord) ∧
      ∃ plain, start.buildInPlace optionalWord = .ok plain ∧
        ∀ leaf, (start.absorb optionalWord).query.holds leaf ↔
          plain.query.holds leaf ∧ leaf (.allTerms "all" "thorn") := by
  intro start
  have hlength : optionalWord.rawText.length ≤ start.settings.maxLength.toNat := by decide
  have hbuild := (build_and_buildInPlace hlength).1
  obtain ⟨plain, hplain, hiff⟩ :=
    holds_build_iff_inPlace {} (ProfileTable.service {}) optionalWord _ _ hbuild
  refine ⟨hbuild, plain, hplain, fun leaf => ?_⟩
  rw [hiff]
  refine and_congr_right' ?_
  constructor
  · intro h
    simpa [MeetsShould, HasText, optionalWord, Node.textTree, Node.satisfied] using
      h _ _ (.root _) ⟨by simp [HasText, Node.textTree], by simp [HasText, Node.textTree]⟩
  · intro hword span clauses hrequires _ _
    obtain ⟨rfl, rfl⟩ : span = ⟨0, 16⟩ ∧ clauses = _ := by
      simpa [optionalWord, Node.requires_boolean, Node.requires_self] using hrequires
    simpa [Node.textTree, Node.satisfied] using hword

/-- A page that has the title but not the word. -/
def prefixOnly : Expr → Bool
  | .phrasePrefix .. => true
  | _ => false

/-- Taking the prefix out loses the documents without the word. -/
theorem not_holds_build_iff_inPlace :
    ¬ ∀ settings profiles query lifted plain leaf,
      (fresh settings profiles).build query false = .ok lifted →
      (fresh settings profiles).buildInPlace query = .ok plain →
      (lifted.query.holds leaf ↔ plain.query.holds leaf) := by
  intro h
  have hlength : optionalWord.rawText.length ≤ ({} : Settings).maxLength.toNat := by decide
  obtain ⟨hbuild, hinPlace⟩ :=
    @build_and_buildInPlace (fresh {} (ProfileTable.service {})) optionalWord hlength
  have hiff := h {} (ProfileTable.service {}) optionalWord _ _ prefixOnly hbuild hinPlace
  have hlifted : ¬ ((fresh {} (ProfileTable.service {})).absorb optionalWord).query.holds
      prefixOnly := by decide +kernel
  have hplain : ((fresh {} (ProfileTable.service {})).absorbInPlace optionalWord).query.holds
      prefixOnly := by decide +kernel
  exact hlifted (hiff.mpr hplain)

end Draft

end SearchCompiler
