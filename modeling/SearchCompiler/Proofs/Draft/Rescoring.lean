import SearchCompiler.Proofs.Draft.Merge
import SearchCompiler.Proofs.Node.Yields
import SearchCompiler.Proofs.Text.Splitting

/-!
The phrase that results are rescored with. It is made of the words that the
query searches for, those that it excludes left out, and it is made only if there
are several. Since words have no blanks in them, nothing is lost when they are
put side by side: the phrase can be taken apart again.
-/

namespace SearchCompiler

theorem Node.isWord_of_mem_positiveWords {root : Node} {word : String}
    (h : word ∈ root.positiveWords) : IsWord word.toList := by
  obtain ⟨_, _, _, _, _, hword⟩ := Node.mem_positiveWords.mp h
  exact isWord_of_mem_wordsOf hword

namespace Draft

/-- After a build into a fresh draft there is a phrase to rescore with exactly
when the tree has two words or more that are not excluded. It is searched for in
the field for all text, with the slop of the settings, and its words are those
words, in the order of the text: each stands somewhere under an even number of
exclusions. -/
theorem build_rescores (settings : Settings) (profiles : ProfileService) (query : Query)
    (logged : Bool) (draft : Draft)
    (hbuild : (fresh settings profiles).build query logged = .ok draft) :
    (draft.phraseRescoreQuery.isSome ↔ 2 ≤ query.root.positiveWords.length) ∧
      ∀ phrase, draft.phraseRescoreQuery = some phrase →
        ∃ text, phrase = .phrase settings.allField text settings.phraseSlop ∧
          wordsOf text = query.root.positiveWords ∧
          ∀ word ∈ wordsOf text, ∃ spot ∈ query.root.spots, spot.odd = false ∧
            ∃ source, spot.leaf.words? = some source ∧ word ∈ wordsOf source := by
  obtain rfl := eq_absorb_of_build hbuild
  have hphrase : ((fresh settings profiles).absorb query).phraseRescoreQuery =
      if 1 < query.root.positiveWords.length then
        some (.phrase settings.allField (joinWords query.root.positiveWords) settings.phraseSlop)
      else none := by
    rw [absorb_fresh, ← query.root.words_root settings]
    rfl
  have hwords : wordsOf (joinWords query.root.positiveWords) = query.root.positiveWords :=
    wordsOf_joinWords fun _ => Node.isWord_of_mem_positiveWords
  rw [hphrase]
  split
  · next hseveral =>
      refine ⟨iff_of_true rfl hseveral, ?_⟩
      intro phrase heq
      obtain rfl := Option.some.inj heq
      refine ⟨_, rfl, hwords, ?_⟩
      rw [hwords]
      exact fun word => Node.mem_positiveWords.mp
  · next hfew => exact ⟨iff_of_false Bool.false_ne_true hfew, fun _ heq => nomatch heq⟩

/-- Words between blanks of several kinds, some of them excluded, some excluded
twice. -/
def wordyTree : Node :=
  .boolean ⟨0, 44⟩ [
    ⟨.must, false, .words ⟨0, 8⟩ "red\u00a0rose"⟩,
    ⟨.mustNot, true, .words ⟨10, 19⟩ "thorn red"⟩,
    ⟨.mustNot, true, .boolean ⟨21, 38⟩ [
      ⟨.should, false, .negated ⟨22, 37⟩ "-" (.words ⟨23, 37⟩ " of the\u3000garden")⟩]⟩,
    ⟨.should, false, .words ⟨39, 44⟩ "white"⟩]

/-- The word that stands among the excluded ones, too, is not lost. -/
theorem build_rescores_wordyTree :
    let start := fresh {} (ProfileTable.service {})
    let query := Query.typed wordyTree "red\u00a0rose -thorn red -(- of the\u3000garden) white"
    let draft := start.absorb query
    start.build query false = .ok draft ∧
      ∃ text, draft.phraseRescoreQuery = some (.phrase "all" text 1) ∧
        wordsOf text = ["red", "rose", "of", "the", "garden", "white"] := by
  intro start query draft
  have hbuild : start.build query false = .ok draft := build_eq_absorb (by decide)
  have hwords : query.root.positiveWords = ["red", "rose", "of", "the", "garden", "white"] := by
    decide +kernel
  obtain ⟨hany, hphrase⟩ := build_rescores {} (ProfileTable.service {}) query false draft hbuild
  rw [hwords] at hany hphrase
  obtain ⟨phrase, hsome⟩ := Option.isSome_iff_exists.mp (hany.mpr (by decide))
  obtain ⟨text, rfl, htext, _⟩ := hphrase phrase hsome
  exact ⟨hbuild, text, hsome, htext⟩

end Draft

end SearchCompiler
