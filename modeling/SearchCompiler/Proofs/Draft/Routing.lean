import SearchCompiler.Proofs.Draft.Meaning
import SearchCompiler.Proofs.Node.Yields

/-!
Where the keywords and the phrase prefixes of a query end up. A keyword leaves
the tree from wherever it stands, and nothing but the parity of the exclusions
above it decides whether it filters or excludes; a phrase prefix leaves it only
where every clause above it is required. Both arrive in the order of the text.
-/

namespace SearchCompiler

namespace Draft

/-- The filters of a fresh draft after a build are those of the keywords under an
even number of exclusions, its excluding filters those of the keywords under an
odd number, and its queries beside the main one, for the results as for the
highlighting, the phrase prefixes in required clauses only. Each list is in the
order of the text and has each occurrence once; keywords that filter nothing
leave nothing. -/
theorem build_routes (settings : Settings) (profiles : ProfileService) (query : Query)
    (logged : Bool) (draft : Draft)
    (hbuild : (fresh settings profiles).build query logged = .ok draft) :
    let filter (used : Keyword × Feature) := used.2.filter used.1 settings
    let beside := query.root.requiredPrefixes.map (Expr.phrasePrefix settings.titleField)
    draft.filters = (query.root.keywordsAt false).filterMap filter ∧
      draft.notFilters = (query.root.keywordsAt true).filterMap filter ∧
      draft.nonTextQueries = beside ∧ draft.nonTextHighlightQueries = beside := by
  intro filter beside
  obtain rfl := eq_absorb_of_build hbuild
  rw [absorb_fresh]
  have hlifted : (query.root.compile settings false true).2.lifted = beside :=
    query.root.lifted_root settings
  exact ⟨query.root.filtersAt_root settings false, query.root.filtersAt_root settings true,
    hlifted, hlifted⟩

/-- A keyword for the language of a page, at some place of a text. -/
def language (start : UInt64) (value : String) : Keyword :=
  ⟨⟨start, start + 7⟩, "lang", ":", value, none⟩

/-- Keywords and phrase prefixes on all kinds of ways. One keyword is excluded
once in one place and twice in another, one has no filter at all, and of the four
prefixes two are required. -/
def thornyTree : Node :=
  .boolean ⟨0, 88⟩ [
    ⟨.mustNot, true, .boolean ⟨0, 40⟩ [
      ⟨.should, false, .keyword (language 2 "la") byField⟩,
      ⟨.must, false, .phrasePrefix ⟨10, 20⟩ "blue th"⟩,
      ⟨.must, false, .negated ⟨21, 39⟩ "-" (.boolean ⟨22, 39⟩ [
        ⟨.must, false, .keyword (language 23 "la") byField⟩,
        ⟨.should, false, .keyword (language 31 "fr") byField⟩])⟩]⟩,
    ⟨.must, false, .boolean ⟨41, 65⟩ [
      ⟨.must, false, .phrasePrefix ⟨42, 52⟩ "red ros"⟩,
      ⟨.should, false, .phrasePrefix ⟨53, 64⟩ "wild ros"⟩]⟩,
    ⟨.should, false, .keyword ⟨⟨66, 75⟩, "boost", ":", "new", none⟩ {}⟩,
    ⟨.must, false, .phrasePrefix ⟨76, 88⟩ "garden th"⟩]

def thornyQuery : Query :=
  .typed thornyTree ("-(lang:la \"blue th*\" -(lang:la lang:fr)) "
    ++ "(\"red ros*\" \"wild ros*\") boost:new \"garden th*\"")

/-- Excluded twice, a keyword filters again, and a prefix that is not required
stays in the text. -/
theorem build_routes_thornyQuery :
    let start := fresh {} (ProfileTable.service {})
    let draft := start.absorb thornyQuery
    start.build thornyQuery false = .ok draft ∧
      draft.filters = [.term "lang" (.string "la"), .term "lang" (.string "fr")] ∧
      draft.notFilters = [.term "lang" (.string "la")] ∧
      draft.nonTextQueries =
        [.phrasePrefix "title" "red ros", .phrasePrefix "title" "garden th"] := by
  intro start draft
  have hbuild : start.build thornyQuery false = .ok draft := build_eq_absorb (by decide)
  obtain ⟨hfilters, hnotFilters, hbeside, _⟩ :=
    build_routes {} (ProfileTable.service {}) thornyQuery false draft hbuild
  exact ⟨hbuild, hfilters.trans rfl, hnotFilters.trans rfl, hbeside.trans rfl⟩

end Draft

end SearchCompiler
