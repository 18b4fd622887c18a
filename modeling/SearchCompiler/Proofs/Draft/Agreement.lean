import SearchCompiler.Proofs.Classifier.Shapes
import SearchCompiler.Proofs.Draft.Lifting

/-!
The label of a query and what is built from it. The label comes from a visitor
that counts, the draft from a compilation that carries flags down the tree, and
neither looks at the other; but they have the leaves of the tree in common, and
of a tree that nothing complicates the leaves already tell what both make of it.
-/

namespace SearchCompiler

/-- What a plain leaf yields: the name of its feature, and its words. -/
def Node.plainYield (leaf : Node) : Yield where
  features := leaf.words?.toList.map (fun _ => "full_text")
    ++ leaf.phrase?.toList.map (fun _ => "phrase")
  words := leaf.words?.toList.flatMap wordsOf

/-- What a plain leaf is compiled to, if it is not empty. -/
def Node.plainExprs (settings : Settings) (leaf : Node) : List Expr :=
  leaf.words?.toList.map (.matchText settings.allField · .and)
    ++ leaf.phrase?.toList.map (.phrase (settings.allField ++ ".plain") · 0)

theorem Placed.compile_of_plain (settings : Settings) {p : Placed} (hodd : p.odd = false)
    (hplain : p.leaf.PlainLeaf) :
    (p.compile settings).1.toList = p.leaf.plainExprs settings ∧
      (p.compile settings).2 = p.leaf.plainYield := by
  obtain ⟨odd, required, leaf⟩ := p
  obtain rfl : odd = false := hodd
  cases hplain with
  | words span text =>
      refine ⟨rfl, ?_⟩
      simp [Placed.compile, Node.compile, Node.plainYield, Node.words?, Node.phrase?]
  | phrase | empty => exact ⟨rfl, rfl⟩

/-- Read in order, the leaves give what the words give and what the phrases give,
only mixed. -/
theorem Node.flatMap_leafNodes_perm {β : Type} (root : Node) (f g : String → β) :
    (root.leafNodes.flatMap fun leaf =>
      leaf.words?.toList.map f ++ leaf.phrase?.toList.map g).Perm
        (root.texts.map f ++ root.phrases.map g) := by
  have hsplit := (List.flatMap_append_perm root.leafNodes (fun leaf => leaf.words?.toList.map f)
    (fun leaf => leaf.phrase?.toList.map g)).symm
  simpa only [Node.texts, Node.phrases, List.filterMap_eq_flatMap_toList, List.map_flatMap]
    using hsplit

namespace Node.Plain

variable (settings : Settings) {root : Node} (hplain : root.Plain)

include hplain

/-- What a plain tree yields can be read off its leaves. -/
theorem yield_eq_flatMap {β : Type} (field : Yield → List β) (hempty : field {} = [])
    (happend : ∀ a b : Yield, field (a ++ b) = field a ++ field b) :
    field (root.compile settings false true).2 =
      root.leafNodes.flatMap fun leaf => field leaf.plainYield := by
  rw [yield_compile field hempty happend, root.leafNodes_eq_map false true, List.flatMap_map]
  refine List.flatMap_congr fun p hp => ?_
  obtain ⟨hodd, hleaf⟩ := hplain.leaves false true p hp
  rw [(p.compile_of_plain settings hodd hleaf).2]

/-- So can the leaves of what it is compiled to. -/
theorem leaves_compile :
    ((root.compile settings false true).1.toList.flatMap Expr.leaves).Perm
      (root.texts.map (.matchText settings.allField · .and)
        ++ root.phrases.map (.phrase (settings.allField ++ ".plain") · 0)) := by
  have hleaves : (root.leaves false true).flatMap
        (fun p => (p.compile settings).1.toList.map (p.odd, ·)) =
      (root.leafNodes.flatMap (Node.plainExprs settings)).map (false, ·) := by
    rw [root.leafNodes_eq_map false true, List.flatMap_map, List.map_flatMap]
    refine List.flatMap_congr fun p hp => ?_
    obtain ⟨hodd, hleaf⟩ := hplain.leaves false true p hp
    rw [(p.compile_of_plain settings hodd hleaf).1, hodd]
  have hcompile := (literals_compile false settings root true).map Prod.snd
  rw [hleaves, List.map_map, List.map_flatMap] at hcompile
  have hread : Prod.snd ∘ (fun e : Expr => (false, e)) = id := rfl
  rw [hread, List.map_id] at hcompile
  exact hcompile.trans (root.flatMap_leafNodes_perm _ _)

end Node.Plain

namespace Draft

/-- The names of the features used, in the order of first use. -/
def featureNames (draft : Draft) : List String :=
  draft.featuresUsed.map Prod.fst

/-- Nothing but the main query restricts the results. -/
structure TextOnly (draft : Draft) : Prop where
  filters : draft.filters = []
  notFilters : draft.notFilters = []
  nonTextQueries : draft.nonTextQueries = []

theorem textOnly_unnamed (draft : Draft) : draft.unnamed.TextOnly ↔ draft.TextOnly :=
  ⟨fun h => ⟨h.filters, h.notFilters, h.nonTextQueries⟩,
    fun h => ⟨h.filters, h.notFilters, h.nonTextQueries⟩⟩

section Plain

variable (settings : Settings) (profiles : ProfileService) {query : Query}

theorem nodup_featureNames :
    ((fresh settings profiles).absorb query).featureNames.Nodup := by
  rw [featureNames, absorb_fresh]
  exact @nodup_recordAll [] List.nodup_nil _

theorem mem_featureNames {name : String} :
    name ∈ ((fresh settings profiles).absorb query).featureNames ↔
      name ∈ (query.root.compile settings false true).2.features := by
  rw [featureNames, absorb_fresh, mem_names_recordAll]
  simp

/-- Each name is recorded once, so a single name makes a single entry. -/
theorem featureNames_eq_singleton {name : String}
    (h : ∀ other, other ∈ ((fresh settings profiles).absorb query).featureNames ↔ other = name) :
    ((fresh settings profiles).absorb query).featureNames = [name] := by
  refine List.perm_singleton.mp ((List.perm_ext_iff_of_nodup
    (nodup_featureNames settings profiles) (List.pairwise_singleton _ name)).mpr fun other => ?_)
  rw [h, List.mem_singleton]

variable (hplain : query.root.Plain)

include hplain

theorem textOnly_of_plain : ((fresh settings profiles).absorb query).TextOnly := by
  have hyield {β : Type} := @Node.Plain.yield_eq_flatMap settings query.root hplain β
  rw [absorb_fresh]
  exact {
    filters := (hyield (·.filters) rfl fun _ _ => rfl).trans (by simp [Node.plainYield])
    notFilters := (hyield (·.notFilters) rfl fun _ _ => rfl).trans (by simp [Node.plainYield])
    nonTextQueries := (hyield (·.lifted) rfl fun _ _ => rfl).trans (by simp [Node.plainYield]) }

/-- Such a query uses words and phrases alone, and each of them if it has any. -/
theorem mem_featureNames_of_plain {name : String} :
    name ∈ ((fresh settings profiles).absorb query).featureNames ↔
      name = "full_text" ∧ query.root.texts ≠ [] ∨
        name = "phrase" ∧ query.root.phrases ≠ [] := by
  rw [mem_featureNames, hplain.yield_eq_flatMap settings (·.features) rfl fun _ _ => rfl]
  have hperm := query.root.flatMap_leafNodes_perm (fun _ => "full_text") (fun _ => "phrase")
  refine hperm.mem_iff.trans ?_
  rw [List.mem_append, List.map_const', List.map_const', List.mem_replicate, List.mem_replicate,
    ne_eq, ne_eq, List.length_eq_zero_iff, List.length_eq_zero_iff]
  exact or_congr and_comm and_comm

theorem featureNames_of_plain :
    ∀ name ∈ ((fresh settings profiles).absorb query).featureNames,
      name = "full_text" ∨ name = "phrase" := by
  intro name hname
  rcases (mem_featureNames_of_plain settings profiles hplain).mp hname with h | h
  · exact .inl h.1
  · exact .inr h.1

/-- If it has any, there is a main query, whose leaves are the words and the
phrases. -/
theorem mainQuery_of_plain (hany : query.root.texts ≠ [] ∨ query.root.phrases ≠ []) :
    ∃ main, ((fresh settings profiles).absorb query).mainQuery = some main ∧
      main.leaves.Perm (query.root.texts.map (.matchText settings.allField · .and)
        ++ query.root.phrases.map (.phrase (settings.allField ++ ".plain") · 0)) := by
  have hleaves := hplain.leaves_compile settings
  rw [absorb_fresh]
  cases hmain : (query.root.compile settings false true).1 with
  | none =>
      rw [hmain] at hleaves
      obtain ⟨htexts, hphrases⟩ := List.append_eq_nil_iff.mp (List.nil_perm.mp hleaves)
      rcases hany with hany | hany
      · exact absurd (List.map_eq_nil_iff.mp htexts) hany
      · exact absurd (List.map_eq_nil_iff.mp hphrases) hany
  | some main =>
      refine ⟨main, rfl, ?_⟩
      simpa only [hmain, Option.toList_some, List.flatMap_singleton] using hleaves

theorem phraseRescoreQuery_of_plain :
    let words := query.root.texts.flatMap wordsOf
    ((fresh settings profiles).absorb query).phraseRescoreQuery =
      if 1 < words.length then
        some (.phrase settings.allField (joinWords words) settings.phraseSlop)
      else none := by
  intro words
  have hwords : (query.root.compile settings false true).2.words = words := by
    rw [hplain.yield_eq_flatMap settings (·.words) rfl fun _ _ => rfl]
    simp only [words, Node.texts, List.filterMap_eq_flatMap_toList, List.flatMap_assoc,
      Node.plainYield]
  rw [absorb_fresh, ← hwords]
  rfl

end Plain

section Labels

variable (settings : Settings) (profiles : ProfileService) {query : Query}

/-- From a bag of words comes a match of all words. -/
theorem absorb_of_bagOfWords (h : "simple_bag_of_words" ∈ Shape.classify query) :
    let draft := (fresh settings profiles).absorb query
    let words := query.root.texts.flatMap wordsOf
    draft.TextOnly ∧ draft.featureNames = ["full_text"] ∧
    (∃ main, draft.mainQuery = some main ∧ main.leaves ≠ [] ∧
      ∀ leaf ∈ main.leaves, ∃ text ∈ query.root.texts,
        leaf = .matchText settings.allField text .and) ∧
    draft.phraseRescoreQuery =
      if 1 < words.length then
        some (.phrase settings.allField (joinWords words) settings.phraseSlop)
      else none := by
  intro draft words
  obtain ⟨hplain, htexts, hphrases⟩ := Shape.plain_of_bagOfWords h
  have hnames : draft.featureNames = ["full_text"] := by
    refine featureNames_eq_singleton settings profiles fun name => ?_
    rw [mem_featureNames_of_plain settings profiles hplain]
    simp [htexts, hphrases]
  obtain ⟨main, hmain, hleaves⟩ := mainQuery_of_plain settings profiles hplain (.inl htexts)
  rw [hphrases, List.map_nil, List.append_nil] at hleaves
  refine ⟨textOnly_of_plain settings profiles hplain, hnames, ⟨main, hmain, ?_, ?_⟩,
    phraseRescoreQuery_of_plain settings profiles hplain⟩
  · intro hnone
    rw [hnone, List.nil_perm, List.map_eq_nil_iff] at hleaves
    exact htexts hleaves
  · intro leaf hleaf
    obtain ⟨text, htext, rfl⟩ := List.mem_map.mp (hleaves.mem_iff.mp hleaf)
    exact ⟨text, htext, rfl⟩

/-- From a simple phrase comes that phrase. -/
theorem absorb_of_phrase (h : "simple_phrase" ∈ Shape.classify query) :
    let draft := (fresh settings profiles).absorb query
    draft.TextOnly ∧ draft.featureNames = ["phrase"] ∧
    (∃ main text, draft.mainQuery = some main ∧ query.root.phrases = [text] ∧
      main.leaves = [.phrase (settings.allField ++ ".plain") text 0]) ∧
    draft.phraseRescoreQuery = none := by
  intro draft
  obtain ⟨hplain, htexts, text, hphrases⟩ := Shape.plain_of_phrase h
  have hnames : draft.featureNames = ["phrase"] := by
    refine featureNames_eq_singleton settings profiles fun name => ?_
    rw [mem_featureNames_of_plain settings profiles hplain]
    simp [htexts, hphrases]
  obtain ⟨main, hmain, hleaves⟩ :=
    mainQuery_of_plain settings profiles hplain (.inr (by simp [hphrases]))
  rw [htexts, hphrases] at hleaves
  have hrescore := phraseRescoreQuery_of_plain settings profiles hplain
  rw [htexts] at hrescore
  exact ⟨textOnly_of_plain settings profiles hplain, hnames,
    ⟨main, text, hmain, hphrases, List.perm_singleton.mp hleaves⟩, hrescore⟩

/-- From a bag of words with phrases come words and phrases. -/
theorem absorb_of_withPhrase (h : "bag_of_words_with_phrase" ∈ Shape.classify query) :
    let draft := (fresh settings profiles).absorb query
    draft.TextOnly ∧ "phrase" ∈ draft.featureNames ∧
    ∀ name ∈ draft.featureNames, name = "full_text" ∨ name = "phrase" := by
  intro draft
  obtain ⟨hplain, hphrases⟩ := Shape.plain_of_withPhrase h
  exact ⟨textOnly_of_plain settings profiles hplain,
    (mem_featureNames_of_plain settings profiles hplain).mpr (.inr ⟨rfl, hphrases⟩),
    featureNames_of_plain settings profiles hplain⟩

/-- What does not come from words and phrases comes from a complex query. -/
theorem classify_of_absorb (hwarnings : query.warnings = [])
    (h : ¬ ((fresh settings profiles).absorb query).TextOnly ∨
      ∃ name ∈ ((fresh settings profiles).absorb query).featureNames,
        name ≠ "full_text" ∧ name ≠ "phrase") :
    Shape.classify query = ["complex_query"] := by
  refine Shape.classify_of_not_plain hwarnings fun hplain => ?_
  rcases h with h | ⟨name, hname, hfulltext, hphrase⟩
  · exact h (textOnly_of_plain settings profiles hplain)
  · rcases featureNames_of_plain settings profiles hplain name hname with heq | heq
    · exact hfulltext heq
    · exact hphrase heq

end Labels

/-- The label of a query and the draft that is built from it agree, for every
query that is accepted into a fresh draft. A bag of words becomes a match of all
words, with all of them as the phrase to rescore with if there are several; a
simple phrase becomes that phrase in its plain field, and nothing to rescore
with; with both, words and phrases are all that is used. Conversely, if anything
else is used or anything else restricts the results, a query without warnings is
complex. -/
theorem build_agrees_with_label (settings : Settings) (profiles : ProfileService) (query : Query)
    (logged : Bool) (draft : Draft)
    (hbuild : (fresh settings profiles).build query logged = .ok draft) :
    ("simple_bag_of_words" ∈ Shape.classify query →
      let words := query.root.texts.flatMap wordsOf
      draft.TextOnly ∧ draft.featureNames = ["full_text"] ∧
      (∃ main, draft.mainQuery = some main ∧ main.leaves ≠ [] ∧
        ∀ leaf ∈ main.leaves, ∃ text ∈ query.root.texts,
          leaf = .matchText settings.allField text .and) ∧
      draft.phraseRescoreQuery =
        if 1 < words.length then
          some (.phrase settings.allField (joinWords words) settings.phraseSlop)
        else none) ∧
    ("simple_phrase" ∈ Shape.classify query →
      draft.TextOnly ∧ draft.featureNames = ["phrase"] ∧
      (∃ main text, draft.mainQuery = some main ∧ query.root.phrases = [text] ∧
        main.leaves = [.phrase (settings.allField ++ ".plain") text 0]) ∧
      draft.phraseRescoreQuery = none) ∧
    ("bag_of_words_with_phrase" ∈ Shape.classify query →
      draft.TextOnly ∧ "phrase" ∈ draft.featureNames ∧
      ∀ name ∈ draft.featureNames, name = "full_text" ∨ name = "phrase") ∧
    (query.warnings = [] →
      (¬ draft.TextOnly ∨ ∃ name ∈ draft.featureNames, name ≠ "full_text" ∧ name ≠ "phrase") →
      Shape.classify query = ["complex_query"]) := by
  have hdraft := eq_absorb_of_build hbuild
  have hunnamed : draft.unnamed = ((fresh settings profiles).absorb query).unnamed := by
    rw [hdraft]
    rfl
  have htextOnly : draft.TextOnly ↔ ((fresh settings profiles).absorb query).TextOnly := by
    rw [← textOnly_unnamed, hunnamed, textOnly_unnamed]
  rw [htextOnly]
  subst hdraft
  exact ⟨absorb_of_bagOfWords settings profiles, absorb_of_phrase settings profiles,
    absorb_of_withPhrase settings profiles, classify_of_absorb settings profiles⟩

/-- Words of which some stand in a bracket, with nothing typed between them. -/
def roseBed : Query where
  root := .boolean ⟨0, 16⟩ [
    ⟨.should, false, .words ⟨0, 8⟩ "red rose"⟩,
    ⟨.must, false, .boolean ⟨9, 16⟩ [
      ⟨.must, false, .empty ⟨10, 10⟩⟩, ⟨.must, false, .words ⟨10, 15⟩ "thorn"⟩]⟩]
  text := "red rose (thorn)"
  rawText := "red rose (thorn)"
  cleanups := []
  warnings := []
  namespaces := .unspecified
  changed := fun h => absurd rfl h

/-- The bracket hides nothing from either side, and a phrase prefix that is taken
out of the tree makes its query complex. -/
theorem build_agrees_with_label_roseBed :
    let start := fresh {} (ProfileTable.service {})
    start.build roseBed false = .ok (start.absorb roseBed) ∧
      Shape.classify roseBed = ["simple_bag_of_words"] ∧
      (start.absorb roseBed).featureNames = ["full_text"] ∧
      (start.absorb roseBed).phraseRescoreQuery = some (.phrase "all" "red rose thorn" 1) ∧
      start.build optionalWord false = .ok (start.absorb optionalWord) ∧
      (start.absorb optionalWord).nonTextQueries ≠ [] ∧
      Shape.classify optionalWord = ["complex_query"] := by
  intro start
  have hbed : start.build roseBed false = .ok (start.absorb roseBed) := build_eq_absorb (by decide)
  have hword : start.build optionalWord false = .ok (start.absorb optionalWord) :=
    build_eq_absorb (by decide)
  have hlabel : Shape.classify roseBed = ["simple_bag_of_words"] := rfl
  obtain ⟨hbag, _⟩ := build_agrees_with_label {} (ProfileTable.service {}) roseBed _ _ hbed
  obtain ⟨_, hnames, _, hrescore⟩ := hbag (by simp [hlabel])
  obtain ⟨_, _, _, hcomplex⟩ :=
    build_agrees_with_label {} (ProfileTable.service {}) optionalWord _ _ hword
  have hlifted : (start.absorb optionalWord).nonTextQueries ≠ [] := List.cons_ne_nil _ _
  refine ⟨hbed, hlabel, hnames, ?_, hword, hlifted,
    hcomplex rfl (.inl fun h => hlifted h.nonTextQueries)⟩
  have hwords : roseBed.root.texts.flatMap wordsOf = ["red", "rose", "thorn"] := by
    decide +kernel
  have hjoined : joinWords ["red", "rose", "thorn"] = "red rose thorn" := by decide +kernel
  rw [hrescore, hwords, hjoined]
  rfl

end Draft

end SearchCompiler
