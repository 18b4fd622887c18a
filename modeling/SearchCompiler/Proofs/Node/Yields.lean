import SearchCompiler.Proofs.Node.Ways

/-!
What the leaves of a tree come to. A leaf is of one kind and has one way down to
it, and these two decide what it adds to each list that a compilation collects;
the lists of a tree are then those of its leaves, picked out by their ways.
-/

namespace SearchCompiler

namespace Node

def phrasePrefix? : Node → Option String
  | .phrasePrefix _ text => some text
  | _ => none

def keyword? : Node → Option (Keyword × Feature)
  | .keyword occurrence feature => some (occurrence, feature)
  | _ => none

/-- The name that a leaf that searches for text is known by. -/
def textFeature? : Node → Option String
  | .words .. => some "full_text"
  | .phrase .. => some "phrase"
  | .phrasePrefix .. => some "phrase_prefix"
  | .wordPrefix .. => some "prefix"
  | .fuzzy .. => some "fuzzy"
  | .wildcard .. => some "wildcard"
  | _ => none

/-- The name of the feature that a leaf uses, if it uses any. -/
def featureName? : Node → Option String
  | .keyword occurrence feature => some (feature.nameOf occurrence)
  | leaf => leaf.textFeature?

/-- The keywords of a tree, as a walk comes to them. -/
def keywords (root : Node) : List (Keyword × Feature) :=
  root.leafNodes.filterMap keyword?

/-- A visitor that looks at keywords alone goes through the keywords. -/
theorem walk_keyword {σ : Type} (hook : Keyword → Feature → σ → σ) (root : Node) (s : σ) :
    root.walk { keyword := hook } s =
      root.keywords.foldl (fun s used => hook used.1 used.2 s) s := by
  rw [walk_eq_foldl, keywords, leafNodes, List.filterMap_filterMap]
  induction root.events generalizing s with
  | nil => rfl
  | cons event rest ih =>
      rw [List.foldl_cons, ih, List.filterMap_cons]
      cases event with
      | clause => rfl
      | node node => cases node <;> rfl

/-- What a leaf yields under an odd or even number of exclusions, in required
clauses only or not. -/
def yieldAt (settings : Settings) (odd required : Bool) (leaf : Node) : Yield :=
  let filters := (leaf.keyword?.bind fun used => used.2.filter used.1 settings).toList
  { filters := if odd then [] else filters
    notFilters := if odd then filters else []
    lifted := if required then leaf.phrasePrefix?.toList.map (.phrasePrefix settings.titleField)
      else []
    features := leaf.featureName?.toList
    words := if odd then [] else leaf.words?.toList.flatMap wordsOf }

theorem yield_of_isLeaf (settings : Settings) {odd required : Bool} {leaf : Node}
    (hleaf : leaf.isLeaf) (hflags : required → odd = false) :
    (leaf.compile settings odd required).2 = leaf.yieldAt settings odd required := by
  cases leaf with
  | boolean | negated => cases hleaf
  | phrasePrefix span text =>
      -- an excluded prefix stays in the text even where it is required, but no way
      -- leads to one that is both
      cases required with
      | false => cases odd <;> rfl
      | true => rw [hflags rfl]; rfl
  | words span text =>
      cases odd with
      | false =>
          simp [compile, yieldAt, words?, keyword?, phrasePrefix?, featureName?, textFeature?]
      | true => cases required <;> rfl
  | phrase | wordPrefix | fuzzy | wildcard | empty | keyword =>
      cases odd <;> cases required <;> rfl

/-- What a tree yields is what its leaves yield, each by the way down to it. -/
theorem yield_eq_flatMap_spots {β : Type} (field : Yield → List β) (hempty : field {} = [])
    (happend : ∀ a b : Yield, field (a ++ b) = field a ++ field b) (settings : Settings)
    (root : Node) :
    field (root.compile settings false true).2 =
      root.spots.flatMap fun spot =>
        field (spot.leaf.yieldAt settings spot.odd spot.required) := by
  rw [yield_compile field hempty happend, root.leaves_eq_map_spots, List.flatMap_map]
  refine List.flatMap_congr fun spot hspot => ?_
  have hflags : spot.required → spot.odd = false := Spot.odd_of_required
  rw [← yield_of_isLeaf settings (root.isLeaf_of_mem_spots spot hspot) hflags,
    Spot.compile_placed]

section Selection

variable {α β : Type} (root : Node) (keep : Spot → Bool) (read : Node → Option α)

/-- What is read off the leaves whose ways are kept, in the order of the text. -/
def select : List α :=
  (root.spots.filter keep).filterMap (read ·.leaf)

theorem mem_select {a : α} :
    a ∈ root.select keep read ↔
      ∃ spot ∈ root.spots, keep spot ∧ read spot.leaf = some a := by
  simp only [select, List.mem_filterMap, List.mem_filter, and_assoc]

theorem flatMap_select (f : α → List β) :
    (root.select keep read).flatMap f =
      root.spots.flatMap fun spot =>
        if keep spot then (read spot.leaf).toList.flatMap f else [] := by
  rw [select, List.filterMap_eq_flatMap_toList, List.flatMap_assoc]
  induction root.spots with
  | nil => rfl
  | cons spot rest ih =>
      rw [List.filter_cons, List.flatMap_cons, ← ih]
      cases keep spot <;> rfl

end Selection

/-- The keywords of a tree that stand under an even number of exclusions, or
under an odd one. -/
def keywordsAt (odd : Bool) (root : Node) : List (Keyword × Feature) :=
  root.select (·.odd == odd) keyword?

/-- The phrase prefixes that stand in required clauses only. -/
def requiredPrefixes (root : Node) : List String :=
  root.select (·.required) phrasePrefix?

/-- The words of a tree that are not excluded. -/
def positiveWords (root : Node) : List String :=
  (root.select (!·.odd) words?).flatMap wordsOf

/-- A word that is not excluded comes from a leaf that is not excluded. -/
theorem mem_positiveWords {root : Node} {word : String} :
    word ∈ root.positiveWords ↔
      ∃ spot ∈ root.spots, spot.odd = false ∧
        ∃ text, spot.leaf.words? = some text ∧ word ∈ wordsOf text := by
  simp only [positiveWords, List.mem_flatMap, mem_select, Bool.not_eq_true']
  constructor
  · rintro ⟨text, ⟨spot, hspot, hodd, htext⟩, hword⟩
    exact ⟨spot, hspot, hodd, text, htext, hword⟩
  · rintro ⟨spot, hspot, hodd, text, htext, hword⟩
    exact ⟨text, ⟨spot, hspot, hodd, htext⟩, hword⟩

section Root

variable (settings : Settings) (root : Node)

/-- A keyword filters wherever it stands; the parity of the exclusions above it
decides which way. -/
theorem filtersAt_root (odd : Bool) :
    (root.compile settings false true).2.filtersAt odd =
      (root.keywordsAt odd).filterMap fun used => used.2.filter used.1 settings := by
  have hempty : Yield.filtersAt {} odd = [] := by cases odd <;> rfl
  have happend (a b : Yield) : (a ++ b).filtersAt odd = a.filtersAt odd ++ b.filtersAt odd := by
    cases odd <;> rfl
  rw [yield_eq_flatMap_spots (·.filtersAt odd) hempty happend,
    List.filterMap_eq_flatMap_toList, keywordsAt, flatMap_select]
  refine List.flatMap_congr fun spot _ => ?_
  simp only [yieldAt, Option.toList_bind]
  cases odd <;> cases spot.odd <;> rfl

theorem lifted_root :
    (root.compile settings false true).2.lifted =
      root.requiredPrefixes.map (.phrasePrefix settings.titleField) := by
  rw [yield_eq_flatMap_spots (·.lifted) rfl fun _ _ => rfl, List.map_eq_flatMap, requiredPrefixes,
    flatMap_select]
  refine List.flatMap_congr fun spot _ => ?_
  rw [← List.map_eq_flatMap]
  rfl

theorem words_root : (root.compile settings false true).2.words = root.positiveWords := by
  rw [yield_eq_flatMap_spots (·.words) rfl fun _ _ => rfl, positiveWords, flatMap_select]
  refine List.flatMap_congr fun spot _ => ?_
  cases spot.odd <;> rfl

/-- The names of the features do not depend on the ways. -/
theorem features_root :
    (root.compile settings false true).2.features = root.leafNodes.filterMap featureName? := by
  rw [yield_eq_flatMap_spots (·.features) rfl fun _ _ => rfl, root.leafNodes_eq_map_spots,
    List.filterMap_eq_flatMap_toList, List.flatMap_map]
  rfl

end Root

end Node

end SearchCompiler
