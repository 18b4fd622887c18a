import SearchCompiler.Proofs.Draft.Agreement
import SearchCompiler.Proofs.Node.Yields

/-!
The features that a draft records and those that a query reports. The one list
comes from the compilation and keeps the order of the text, the other set from a
visitor that looks at keywords alone. They speak of the same keywords, wherever
these stand, and the draft names the ways of searching for text besides.
-/

namespace SearchCompiler

/-- A query reports the features of the keywords in its tree. -/
theorem Query.mem_features (query : Query) (name : String) :
    name ∈ query.features.elements ↔ ∃ used ∈ query.root.keywords, used.2.nameOf used.1 = name := by
  have hfeatures : query.features =
      .ofList (query.root.keywords.map fun used => used.2.nameOf used.1) := by
    rw [Query.features, Node.walk_keyword, SortedSet.ofList, List.foldl_map]
  rw [hfeatures, SortedSet.mem_ofList, List.mem_map]

namespace Node

/-- A leaf names a feature as a keyword or by how it searches for text. -/
theorem featureName?_eq_some_iff {leaf : Node} {name : String} :
    leaf.featureName? = some name ↔
      (∃ used, leaf.keyword? = some used ∧ used.2.nameOf used.1 = name) ∨
        leaf.textFeature? = some name := by
  cases leaf <;> simp [featureName?, textFeature?, keyword?]

theorem mem_filterMap_featureName? {root : Node} {name : String} :
    name ∈ root.leafNodes.filterMap featureName? ↔
      (∃ used ∈ root.keywords, used.2.nameOf used.1 = name) ∨
        ∃ leaf ∈ root.leafNodes, leaf.textFeature? = some name := by
  simp only [keywords, List.mem_filterMap, featureName?_eq_some_iff]
  constructor
  · rintro ⟨leaf, hleaf, ⟨used, hused, hname⟩ | hname⟩
    · exact .inl ⟨used, ⟨leaf, hleaf, hused⟩, hname⟩
    · exact .inr ⟨leaf, hleaf, hname⟩
  · rintro (⟨used, ⟨leaf, hleaf, hused⟩, hname⟩ | ⟨leaf, hleaf, hname⟩)
    · exact ⟨leaf, hleaf, .inl ⟨used, hused, hname⟩⟩
    · exact ⟨leaf, hleaf, .inr hname⟩

/-- Every leaf names a feature, unless it is empty. -/
theorem exists_featureName? {leaf : Node} (hleaf : leaf.isLeaf) (hfull : leaf.isEmpty = false) :
    ∃ name, leaf.featureName? = some name := by
  cases leaf with
  | boolean | negated => cases hleaf
  | empty => cases hfull
  | _ => exact ⟨_, rfl⟩

theorem featureName?_of_isEmpty {leaf : Node} (hempty : leaf.isEmpty) :
    leaf.featureName? = none := by
  cases leaf with
  | empty => rfl
  | _ => cases hempty

theorem isLeaf_of_mem_leafNodes {root leaf : Node} (h : leaf ∈ root.leafNodes) : leaf.isLeaf := by
  rw [leafNodes_eq_map_spots] at h
  obtain ⟨spot, hspot, rfl⟩ := List.mem_map.mp h
  exact root.isLeaf_of_mem_spots spot hspot

/-- The first name of a tree is that of its first leaf that is not empty. -/
theorem head?_featureNames (root : Node) :
    (root.leafNodes.filterMap featureName?).head? =
      (root.leafNodes.find? (!·.isEmpty)).bind featureName? := by
  have hleaf : ∀ leaf ∈ root.leafNodes, leaf.isLeaf := fun _ h => isLeaf_of_mem_leafNodes h
  rw [List.head?_filterMap]
  generalize root.leafNodes = leaves at hleaf
  induction leaves with
  | nil => rfl
  | cons leaf rest ih =>
      obtain ⟨hfirst, hrest⟩ := List.forall_mem_cons.mp hleaf
      rw [List.findSome?_cons, List.find?_cons]
      cases hempty : leaf.isEmpty with
      | true => rw [featureName?_of_isEmpty hempty, ih hrest]; rfl
      | false =>
          obtain ⟨name, hname⟩ := exists_featureName? hfirst hempty
          rw [hname]
          exact hname.symm

end Node

namespace Draft

/-- What a build into a fresh draft records: every name once, where it stands
first, and all of them at the weight of ordinary features. -/
theorem featuresUsed_absorb (settings : Settings) (profiles : ProfileService) (query : Query) :
    let draft := (fresh settings profiles).absorb query
    draft.featureNames = (query.root.leafNodes.filterMap Node.featureName?).eraseDups ∧
      ∀ entry ∈ draft.featuresUsed, entry.2 = ordinaryWeight := by
  intro draft
  have hused : draft.featuresUsed = recordAll []
      ((query.root.leafNodes.filterMap Node.featureName?).map (·, ordinaryWeight)) := by
    rw [← query.root.features_root settings]
    exact congrArg Draft.featuresUsed (absorb_fresh settings profiles query)
  constructor
  · rw [featureNames, hused, names_recordAll, List.map_map]
    have hread : Prod.fst ∘ (fun name : String => (name, ordinaryWeight)) = id := rfl
    rw [hread, List.map_id, List.map_nil, List.removeAll_nil, List.nil_append]
  · intro entry hentry
    rw [hused] at hentry
    rcases mem_of_mem_recordAll _ hentry with huse | hnone
    · obtain ⟨name, _, rfl⟩ := List.mem_map.mp huse
      rfl
    · cases hnone

/-- The features that a build into a fresh draft records are those that the
leaves of the tree name, in the order in which a walk comes to them, without
repetitions. They are the features that the query reports and the ways in which
it searches for text. All weigh the same, so the first leaf that is not empty
decides the search type. -/
theorem build_records_features (settings : Settings) (profiles : ProfileService) (query : Query)
    (logged : Bool) (draft : Draft)
    (hbuild : (fresh settings profiles).build query logged = .ok draft) :
    draft.featureNames = (query.root.leafNodes.filterMap Node.featureName?).eraseDups ∧
      (∀ name, name ∈ draft.featureNames ↔
        name ∈ query.features.elements ∨
          ∃ leaf ∈ query.root.leafNodes, leaf.textFeature? = some name) ∧
      (∀ leaf, query.root.leafNodes.find? (!·.isEmpty) = some leaf →
        leaf.featureName? = some draft.searchType) ∧
      (query.root.leafNodes.find? (!·.isEmpty) = none → draft.searchType = "full_text") := by
  have hused : draft.featuresUsed = ((fresh settings profiles).absorb query).featuresUsed := by
    rw [eq_absorb_of_build hbuild]
  obtain ⟨hnames, hweights⟩ := featuresUsed_absorb settings profiles query
  rw [featureNames, ← hused, ← featureNames] at hnames
  rw [← hused] at hweights
  have htype : draft.searchType =
      ((query.root.leafNodes.find? (!·.isEmpty)).bind Node.featureName?).getD "full_text" := by
    rw [searchType, heaviest_of_same_weight hweights, ← List.head?_map, ← featureNames, hnames,
      ← Node.head?_featureNames]
    cases query.root.leafNodes.filterMap Node.featureName? with
    | nil => rfl
    | cons first rest => rw [List.eraseDups_cons, List.head?_cons, List.head?_cons]
  refine ⟨hnames, ?_, ?_, ?_⟩
  · intro name
    rw [hnames, List.mem_eraseDups, Node.mem_filterMap_featureName?, Query.mem_features]
  · intro leaf hfirst
    have hfull : leaf.isEmpty = false := by simpa using List.find?_some hfirst
    have hleaf : leaf.isLeaf := Node.isLeaf_of_mem_leafNodes (List.mem_of_find?_eq_some hfirst)
    obtain ⟨name, hname⟩ := Node.exists_featureName? hleaf hfull
    rw [htype, hfirst, Option.bind_some, hname, Option.getD_some]
  · intro hnone
    rw [htype, hnone]
    rfl

/-- A keyword that filters nothing, at some place of a text. -/
def boost (start : UInt64) (value : String) : Keyword :=
  ⟨⟨start, start + 9⟩, "boost", ":", value, none⟩

/-- Nothing first, then a keyword that is excluded, and words and a phrase before
and after the keyword again. -/
def boostedTree : Node :=
  .boolean ⟨0, 44⟩ [
    ⟨.must, false, .boolean ⟨0, 13⟩ [
      ⟨.must, false, .empty ⟨1, 1⟩⟩, ⟨.mustNot, true, .keyword (boost 3 "new") {}⟩]⟩,
    ⟨.should, false, .words ⟨14, 17⟩ "red"⟩,
    ⟨.must, false, .phrase ⟨18, 29⟩ "wild rose" none true⟩,
    ⟨.should, false, .keyword (boost 30 "old") {}⟩,
    ⟨.should, false, .words ⟨40, 44⟩ "rose"⟩]

/-- The excluded keyword comes first, and in brackets with nothing between them
there is no leaf to name anything. -/
theorem build_records_features_boostedTree :
    let start := fresh {} (ProfileTable.service {})
    let query := Query.typed boostedTree "( -boost:new) red \"wild rose\" boost:old rose"
    let brackets := Query.typed (.boolean ⟨0, 2⟩ [⟨.must, false, .empty ⟨1, 1⟩⟩]) "()"
    start.build query false = .ok (start.absorb query) ∧
      start.build brackets false = .ok (start.absorb brackets) ∧
      (start.absorb query).featureNames = ["boost", "full_text", "phrase"] ∧
      "boost" ∈ query.features.elements ∧
      (start.absorb query).searchType = "boost" ∧
      (start.absorb brackets).searchType = "full_text" := by
  intro start query brackets
  have hbuild : start.build query false = .ok (start.absorb query) := build_eq_absorb (by decide)
  have hbrackets : start.build brackets false = .ok (start.absorb brackets) :=
    build_eq_absorb (by decide)
  obtain ⟨hnames, hfeatures, hfirst, _⟩ :=
    build_records_features {} (ProfileTable.service {}) query _ _ hbuild
  obtain ⟨_, _, _, hnone⟩ :=
    build_records_features {} (ProfileTable.service {}) brackets _ _ hbrackets
  have hlisted : (start.absorb query).featureNames = ["boost", "full_text", "phrase"] :=
    hnames.trans (by decide +kernel)
  have hboost : "boost" ∈ query.features.elements := by
    rcases (hfeatures "boost").mp (by simp [hlisted]) with hmem | ⟨leaf, _, hleaf⟩
    · exact hmem
    · cases leaf <;> simp [Node.textFeature?] at hleaf
  exact ⟨hbuild, hbrackets, hlisted, hboost,
    Option.some.inj (hfirst (.keyword (boost 3 "new") {}) rfl).symm, hnone rfl⟩

end Draft

end SearchCompiler
