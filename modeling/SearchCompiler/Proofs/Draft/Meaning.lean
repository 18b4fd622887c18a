import SearchCompiler.Proofs.Draft.Merge
import SearchCompiler.Proofs.Node.Compilation

/-!
The meaning of a query, from its tree to the composite query of the draft it
is put into. A document matches exactly when it has the text that the tree
searches for and every phrase prefix that the tree requires, passes the filters
of all keywords, each with the parity of the exclusions above it, and lies in
one of the namespaces that the query asks for.
-/

namespace SearchCompiler

section Changes

variable {settings : Settings} {query : Query} {compiled : Option Expr × Yield}

theorem addFilter_mem_changesFor (h : query.root.isEmpty → compiled = (none, {})) (e : Expr) :
    .addFilter e ∈ query.changesFor settings compiled ↔ e ∈ compiled.2.filters := by
  cases hroot : query.root.isEmpty <;> cases hspaces : query.namespaces <;>
    simp [Query.changesFor, Yield.changes, Namespaces.changes, hroot, hspaces, h]

theorem addNotFilter_mem_changesFor (h : query.root.isEmpty → compiled = (none, {})) (e : Expr) :
    .addNotFilter e ∈ query.changesFor settings compiled ↔ e ∈ compiled.2.notFilters := by
  cases hroot : query.root.isEmpty <;> cases hspaces : query.namespaces <;>
    simp [Query.changesFor, Yield.changes, Namespaces.changes, hroot, hspaces, h]

theorem addNonTextQuery_mem_changesFor (h : query.root.isEmpty → compiled = (none, {})) (e : Expr) :
    .addNonTextQuery e ∈ query.changesFor settings compiled ↔ e ∈ compiled.2.lifted := by
  cases hroot : query.root.isEmpty <;> cases hspaces : query.namespaces <;>
    simp [Query.changesFor, Yield.changes, Namespaces.changes, hroot, hspaces, h]

theorem mainQuery_changesFor (h : query.root.isEmpty → compiled = (none, {})) :
    (query.changesFor settings compiled).filterMap Change.mainQuery? = compiled.1.toList := by
  have hspaces : query.namespaces.changes.filterMap Change.mainQuery? = [] := by
    unfold Namespaces.changes
    split
    · rfl
    · split <;> rfl
  have hrescore (p : Prop) [Decidable p] (e : Expr) :
      (if p then [Change.setPhraseRescoreQuery e] else []).filterMap Change.mainQuery? = [] := by
    split <;> rfl
  rw [Query.changesFor, List.filterMap_cons_none rfl, List.filterMap_cons_none rfl]
  split
  · next hroot =>
      simp only [List.filterMap_append, List.filterMap_map, Function.comp_def, hspaces, h hroot,
        Change.mainQuery?, List.filterMap_none]
      rfl
  · simp only [Yield.changes, List.filterMap_append, List.filterMap_map, Function.comp_def,
      hspaces, hrescore, Change.mainQuery?, List.filterMap_none, List.filterMap_some,
      List.nil_append, List.append_nil]

theorem namespaces_changesFor :
    (query.changesFor settings compiled).filterMap Change.namespaces? =
      query.namespaces.changes.filterMap Change.namespaces? := by
  have hrescore (p : Prop) [Decidable p] (e : Expr) :
      (if p then [Change.setPhraseRescoreQuery e] else []).filterMap Change.namespaces? = [] := by
    split <;> rfl
  rw [Query.changesFor, List.filterMap_cons_none rfl, List.filterMap_cons_none rfl]
  split
  · simp only [List.filterMap_append, List.filterMap_map, Function.comp_def, Change.namespaces?,
      List.filterMap_none, List.filterMap_cons, List.filterMap_nil, List.append_nil]
  · simp only [Yield.changes, List.filterMap_append, List.filterMap_map, Function.comp_def,
      hrescore, Change.namespaces?, List.filterMap_none, List.append_nil]

/-- The last choice of namespaces is the set that the query asks for, if it
asks for one. -/
theorem getLast?_namespaces_changes (namespaces : Namespaces) {ids : SortedSet Int32}
    (hids : ids.isEmpty = false) :
    (namespaces.changes.filterMap Change.namespaces?).getLast? = some (some ids) ↔
      namespaces = .these ids := by
  cases namespaces with
  | all => simp [Namespaces.changes, Change.namespaces?]
  | these asked =>
      rw [Namespaces.changes, Namespaces.these.injEq]
      split
      · next hempty =>
          refine iff_of_false (by simp) ?_
          rintro rfl
          exact Bool.false_ne_true (hids.symm.trans hempty)
      · simp [Change.namespaces?]

end Changes

namespace Draft

/-- What a draft demands once a query was put into it as the first, with
whatever its tree came to. -/
theorem holds_changesFor (settings : Settings) (profiles : ProfileService) (query : Query)
    (compiled : Option Expr × Yield) (h : query.root.isEmpty → compiled = (none, {}))
    (leaf : Expr → Bool) :
    ((query.changesFor settings compiled).foldl apply (fresh settings profiles)).query.holds leaf ↔
      (∀ e ∈ compiled.1, e.holds leaf) ∧
      (∀ e ∈ compiled.2.lifted, e.holds leaf) ∧
      (∀ e ∈ compiled.2.filters, e.holds leaf) ∧
      (∀ e ∈ compiled.2.notFilters, ¬ e.holds leaf) ∧
      ∀ ids, query.namespaces = .these ids → ids.isEmpty = false →
        (Expr.terms settings.namespaceField
          (ids.elements.map fun id => .int id.toInt)).holds leaf := by
  have hlast : compiled.1.toList.getLast? = compiled.1 := by
    cases compiled.1 <;> rfl
  rw [holds_query, holds_namespaceFilter leaf _ _ (namespaces_foldl settings profiles _),
    mainQuery_foldl, nonTextQueries_foldl, filters_foldl, notFilters_foldl, settings_foldl_apply,
    mainQuery_changesFor h, namespaces_changesFor, hlast]
  simp only [mem_nonTextQueries, mem_filters, mem_notFilters, addNonTextQuery_mem_changesFor h,
    addFilter_mem_changesFor h, addNotFilter_mem_changesFor h]
  refine and_congr_right' (and_congr_right' (and_congr_right' (and_congr_right' ?_)))
  refine forall_congr' fun ids => ⟨fun hdemand hasked hids => ?_, fun hdemand hlatest hids => ?_⟩
  · exact hdemand ((getLast?_namespaces_changes query.namespaces hids).mpr hasked) hids
  · exact hdemand ((getLast?_namespaces_changes query.namespaces hids).mp hlatest) hids

/-- What a draft demands once a query was put into it as the first, whether
its tree was compiled as one that every result has to match or not. -/
theorem holds_changes_compile (settings : Settings) (profiles : ProfileService) (query : Query)
    (required : Bool) (leaf : Expr → Bool) :
    ((query.changesFor settings (query.root.compile settings false required)).foldl apply
        (fresh settings profiles)).query.holds leaf ↔
      (∀ t ∈ query.root.textTree required, t.satisfied settings leaf) ∧
      (required → ∀ span text, query.root.Requires (.phrasePrefix span text) →
        leaf (.phrasePrefix settings.titleField text)) ∧
      (∀ odd occurrence feature, query.root.Occurs odd (.keyword occurrence feature) →
        ∀ e ∈ feature.filter occurrence settings, e.holds leaf = !odd) ∧
      ∀ ids, query.namespaces = .these ids → ids.isEmpty = false →
        leaf (.terms settings.namespaceField (ids.elements.map fun id => .int id.toInt)) := by
  have hempty : query.root.isEmpty →
      query.root.compile settings false required = (none, {}) := by
    intro hroot
    cases h : query.root <;> simp_all [Node.isEmpty, Node.compile]
  have hlifted : (∀ e ∈ (query.root.compile settings false required).2.lifted, e.holds leaf) ↔
      (required → ∀ span text, query.root.Requires (.phrasePrefix span text) →
        leaf (.phrasePrefix settings.titleField text)) := by
    simp only [Node.mem_lifted_compile query.root fun _ => rfl]
    constructor
    · intro h hrequired span text hrequires
      exact h _ ⟨hrequired, span, text, hrequires, rfl⟩
    · rintro h _ ⟨hrequired, span, text, hrequires, rfl⟩
      exact h hrequired span text hrequires
  have hfilters (odd : Bool) :
      (∀ e ∈ (query.root.compile settings false required).2.filtersAt odd,
          e.holds leaf = !odd) ↔
        ∀ occurrence feature, query.root.Occurs odd (.keyword occurrence feature) →
          ∀ e ∈ feature.filter occurrence settings, e.holds leaf = !odd := by
    simp only [Node.mem_filtersAt_compile, Bool.false_xor]
    constructor
    · intro h occurrence feature hoccurs e he
      exact h e ⟨occurrence, feature, hoccurs, he⟩
    · rintro h e ⟨occurrence, feature, hoccurs, he⟩
      exact h occurrence feature hoccurs e he
  rw [holds_changesFor settings profiles query _ hempty leaf,
    Node.demand_compile leaf query.root fun _ => rfl, hlifted, Bool.forall_bool, ← hfilters,
    ← hfilters, and_assoc]
  simp only [Yield.filtersAt, Bool.not_false, Bool.not_true, Bool.not_eq_true]
  rfl

/-- A document matches a query that was put into a fresh draft exactly when it
has the text of the tree and every phrase prefix that the tree requires, passes
the filters of all keywords, those under an odd number of exclusions by not
matching them, and lies in the namespaces that the query asks for. -/
theorem holds_build_iff (settings : Settings) (profiles : ProfileService) (query : Query)
    (logged : Bool) (draft : Draft) (leaf : Expr → Bool)
    (hbuild : (fresh settings profiles).build query logged = .ok draft) :
    draft.query.holds leaf ↔
      (∀ t ∈ query.root.textTree true, t.satisfied settings leaf) ∧
      (∀ span text, query.root.Requires (.phrasePrefix span text) →
        leaf (.phrasePrefix settings.titleField text)) ∧
      (∀ odd occurrence feature, query.root.Occurs odd (.keyword occurrence feature) →
        ∀ e ∈ feature.filter occurrence settings, e.holds leaf = !odd) ∧
      ∀ ids, query.namespaces = .these ids → ids.isEmpty = false →
        leaf (.terms settings.namespaceField (ids.elements.map fun id => .int id.toInt)) := by
  obtain rfl := eq_absorb_of_build hbuild
  have hchanges := holds_changes_compile settings profiles query true leaf
  rw [forall_prop_of_true rfl] at hchanges
  exact hchanges

/-- An occurrence of a keyword for the language of a page. -/
def latin : Keyword := ⟨⟨18, 25⟩, "lang", ":", "la", none⟩

/-- A keyword that filters by the field of its own name. -/
def byField : Feature where
  filter := fun keyword _ => some (.term keyword.key (.string keyword.value))

/-- A required phrase prefix beside a word that may match and an excluded
keyword, in one namespace. -/
def mixedQuery : Query where
  root := .boolean ⟨0, 25⟩ [
    ⟨.must, false, .phrasePrefix ⟨0, 10⟩ "red ros"⟩,
    ⟨.should, true, .words ⟨11, 16⟩ "thorn"⟩,
    ⟨.mustNot, true, .keyword latin byField⟩]
  text := "\"red ros*\" thorn -lang:la"
  rawText := "\"red ros*\" thorn -lang:la"
  cleanups := []
  warnings := []
  namespaces := .these (.ofList [0])
  changed := fun h => absurd rfl h

/-- A page in every namespace that has every text, but no value of a field. -/
def anyText : Expr → Bool
  | .term .. => false
  | _ => true

theorem holds_build_iff_mixedQuery :
    let start := fresh {} (ProfileTable.service {})
    start.build mixedQuery false = .ok (start.absorb mixedQuery) ∧
      (start.absorb mixedQuery).query.holds anyText := by
  intro start
  have hbuild : start.build mixedQuery false = .ok (start.absorb mixedQuery) :=
    build_eq_absorb (by decide)
  refine ⟨hbuild, (holds_build_iff _ _ _ _ _ anyText hbuild).mpr ⟨?_, ?_, ?_, ?_⟩⟩
  · intro t ht
    cases ht
    rfl
  · intro span text hrequires
    rfl
  · intro odd occurrence feature hoccurs e he
    obtain ⟨rfl, rfl, rfl⟩ : odd = true ∧ occurrence = latin ∧ feature = byField := by
      simpa [mixedQuery, Node.occurs_boolean, Node.occurs_self] using hoccurs
    cases he
    rfl
  · intro ids hasked hids
    rfl

end Draft

end SearchCompiler
