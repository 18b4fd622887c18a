import SearchCompiler.Proofs.Classifier.Settlement

/-!
Labels that a classifier asserts without owning them. They can be struck out
of every judgment: each classifier settles on what is left of its labels, asks
nobody else than before, and the right answers stay the same, for they look
at a label only in what its owner asserts.
-/

namespace SearchCompiler

/-- The judgment with all labels struck out in the end but some. -/
def Judgment.keepOnly (labels : List String) : Judgment → Judgment
  | .assert asserted => .assert (asserted.filter labels.contains)
  | .ask label next => .ask label fun reply => (next reply).keepOnly labels

/-- The classifier that asserts no labels but its own. -/
def Classifier.withoutStrays (classifier : Classifier) : Classifier where
  labels := classifier.labels
  judge := fun query => (classifier.judge query).keepOnly classifier.labels

namespace Registry

/-- The registry of the same classifiers, none of which asserts labels of
another. -/
def withoutStrays (registry : Registry) : Registry where
  owners := registry.owners
  classifiers := registry.classifiers.map Classifier.withoutStrays
  agrees := by
    intro label index
    rw [List.getElem?_map]
    refine (registry.agrees label index).trans ?_
    cases registry.classifiers[index]? <;> simp [Classifier.withoutStrays]

variable {registry : Registry} {query : Query}

theorem owner?_withoutStrays (label : String) :
    registry.withoutStrays.owner? label = registry.owner? label := rfl

theorem getElem?_withoutStrays (i : Nat) :
    registry.withoutStrays.classifiers[i]? =
      registry.classifiers[i]?.map Classifier.withoutStrays :=
  List.getElem?_map

theorem contains_filter {labels asserted : List String} {label : String} (h : label ∈ labels) :
    (asserted.filter labels.contains).contains label = asserted.contains label := by
  rw [Bool.eq_iff_iff]
  simp [h]

/-- A judgment with strays struck out settles on what is left of the labels it
settles on otherwise. -/
theorem settles_of_keepOnly {judgment kept : Judgment} {labels left : List String}
    (h : Settles registry.withoutStrays query kept left)
    (hkept : kept = judgment.keepOnly labels) :
    ∃ asserted, Settles registry query judgment asserted ∧
      left = asserted.filter labels.contains := by
  induction h generalizing judgment labels with
  | assert left =>
      cases judgment with
      | assert asserted => exact ⟨asserted, .assert asserted, Judgment.assert.inj hkept⟩
      | ask => cases hkept
  | @unowned label _ _ hnone _ ih =>
      cases judgment with
      | assert => cases hkept
      | ask _ next =>
          obtain ⟨rfl, rfl⟩ := Judgment.ask.inj hkept
          obtain ⟨asserted, hsettles, hleft⟩ := ih rfl
          exact ⟨asserted, .unowned (owner?_withoutStrays label ▸ hnone) hsettles, hleft⟩
  | @owned label _ _ _ _ _ howner hclassifier _ _ ihowner ihnext =>
      cases judgment with
      | assert => cases hkept
      | ask _ next =>
          obtain ⟨rfl, rfl⟩ := Judgment.ask.inj hkept
          rw [owner?_withoutStrays] at howner
          obtain ⟨owner, howned, hlabel⟩ := owner?_spec howner
          rw [getElem?_withoutStrays, howned] at hclassifier
          obtain rfl := Option.some.inj hclassifier
          obtain ⟨asserted, hasserted, rfl⟩ := ihowner rfl
          obtain ⟨others, hsettles, hleft⟩ := ihnext rfl
          rw [contains_filter hlabel] at hsettles
          exact ⟨others, .owned howner howned hasserted hsettles, hleft⟩

/-- Right answers do not depend on strays. -/
theorem replies_of_withoutStrays {label : String} {reply : Except QueryError Bool}
    (h : Replies registry.withoutStrays query label reply) :
    Replies registry query label reply := by
  cases h with
  | unowned hnone => exact .unowned (owner?_withoutStrays label ▸ hnone)
  | owned howner hclassifier hsettles =>
      rw [owner?_withoutStrays] at howner
      obtain ⟨owner, howned, hlabel⟩ := owner?_spec howner
      rw [getElem?_withoutStrays, howned] at hclassifier
      obtain rfl := Option.some.inj hclassifier
      obtain ⟨asserted, hasserted, rfl⟩ := settles_of_keepOnly hsettles rfl
      rw [contains_filter hlabel]
      exact .owned howner howned hasserted

/-- A judgment with strays struck out gets no further than it does otherwise. -/
theorem reaches_of_keepOnly {start : Judgment} {labels : List String} {kept : Judgment}
    (h : Reaches registry.withoutStrays query (start.keepOnly labels) kept) :
    ∃ judgment, kept = judgment.keepOnly labels ∧ Reaches registry query start judgment := by
  induction h with
  | start => exact ⟨start, rfl, .start⟩
  | ask _ hreply ih =>
      obtain ⟨judgment, hkept, hreach⟩ := ih
      cases judgment with
      | assert => cases hkept
      | ask label next =>
          obtain ⟨rfl, rfl⟩ := Judgment.ask.inj hkept
          exact ⟨next _, rfl, hreach.ask (replies_of_withoutStrays hreply)⟩

theorem asks_of_withoutStrays {i j : Nat} (h : registry.withoutStrays.Asks query i j) :
    registry.Asks query i j := by
  obtain ⟨_, label, _, hclassifier, hreach, howner⟩ := h
  rw [getElem?_withoutStrays, Option.map_eq_some_iff] at hclassifier
  obtain ⟨classifier, hclassifier, rfl⟩ := hclassifier
  obtain ⟨judgment, hkept, hreach⟩ := reaches_of_keepOnly hreach
  cases judgment with
  | assert => cases hkept
  | ask _ next =>
      obtain ⟨rfl, _⟩ := Judgment.ask.inj hkept
      exact ⟨classifier, label, next, hclassifier, hreach, owner?_withoutStrays label ▸ howner⟩

theorem acyclic_withoutStrays (h : registry.Acyclic query) :
    registry.withoutStrays.Acyclic query := by
  intro i hcycle
  have hsub : registry.withoutStrays.Asks query ≤ registry.Asks query :=
    fun _ _ => asks_of_withoutStrays
  exact h i (Relation.TransGen.mono hsub i i hcycle)

end Registry

end SearchCompiler
