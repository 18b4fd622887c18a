import SearchCompiler.Classifier.Shape

/-!
Ownership of labels over whole runs of registrations. A roster keeps its
owners and its classifiers apart; registering is the only way to change either,
and it changes both or none. So the owner of a label is, at every moment, the
one classifier among those that got in which lists the label, and it can be
looked up without a position ever pointing past the end.
-/

namespace SearchCompiler

namespace Roster

/-- The answers to a run of registrations, and the roster after it. -/
def registerAll (roster : Roster) : List Classifier → List (Except QueryError Unit) × Roster
  | [] => ([], roster)
  | classifier :: rest =>
      let (answer, roster) := roster.register classifier
      let (answers, roster) := roster.registerAll rest
      (answer :: answers, roster)

section Step

variable (roster : Roster) (classifier : Classifier)

/-- A classifier gets in when none of its labels is taken, however often it
lists them itself. -/
theorem register_eq_ok_iff :
    (roster.register classifier).1 = .ok () ↔
      ∀ label ∈ classifier.labels, roster.hasClass label = false := by
  unfold register
  split
  · next label hfind =>
      refine iff_of_false (by simp) fun hfree => ?_
      have htaken := List.find?_some hfind
      rw [hfree label (List.mem_of_find?_eq_some hfind)] at htaken
      exact Bool.false_ne_true htaken
  · next hfind =>
      refine iff_of_true rfl fun label hlabel => ?_
      exact Bool.eq_false_iff.mpr (List.find?_eq_none.mp hfind label hlabel)

/-- Otherwise the first of its labels that is taken is named. -/
theorem register_eq_error_iff (error : QueryError) :
    (roster.register classifier).1 = .error error ↔
      ∃ before label after, classifier.labels = before ++ label :: after ∧
        (∀ other ∈ before, roster.hasClass other = false) ∧ roster.hasClass label = true ∧
        error = .classTaken label := by
  have hfind (label : String) : classifier.labels.find? roster.hasClass = some label ↔
      ∃ before after, classifier.labels = before ++ label :: after ∧
        (∀ other ∈ before, roster.hasClass other = false) ∧ roster.hasClass label = true := by
    rw [List.find?_eq_some_iff_append]
    simp only [Bool.not_eq_true']
    constructor
    · rintro ⟨htaken, before, after, hlabels, hfree⟩
      exact ⟨before, after, hlabels, hfree, htaken⟩
    · rintro ⟨before, after, hlabels, hfree, htaken⟩
      exact ⟨htaken, before, after, hlabels, hfree⟩
  unfold register
  split
  · next label hlabel =>
      obtain ⟨before, after, hlabels, hfree, htaken⟩ := (hfind label).mp hlabel
      constructor
      · intro heq
        cases heq
        exact ⟨before, label, after, hlabels, hfree, htaken, rfl⟩
      · rintro ⟨before, other, after, hlabels, hfree, htaken, rfl⟩
        have hother := (hfind other).mpr ⟨before, after, hlabels, hfree, htaken⟩
        rw [Option.some.inj (hlabel.symm.trans hother)]
  · next hnone =>
      refine iff_of_false nofun ?_
      rintro ⟨before, label, after, hlabels, hfree, htaken, _⟩
      have hlabel := (hfind label).mpr ⟨before, after, hlabels, hfree, htaken⟩
      cases hnone.symm.trans hlabel

theorem register_of_error {error : QueryError}
    (h : (roster.register classifier).1 = .error error) :
    (roster.register classifier).2 = roster := by
  unfold register at h ⊢
  split at h
  · rfl
  · cases h

theorem classifiers_register :
    (roster.register classifier).2.classifiers =
      roster.classifiers ++ if (roster.register classifier).1.isOk then [classifier] else [] := by
  unfold register
  split
  · exact (List.append_nil _).symm
  · rfl

end Step

/-- The classifiers of a roster are those that got in, in the order of the
calls. -/
theorem classifiers_registerAll (roster : Roster) (calls : List Classifier) :
    (roster.registerAll calls).2.classifiers =
      roster.classifiers ++
        ((calls.zip (roster.registerAll calls).1).filter (·.2.isOk)).map (·.1) := by
  induction calls generalizing roster with
  | nil => simp [registerAll]
  | cons classifier rest ih =>
      rw [registerAll]
      simp only
      rw [ih, classifiers_register, List.append_assoc, List.zip_cons_cons, List.filter_cons]
      split <;> rfl

/-- Owners and classifiers agree throughout a run. -/
theorem Agrees.registerAll {roster : Roster} (h : roster.Agrees) (calls : List Classifier) :
    (roster.registerAll calls).2.Agrees := by
  induction calls generalizing roster with
  | nil => exact h
  | cons classifier rest ih => exact ih (h.register classifier)

section Lookup

variable {roster : Roster} (h : roster.Agrees)

include h

theorem Agrees.ownerIndex_eq_ok_iff (label : String) (index : Nat) :
    roster.ownerIndex label = .ok index ↔
      ∃ hlt : index < roster.classifiers.length, label ∈ roster.classifiers[index].labels := by
  have howner : roster.ownerIndex label = .ok index ↔ roster.owner? label = some index := by
    unfold ownerIndex
    split <;> simp_all
  rw [howner, h label index]
  constructor
  · rintro ⟨classifier, hclassifier, hlabel⟩
    obtain ⟨hlt, rfl⟩ := List.getElem?_eq_some_iff.mp hclassifier
    exact ⟨hlt, hlabel⟩
  · rintro ⟨hlt, hlabel⟩
    exact ⟨_, List.getElem?_eq_getElem hlt, hlabel⟩

/-- No label is listed by classifiers at two positions. -/
theorem Agrees.index_unique {label : String} {i j : Nat} (hi : i < roster.classifiers.length)
    (hj : j < roster.classifiers.length) (hlabel : label ∈ roster.classifiers[i].labels)
    (hother : label ∈ roster.classifiers[j].labels) : i = j := by
  have howner := (h.ownerIndex_eq_ok_iff label i).mpr ⟨hi, hlabel⟩
  have howner' := (h.ownerIndex_eq_ok_iff label j).mpr ⟨hj, hother⟩
  exact Except.ok.inj (howner.symm.trans howner')

/-- A label that is taken has an owner, found at a position within the
classifiers. -/
theorem Agrees.get_of_hasClass {label : String} (htaken : roster.hasClass label = true) :
    ∃ index, ∃ hlt : index < roster.classifiers.length,
      roster.ownerIndex label = .ok index ∧ roster.get label = .ok roster.classifiers[index] := by
  obtain ⟨index, howner⟩ := Option.isSome_iff_exists.mp htaken
  obtain ⟨classifier, hclassifier, _⟩ := (h label index).mp howner
  obtain ⟨hlt, rfl⟩ := List.getElem?_eq_some_iff.mp hclassifier
  refine ⟨index, hlt, ?_, ?_⟩
  · simp only [ownerIndex, howner]
  · simp only [get, howner, Option.bind_some, hclassifier]

theorem Agrees.mem_classes (label : String) :
    label ∈ roster.classes.elements ↔
      ∃ classifier ∈ roster.classifiers, label ∈ classifier.labels := by
  have hentry : label ∈ roster.classes.elements ↔ ∃ index, roster.owner? label = some index := by
    rw [classes, SortedSet.mem_ofList, List.mem_map]
    constructor
    · rintro ⟨⟨_, index⟩, hmem, rfl⟩
      exact ⟨index, (Table.mem_entries_iff _ _ _).mp hmem⟩
    · rintro ⟨index, howner⟩
      exact ⟨(label, index), (Table.mem_entries_iff _ _ _).mpr howner, rfl⟩
  rw [hentry]
  constructor
  · rintro ⟨index, howner⟩
    obtain ⟨classifier, hclassifier, hlabel⟩ := (h label index).mp howner
    exact ⟨classifier, List.mem_of_getElem? hclassifier, hlabel⟩
  · rintro ⟨classifier, hmem, hlabel⟩
    obtain ⟨index, hclassifier⟩ := List.mem_iff_getElem?.mp hmem
    exact ⟨index, (h label index).mpr ⟨classifier, hclassifier, hlabel⟩⟩

end Lookup

/-- A label that is not taken has no owner. -/
theorem get_of_not_hasClass {roster : Roster} {label : String}
    (hfree : roster.hasClass label = false) :
    roster.ownerIndex label = .error (.unknownClass label) ∧
      roster.get label = .error (.unknownClass label) := by
  have hnone : roster.owner? label = none :=
    Option.isNone_iff_eq_none.mp (Option.isSome_eq_false_iff.mp hfree)
  simp only [ownerIndex, get, hnone, Option.bind_none, and_self]

/-- Registration is atomic and ownership exclusive, after every run of
registrations that starts from nothing or from the built-in classifier. The
next classifier gets in exactly when none of its labels is taken; otherwise
the first one taken is named and the roster stays as it is. A position owns a
label exactly when the classifier there lists it, which is so at one position
at most, and looking up an owner never goes past the end. The classifiers are
those that got in, in their order, and the classes are all of their labels in
ascending order. -/
theorem registerAll_exclusive (builtIn : Bool) (calls : List Classifier) :
    let start := if builtIn then Registry.standard.toRoster else {}
    let answers := (start.registerAll calls).1
    let roster := (start.registerAll calls).2
    (∀ next : Classifier,
      ((roster.register next).1 = .ok () ↔
        ∀ label ∈ next.labels, roster.hasClass label = false) ∧
      ∀ error, (roster.register next).1 = .error error →
        (roster.register next).2 = roster ∧
          ∃ before label after, next.labels = before ++ label :: after ∧
            (∀ other ∈ before, roster.hasClass other = false) ∧
            roster.hasClass label = true ∧ error = .classTaken label) ∧
    (∀ label index, roster.ownerIndex label = .ok index ↔
      ∃ hlt : index < roster.classifiers.length, label ∈ roster.classifiers[index].labels) ∧
    (∀ label i j, ∀ hi : i < roster.classifiers.length, ∀ hj : j < roster.classifiers.length,
      label ∈ roster.classifiers[i].labels → label ∈ roster.classifiers[j].labels → i = j) ∧
    (∀ label, if roster.hasClass label then
        ∃ index, ∃ hlt : index < roster.classifiers.length,
          roster.ownerIndex label = .ok index ∧ roster.get label = .ok roster.classifiers[index]
      else
        roster.ownerIndex label = .error (.unknownClass label) ∧
          roster.get label = .error (.unknownClass label)) ∧
    roster.classifiers = (if builtIn then [Shape.classifier] else []) ++
      ((calls.zip answers).filter (·.2.isOk)).map (·.1) ∧
    roster.classes.elements.Pairwise (· < ·) ∧
    ∀ label, label ∈ roster.classes.elements ↔
      ∃ classifier ∈ roster.classifiers, label ∈ classifier.labels := by
  intro start answers roster
  have hstart : start.Agrees := by
    cases builtIn
    · exact agrees_empty
    · exact Registry.standard.agrees
  have hclassifiers : start.classifiers = if builtIn then [Shape.classifier] else [] := by
    cases builtIn <;> rfl
  have h : roster.Agrees := hstart.registerAll calls
  refine ⟨fun next => ⟨register_eq_ok_iff roster next, fun error herror => ?_⟩,
    h.ownerIndex_eq_ok_iff, fun label i j hi hj => h.index_unique hi hj, fun label => ?_, ?_,
    roster.classes.ascending, h.mem_classes⟩
  · exact ⟨register_of_error roster next herror,
      (register_eq_error_iff roster next error).mp herror⟩
  · split
    · next htaken => exact h.get_of_hasClass htaken
    · next hfree => exact get_of_not_hasClass (Bool.eq_false_iff.mpr hfree)
  · rw [← hclassifiers]
    exact classifiers_registerAll start calls

/-- A label that a classifier lists twice is no conflict, one of another
classifier is, wherever it stands in the list. -/
example :
    let first : Classifier := ⟨["rose", "tulip", "rose"], fun _ => .assert []⟩
    let second : Classifier := ⟨["moss", "tulip", "rose"], fun _ => .assert []⟩
    let (answers, roster) := registerAll {} [first, second]
    answers = [.ok (), .error (.classTaken "tulip")] ∧
      roster.classes.elements = ["rose", "tulip"] := by
  refine ⟨?_, ?_⟩
  · rfl
  · decide +kernel

end Roster

end SearchCompiler
