import SearchCompiler.Query

/-!
Classifiers of queries and the registry of those in use. A classifier owns
labels and says which of them apply to a query; to find out, it may ask
whether labels of other classifiers apply.

A roster lists the classifiers in use and notes for each label the position of
its owner. The two are written one after the other, so nothing in a roster says
that they agree; a registry is a roster in which they do. Every label then has
at most one owner.
-/

namespace SearchCompiler

/-- How a classifier comes to its labels: at once, or by a question about a
label and going on from the answer. -/
inductive Judgment where
  | assert (labels : List String)
  | ask (label : String) (next : Except QueryError Bool → Judgment)

structure Classifier where
  labels : List String
  judge : Query → Judgment

structure Roster where
  /-- The position of the owner of each label. -/
  owners : Table Nat := .empty
  /-- In the order of their registration. -/
  classifiers : List Classifier := []

namespace Roster

/-- The position of the owner of a label. -/
def owner? (roster : Roster) (label : String) : Option Nat :=
  roster.owners.get? label

def hasClass (roster : Roster) (label : String) : Bool :=
  (roster.owner? label).isSome

def ownerIndex (roster : Roster) (label : String) : Except QueryError Nat :=
  match roster.owner? label with
  | some index => .ok index
  | none => .error (.unknownClass label)

/-- The owner of a label. -/
def get (roster : Roster) (label : String) : Except QueryError Classifier :=
  match (roster.owner? label).bind (roster.classifiers[·]?) with
  | some classifier => .ok classifier
  | none => .error (.unknownClass label)

/-- All labels with an owner. -/
def classes (roster : Roster) : SortedSet String :=
  .ofList (roster.owners.entries.map (·.1))

/-- Enters a classifier with all of its labels. -/
def enter (roster : Roster) (classifier : Classifier) : Roster :=
  let position := roster.classifiers.length
  { owners := classifier.labels.foldl (fun owners label => owners.insert label position)
      roster.owners
    classifiers := roster.classifiers ++ [classifier] }

/-- Enters a classifier unless one of its labels has an owner already; the
first such label is named then, and nothing is entered. -/
def register (roster : Roster) (classifier : Classifier) : Except QueryError Unit × Roster :=
  match classifier.labels.find? roster.hasClass with
  | some label => (.error (.classTaken label), roster)
  | none => (.ok (), roster.enter classifier)

/-- The owner of a label is the classifier that lists it. -/
def Agrees (roster : Roster) : Prop :=
  ∀ label index, roster.owner? label = some index ↔
    ∃ classifier, roster.classifiers[index]? = some classifier ∧ label ∈ classifier.labels

theorem agrees_empty : Agrees {} := by
  intro label index
  simp [owner?, Table.get?_empty]

theorem owner?_enter (roster : Roster) (classifier : Classifier) (label : String) :
    (roster.enter classifier).owner? label =
      if label ∈ classifier.labels then some roster.classifiers.length
      else roster.owner? label := by
  have hinsert (labels : List String) (owners : Table Nat) (position : Nat) :
      (labels.foldl (fun owners label => owners.insert label position) owners).get? label =
        if label ∈ labels then some position else owners.get? label := by
    induction labels generalizing owners with
    | nil => simp
    | cons first rest ih =>
        rw [List.foldl_cons, ih, Table.get?_insert]
        by_cases hrest : label ∈ rest <;> by_cases hfirst : label = first <;>
          simp [hrest, hfirst]
  exact hinsert classifier.labels roster.owners roster.classifiers.length

/-- No label pointed to the position that a classifier takes, and its own
labels pointed nowhere. -/
theorem Agrees.enter {roster : Roster} (h : roster.Agrees) {classifier : Classifier}
    (hfree : ∀ label ∈ classifier.labels, roster.owner? label = none) :
    (roster.enter classifier).Agrees := by
  intro label index
  have hbeyond (hindex : roster.classifiers.length ≤ index) : roster.owner? label ≠ some index := by
    rw [ne_eq, h label index, List.getElem?_eq_none hindex]
    simp
  rw [owner?_enter, Roster.enter]
  rcases Nat.lt_trichotomy index roster.classifiers.length with hlt | rfl | hgt
  · rw [List.getElem?_append_left hlt, ← h label index]
    split
    · next hlabel => simp [hfree label hlabel, Nat.ne_of_gt hlt]
    · rfl
  · rw [List.getElem?_concat_length]
    split
    · next hlabel => simp [hlabel]
    · next hlabel => simpa [hlabel] using hbeyond (Nat.le_refl _)
  · rw [List.getElem?_eq_none (by simpa using Nat.succ_le_of_lt hgt)]
    split
    · simp [Nat.ne_of_lt hgt]
    · simpa using hbeyond (Nat.le_of_lt hgt)

theorem Agrees.register {roster : Roster} (h : roster.Agrees) (classifier : Classifier) :
    (roster.register classifier).2.Agrees := by
  unfold Roster.register
  split
  · exact h
  · next hnone =>
      refine h.enter fun label hlabel => ?_
      simpa [hasClass] using List.find?_eq_none.mp hnone label hlabel

end Roster

/-- The classifiers in use. -/
structure Registry extends Roster where
  agrees : toRoster.Agrees

namespace Registry

def empty : Registry := ⟨{}, Roster.agrees_empty⟩

instance : Inhabited Registry := ⟨empty⟩

/-- Adds a classifier with all of its labels, or none of them if one has an
owner already. -/
def register (registry : Registry) (classifier : Classifier) : Except QueryError Registry :=
  let (outcome, _) := registry.toRoster.register classifier
  outcome.map fun _ =>
    ⟨(registry.toRoster.register classifier).2, registry.agrees.register classifier⟩

end Registry

end SearchCompiler
