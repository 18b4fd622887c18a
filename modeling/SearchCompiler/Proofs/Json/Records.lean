import Mathlib.Data.List.Basic
import SearchCompiler.Json.Record

/-!
Records in documents. A record asks an object only for what stands under the names of its
fields, so two objects are the same record if they have alike documents under each of
these names. Two documents are alike under a name if the field cannot tell them apart, and
a missing one is like one that stands for the default. This covers what may happen to a
stored record without any change of meaning: its entries are put in another order, others
that are no fields come to it, and fields are left out that have their defaults.
-/

namespace SearchCompiler

/-- What stands under a name in an object. -/
def under (name : String) (entries : List (Option String × Document)) : List Document :=
  entries.filterMap fun entry => if entry.1 = some name then some entry.2 else none

/-- An object after what stands under a name is deleted. -/
def deleted (name : String) (entries : List (Option String × Document)) :
    List (Option String × Document) :=
  entries.filter fun entry => entry.1 != some name

section Under

variable {name other : String} {entries : List (Option String × Document)}

theorem under_cons (key : Option String) (d : Document) :
    under name ((key, d) :: entries) =
      if key = some name then d :: under name entries else under name entries := by
  rw [under, List.filterMap_cons]
  by_cases h : key = some name
  · rw [if_pos h, if_pos h]
    rfl
  · rw [if_neg h, if_neg h]
    rfl

theorem under_append (before after : List (Option String × Document)) :
    under name (before ++ after) = under name before ++ under name after :=
  List.filterMap_append

theorem countP_eq_length_under :
    entries.countP (·.1 == some name) = (under name entries).length := by
  induction entries with
  | nil => rfl
  | cons entry rest ih =>
      obtain ⟨key, d⟩ := entry
      rw [List.countP_cons, ih, under_cons]
      by_cases h : key = some name <;> simp [h]

theorem lookup_eq_head?_under : entries.lookup (some name) = (under name entries).head? := by
  induction entries with
  | nil => rfl
  | cons entry rest ih =>
      obtain ⟨key, d⟩ := entry
      rw [lookup_cons_eq, under_cons, ih]
      by_cases h : key = some name
      · rw [if_pos h, if_pos h.symm, List.head?_cons]
      · rw [if_neg h, if_neg (Ne.symm h)]

theorem under_deleted_self : under name (deleted name entries) = [] := by
  rw [under, deleted, List.filterMap_filter, List.filterMap_eq_nil_iff]
  intro entry _
  by_cases h : entry.1 = some name <;> simp [h]

theorem under_deleted_of_ne (h : other ≠ name) :
    under other (deleted name entries) = under other entries := by
  rw [under, deleted, List.filterMap_filter]
  refine List.filterMap_congr fun entry _ => ?_
  by_cases hkey : entry.1 = some other
  · simp [hkey, h]
  · simp [hkey]

theorem mem_under {d : Document} : d ∈ under name entries ↔ (some name, d) ∈ entries := by
  rw [under, List.mem_filterMap]
  constructor
  · rintro ⟨⟨key, value⟩, hentry, hvalue⟩
    by_cases h : key = some name
    · simp_all
    · simp [h] at hvalue
  · intro hentry
    exact ⟨_, hentry, if_pos rfl⟩

end Under

namespace Document

/-- A record takes an object whose keys are readable and which has no field twice, and
finds in it what stands under a name. -/
theorem record?_object (names : List String) (entries : List (Option String × Document)) :
    (object entries).record? names =
      if entries.all (·.1.isSome) && names.all fun name => (under name entries).length ≤ 1
      then some fun name => (under name entries).head? else none := by
  simp only [record?, countP_eq_length_under, lookup_eq_head?_under]

theorem record?_object_eq_some {names : List String}
    {entries : List (Option String × Document)} {field : String → Option Document}
    (h : (object entries).record? names = some field) :
    (∀ name ∈ names, (under name entries).length ≤ 1) ∧
      ∀ name, field name = (under name entries).head? := by
  rw [record?_object] at h
  split at h
  · next hcheck =>
      obtain rfl := Option.some.inj h
      have honce := List.all_eq_true.mp (Bool.and_eq_true_iff.mp hcheck).2
      exact ⟨fun name hname => of_decide_eq_true (honce name hname), fun _ => rfl⟩
  · cases h

/-- What is deleted is not found. -/
theorem record?_deleted {names : List String} {name : String}
    {entries : List (Option String × Document)} {field : String → Option Document}
    (h : (object (deleted name entries)).record? names = some field) : field name = none := by
  rw [(record?_object_eq_some h).2, under_deleted_self, List.head?_nil]

/-- A field finds what stands under its name, for nothing else may stand there. -/
theorem record?_of_mem {names : List String} {name : String} {d : Document}
    {entries : List (Option String × Document)} {field : String → Option Document}
    (h : (object entries).record? names = some field) (hname : name ∈ names)
    (hmem : (some name, d) ∈ entries) : field name = some d := by
  obtain ⟨honce, hfield⟩ := record?_object_eq_some h
  rw [hfield]
  have hunder := mem_under.mpr hmem
  match hlist : under name entries, honce name hname with
  | [], _ => rw [hlist] at hunder; cases hunder
  | [other], _ =>
      rw [hlist] at hunder
      rw [List.mem_singleton.mp hunder, List.head?_cons]

/-- What a field may find in two documents of the same record: documents that it does not
tell apart, nothing in both, or nothing in the second where the first has the default. -/
inductive Alike (same : Document → Document → Prop) (default : Document → Prop) :
    Option Document → Option Document → Prop
  | both {d d' : Document} : same d d' → Alike same default (some d) (some d')
  | neither : Alike same default none none
  | missing {d : Document} : default d → Alike same default (some d) none

section Fields

variable {same : Document → Document → Prop} {default : Document → Prop} {α : Type}

theorem alike_refl (hsame : ∀ d, same d d) (field : Option Document) :
    Alike same default field field := by
  cases field with
  | none => exact .neither
  | some d => exact .both (hsame d)

theorem alike_head? (hsame : ∀ d, same d d) {d d' : Document} (h : same d d')
    (before after : List Document) :
    Alike same default (before ++ d :: after).head? (before ++ d' :: after).head? := by
  cases before with
  | nil => exact .both h
  | cons first before => exact alike_refl hsame _

theorem required_of_alike {decode : Document → Option α} {field field' : Option Document}
    (h : Alike same default field field') (hsame : ∀ d d', same d d' → decode d = decode d')
    (hdefault : ∀ d, ¬ default d) : required decode field = required decode field' := by
  cases h with
  | both h => exact hsame _ _ h
  | neither => rfl
  | missing h => exact absurd h (hdefault _)

theorem defaulted_of_alike {decode : Document → Option α} {value : α}
    {field field' : Option Document} (h : Alike same default field field')
    (hsame : ∀ d d', same d d' → decode d = decode d')
    (hdefault : ∀ d, default d → decode d = some value) :
    defaulted value decode field = defaulted value decode field' := by
  cases h with
  | both h => exact hsame _ _ h
  | neither => rfl
  | missing h => exact hdefault _ h

end Fields

/-- Both documents are refused as a record, or each field finds alike documents in them. -/
def SameRecord (names : List String) (same : Document → Document → Prop)
    (default : String → Document → Prop) (d d' : Document) : Prop :=
  Option.Rel (fun field field' => ∀ name ∈ names,
    Alike same (default name) (field name) (field' name)) (d.record? names) (d'.record? names)

section SameRecord

variable {names : List String} {same : Document → Document → Prop}
  {default : String → Document → Prop}

/-- What is made of alike fields is made of the same record. -/
theorem bind_record?_eq {α : Type} {make : (String → Option Document) → Option α}
    {d d' : Document} (h : SameRecord names same default d d')
    (hmake : ∀ field field' : String → Option Document,
      (∀ name ∈ names, Alike same (default name) (field name) (field' name)) →
        make field = make field') :
    (d.record? names).bind make = (d'.record? names).bind make := by
  unfold SameRecord at h
  generalize d.record? names = found at h
  generalize d'.record? names = found' at h
  cases h with
  | some h => exact hmake _ _ h
  | none => rfl

/-- Objects are the same record if a field that stands once or not at all does so in both,
with alike documents. -/
theorem sameRecord_object {entries entries' : List (Option String × Document)}
    (hkeys : entries.all (·.1.isSome) = entries'.all (·.1.isSome))
    (hlength : ∀ name ∈ names,
      (under name entries).length ≤ 1 ↔ (under name entries').length ≤ 1)
    (halike : ∀ name ∈ names, (under name entries).length ≤ 1 →
      Alike same (default name) (under name entries).head? (under name entries').head?) :
    SameRecord names same default (.object entries) (.object entries') := by
  -- The check that no field stands twice comes out alike, so both are taken or neither.
  have hcheck : (names.all fun name => decide ((under name entries).length ≤ 1)) =
      names.all fun name => decide ((under name entries').length ≤ 1) := by
    rw [Bool.eq_iff_iff, List.all_eq_true, List.all_eq_true]
    refine forall₂_congr fun name hname => ?_
    rw [decide_eq_true_iff, decide_eq_true_iff, hlength name hname]
  rw [SameRecord, record?_object, record?_object, ← hkeys, ← hcheck]
  split
  · next h =>
      have honce := List.all_eq_true.mp (Bool.and_eq_true_iff.mp h).2
      exact .some fun name hname => halike name hname (of_decide_eq_true (honce name hname))
  · exact .none

theorem sameRecord_refl (hsame : ∀ d, same d d) (d : Document) :
    SameRecord names same default d d := by
  unfold SameRecord
  cases d.record? names with
  | none => exact .none
  | some field => exact .some fun name _ => alike_refl hsame (field name)

/-- In an object one document may be replaced by another of the same kind. -/
theorem sameRecord_entry (hsame : ∀ d, same d d) {d d' : Document} (h : same d d')
    (before after : List (Option String × Document)) (key : Option String) :
    SameRecord names same default (.object (before ++ (key, d) :: after))
      (.object (before ++ (key, d') :: after)) := by
  have hkeys : (before ++ (key, d) :: after).all (·.1.isSome) =
      (before ++ (key, d') :: after).all (·.1.isSome) := by
    rw [List.all_append, List.all_cons, List.all_append, List.all_cons]
  refine sameRecord_object hkeys ?_ ?_
  · intro name _
    rw [under_append, under_cons, under_append, under_cons]
    split <;> simp
  · intro name _ _
    rw [under_append, under_cons, under_append, under_cons]
    split
    · exact alike_head? hsame h _ _
    · exact alike_refl hsame _

/-- Changes to the object of a record: something comes to it under a name that is no field,
or the default of a field is deleted that stands there once. -/
inductive Adjusts (names : List String) (default : String → Document → Prop) :
    Document → Document → Prop
  | add {name : String} (before after : List (Option String × Document)) (d : Document) :
      name ∉ names →
      Adjusts names default (.object (before ++ after))
        (.object (before ++ (some name, d) :: after))
  | delete {name : String} {d : Document} {entries : List (Option String × Document)} :
      under name entries = [d] → default name d →
      Adjusts names default (.object entries) (.object (deleted name entries))

/-- Such changes leave the record what it was. -/
theorem sameRecord_of_adjusts (hsame : ∀ d, same d d) {d d' : Document}
    (h : Adjusts names default d d') : SameRecord names same default d d' := by
  cases h with
  | @add name before after d hname =>
      have hunder : ∀ other ∈ names, under other (before ++ (some name, d) :: after) =
          under other (before ++ after) := by
        intro other hother
        have hne : some name ≠ some other := fun heq => hname (Option.some.inj heq ▸ hother)
        rw [under_append, under_cons, if_neg hne, under_append]
      have hkeys : (before ++ (some name, d) :: after).all (·.1.isSome) =
          (before ++ after).all (·.1.isSome) := by
        rw [List.all_append, List.all_cons, List.all_append]
        rfl
      refine sameRecord_object hkeys.symm ?_ ?_
      · intro other hother
        rw [hunder other hother]
      · intro other hother _
        rw [hunder other hother]
        exact alike_refl hsame _
  | @delete name d entries hunder hdefault =>
      -- Only under the deleted name does anything change, where one entry becomes none.
      have hkeys : (deleted name entries).all (·.1.isSome) = entries.all (·.1.isSome) := by
        rw [deleted, List.all_filter]
        refine List.all_congr rfl fun entry => ?_
        by_cases h : entry.1 = some name <;> simp [h]
      refine sameRecord_object hkeys.symm ?_ ?_
      · intro other _
        by_cases heq : other = name
        · subst heq
          rw [under_deleted_self, hunder]
          exact iff_of_true (Nat.le_refl 1) (Nat.zero_le 1)
        · rw [under_deleted_of_ne heq]
      · intro other _ _
        by_cases heq : other = name
        · subst heq
          rw [under_deleted_self, hunder]
          exact .missing hdefault
        · rw [under_deleted_of_ne heq]
          exact alike_refl hsame _

end SameRecord

end Document

end SearchCompiler
