import Mathlib.Data.List.Nodup
import SearchCompiler.Proofs.Json.Written

/-!
The order of keys in documents. Objects are maps, so the order in which a document writes
their entries should not matter, at whatever depth. Here a document is changed by moving
the entries of one of its objects about, and no decoder notices: the fields of a record are
found by their names, the entries of a table are sorted, and all else is no object or has
one entry.
-/

namespace SearchCompiler

section Lists

variable {α β : Type}

theorem mapM_congr_item {f : α → Option β} {a b : α} (h : f a = f b) (before after : List α) :
    (before ++ a :: after).mapM f = (before ++ b :: after).mapM f := by
  rw [List.mapM_append, List.mapM_append, List.mapM_cons, List.mapM_cons, h]

/-- What is read from a list in another order is the same in another order. -/
theorem mapM_perm {f : α → Option β} {xs ys : List α} (h : xs.Perm ys) :
    Option.Rel List.Perm (xs.mapM f) (ys.mapM f) := by
  induction h with
  | nil => exact .some .nil
  | @cons a xs ys _ ih =>
      rw [List.mapM_cons, List.mapM_cons]
      cases f a with
      | none => exact .none
      | some b =>
          generalize xs.mapM f = found at ih
          generalize ys.mapM f = found' at ih
          cases ih with
          | none => exact .none
          | some hperm => exact .some (hperm.cons b)
  | swap a b xs =>
      simp only [List.mapM_cons]
      cases f a with
      | none => cases f b <;> exact .none
      | some c =>
          cases f b with
          | none => exact .none
          | some d =>
              cases xs.mapM f with
              | none => exact .none
              | some found => exact .some (.swap c d found)
  | @trans xs ys zs _ _ ih ih' =>
      generalize xs.mapM f = first at ih ⊢
      generalize ys.mapM f = second at ih ih'
      generalize zs.mapM f = third at ih' ⊢
      cases ih with
      | none => cases ih'; exact .none
      | some hperm =>
          cases ih' with
          | some hperm' => exact .some (hperm.trans hperm')

theorem eq_of_perm_of_length_le_one {xs ys : List α} (h : xs.Perm ys) (hlength : xs.length ≤ 1) :
    xs = ys := by
  match xs with
  | [] => exact h.nil_eq
  | [_] => exact List.singleton_perm.mp h
  | _ :: _ :: rest =>
      rw [List.length_cons, List.length_cons] at hlength
      omega

end Lists

/-- Documents of which the second has the entries of one object in another order. -/
inductive Document.Reorders : Document → Document → Prop
  | refl (d : Document) : Reorders d d
  | entries {entries entries' : List (Option String × Document)} :
      entries.Perm entries' → (entries.map Prod.fst).Nodup →
      Reorders (.object entries) (.object entries')
  | item {d d' : Document} (before after : List Document) :
      Reorders d d' → Reorders (.array (before ++ d :: after)) (.array (before ++ d' :: after))
  | entry {d d' : Document} (before after : List (Option String × Document))
      (key : Option String) :
      Reorders d d' →
      Reorders (.object (before ++ (key, d) :: after)) (.object (before ++ (key, d') :: after))

namespace Document

section Decoders

variable {d d' : Document}

theorem string?_of_reorders (h : d.Reorders d') : d.string? = d'.string? := by
  cases h <;> rfl

theorem natBelow?_of_reorders (bound : Nat) (h : d.Reorders d') :
    d.natBelow? bound = d'.natBelow? bound := by
  cases h <;> rfl

theorem uint32?_of_reorders (h : d.Reorders d') : d.uint32? = d'.uint32? := by
  rw [uint32?, uint32?, natBelow?_of_reorders _ h]

theorem uint64?_of_reorders (h : d.Reorders d') : d.uint64? = d'.uint64? := by
  rw [uint64?, uint64?, natBelow?_of_reorders _ h]

theorem double?_of_reorders (h : d.Reorders d') : d.double? = d'.double? := by
  cases h <;> rfl

theorem list?_of_reorders {α : Type} {item? : Document → Option α}
    (hitem : ∀ d d' : Document, d.Reorders d' → item? d = item? d') (h : d.Reorders d') :
    d.list? item? = d'.list? item? := by
  cases h with
  | item before after h => exact mapM_congr_item (hitem _ _ h) before after
  | _ => rfl

theorem choice?_object_cons_cons {α : Type} (choices : List (String × α))
    (first second : Option String × Document) (rest : List (Option String × Document)) :
    (object (first :: second :: rest)).choice? choices = none := by
  obtain ⟨key, d⟩ := first
  cases d <;> rfl

/-- A choice is named by a string or by the one key of an object. -/
theorem choice?_of_reorders {α : Type} (choices : List (String × α)) (h : d.Reorders d') :
    d.choice? choices = d'.choice? choices := by
  cases h with
  | refl => rfl
  | item => rfl
  | @entries entries entries' hperm _ =>
      match entries, entries' with
      | [], _ => rw [hperm.nil_eq]
      | [entry], _ => rw [List.singleton_perm.mp hperm]
      | _ :: _ :: _, [] => cases hperm.length_eq
      | _ :: _ :: _, [_] => cases hperm.length_eq
      | _ :: _ :: _, _ :: _ :: _ => rw [choice?_object_cons_cons, choice?_object_cons_cons]
  | entry before after key h =>
      match before, after with
      | [], [] => cases h <;> rfl
      | [], _ :: _ | [_], _ | _ :: _ :: _, _ =>
          exact (choice?_object_cons_cons ..).trans (choice?_object_cons_cons ..).symm

section Tables

variable {α : Type} {value? : Document → Option α}

/-- The names in a table are the keys of the object. -/
theorem names_of_mapM {entries : List (Option String × Document)}
    {found : List (String × α)} (h : entries.mapM (namedValue? value?) = some found) :
    entries.map Prod.fst = (found.map Prod.fst).map some := by
  induction entries generalizing found with
  | nil =>
      obtain rfl : [] = found := Option.some.inj h
      rfl
  | cons entry rest ih =>
      simp only [List.mapM_cons, Option.bind_eq_bind, Option.bind_eq_some_iff] at h
      obtain ⟨⟨name, value⟩, hentry, others, hothers, hfound⟩ := h
      obtain rfl : (name, value) :: others = found := Option.some.inj hfound
      obtain ⟨hkey, _⟩ := namedValue?_eq_some_iff.mp hentry
      rw [List.map_cons, List.map_cons, List.map_cons, ih hothers, hkey]

/-- A table sorts its entries. -/
theorem table?_of_reorders
    (hvalue : ∀ d d' : Document, d.Reorders d' → value? d = value? d') (h : d.Reorders d') :
    d.table? value? = d'.table? value? := by
  cases h with
  | refl => rfl
  | item => rfl
  | @entries entries entries' hperm hdistinct =>
      have hfound := mapM_perm (f := namedValue? value?) hperm
      -- Of entries with one name the last one counts, so their order matters unless the
      -- names are distinct.
      have hnames {found : List (String × α)} (h : entries.mapM (namedValue? value?) = some found) :
          (found.map Prod.fst).Nodup := by
        rw [names_of_mapM h] at hdistinct
        exact List.Nodup.of_map some hdistinct
      rw [table?, table?, entries?_object, entries?_object]
      generalize entries.mapM (namedValue? value?) = found at hfound hnames
      generalize entries'.mapM (namedValue? value?) = found' at hfound
      cases hfound with
      | none => rfl
      | some hperm => exact congrArg some (Table.ofList_of_perm hperm (hnames rfl))
  | @entry d d' before after key h =>
      have hentry : namedValue? value? (key, d) = namedValue? value? (key, d') := by
        rw [namedValue?, namedValue?, hvalue d d' h]
      rw [table?, table?, entries?_object, entries?_object, mapM_congr_item hentry]

end Tables

end Decoders

section Records

variable {names : List String} {default : String → Document → Prop} {d d' : Document}

theorem record?_array (names : List String) (items : List Document) :
    (array items).record? names =
      if items.length ≤ names.length then some fun name => items[names.idxOf name]? else none :=
  rfl

theorem alike_getElem? {default : Document → Prop} (h : d.Reorders d')
    (before after : List Document) (i : Nat) :
    Alike Reorders default (before ++ d :: after)[i]? (before ++ d' :: after)[i]? := by
  induction before generalizing i with
  | nil =>
      cases i with
      | zero => exact .both h
      | succ i => exact alike_refl .refl _
  | cons first before ih =>
      cases i with
      | zero => exact alike_refl .refl _
      | succ i => exact ih i

/-- The fields of a record are found wherever they stand, and what they find has at most
the entries of an object in another order. -/
theorem sameRecord_of_reorders (h : d.Reorders d') :
    SameRecord names Reorders default d d' := by
  cases h with
  | refl => exact sameRecord_refl .refl _
  | @entries entries entries' hperm _ =>
      have hunder (name : String) : (under name entries).Perm (under name entries') :=
        hperm.filterMap _
      refine sameRecord_object hperm.all_eq ?_ ?_
      · intro name _
        rw [(hunder name).length_eq]
      · intro name _ hlength
        rw [eq_of_perm_of_length_le_one (hunder name) hlength]
        exact alike_refl .refl _
  | @item d d' before after h =>
      have hlength : (before ++ d :: after).length = (before ++ d' :: after).length := by
        simp
      rw [SameRecord, record?_array, record?_array, hlength]
      split
      · exact .some fun name _ => alike_getElem? h before after _
      · exact .none
  | entry before after key h => exact sameRecord_entry .refl h before after key

end Records

end Document

end SearchCompiler
