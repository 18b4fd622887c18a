import SearchCompiler.Proofs.Json.Records

/-!
Values as they are written, read again. A written number or string is read as what it was,
a written list item by item, a written table entry by entry, and in a written record each
field finds what was written under its name.
-/

namespace SearchCompiler

theorem documentsOfItems_eq_map (items : List Json) :
    documentsOfItems items = items.map Json.document := by
  induction items with
  | nil => rfl
  | cons item rest ih => rw [documentsOfItems, ih, List.map_cons]

theorem documentsOfEntries_eq_map (entries : List (String × Json)) :
    documentsOfEntries entries = entries.map fun entry => (some entry.1, entry.2.document) := by
  induction entries with
  | nil => rfl
  | cons entry rest ih => rw [documentsOfEntries, ih, List.map_cons]

namespace Document

theorem string?_document (s : String) : (Json.string s).document.string? = some s := rfl

theorem double?_document (x : Double) : (Json.double x).document.double? = some x := rfl

theorem natBelow?_document {n bound : Nat} (h : n < bound) :
    (Json.nat n).document.natBelow? bound = some n := by
  have hrange : (0 : Int) ≤ n ∧ (n : Int) < bound := by omega
  exact if_pos hrange

theorem uint32?_document (n : UInt32) : (Json.nat n.toNat).document.uint32? = some n := by
  rw [uint32?, natBelow?_document n.toNat_lt, Option.map_some, UInt32.ofNat_toNat]

theorem uint64?_document (n : UInt64) : (Json.nat n.toNat).document.uint64? = some n := by
  rw [uint64?, natBelow?_document n.toNat_lt, Option.map_some, UInt64.ofNat_toNat]

section Lists

variable {α : Type} {encode : α → Json} {decode : Document → Option α}

theorem list?_document (h : ∀ a, decode (encode a).document = some a) (values : List α) :
    (Json.array (values.map encode)).document.list? decode = some values := by
  rw [Json.document, documentsOfItems_eq_map, list?]
  induction values with
  | nil => rfl
  | cons a rest ih =>
      rw [List.map_cons, List.map_cons, List.mapM_cons, h, ih]
      rfl

/-- An entry of a table. -/
def namedValue? (decode : Document → Option α) : Option String × Document → Option (String × α)
  | (key, value) => do return (← key, ← decode value)

theorem entries?_object (entries : List (Option String × Document)) :
    (object entries).entries? decode = entries.mapM (namedValue? decode) := rfl

theorem namedValue?_eq_some_iff {key : Option String} {d : Document} {name : String} {value : α} :
    namedValue? decode (key, d) = some (name, value) ↔ key = some name ∧ decode d = some value := by
  cases key with
  | none => simp [namedValue?]
  | some key => cases h : decode d <;> simp [namedValue?, h]

theorem table?_document (h : ∀ a, decode (encode a).document = some a) (table : Table α) :
    (Json.object (table.entries.map fun entry => (entry.1, encode entry.2))).document.table?
      decode = some table := by
  have hentries (entries : List (String × α)) :
      (documentsOfEntries (entries.map fun entry => (entry.1, encode entry.2))).mapM
        (namedValue? decode) = some entries := by
    induction entries with
    | nil => rfl
    | cons entry rest ih =>
        rw [List.map_cons, documentsOfEntries, List.mapM_cons, ih,
          namedValue?_eq_some_iff.mpr ⟨rfl, h entry.2⟩]
        rfl
  rw [Json.document, table?, entries?_object, hentries, Option.map_some, Table.ofList_entries]

end Lists

section Records

variable {entries : List (String × Json)}

theorem under_documentsOfEntries (h : (entries.map Prod.fst).Nodup) (name : String) :
    under name (documentsOfEntries entries) =
      ((entries.lookup name).map Json.document).toList := by
  induction entries with
  | nil => rfl
  | cons entry rest ih =>
      obtain ⟨key, value⟩ := entry
      obtain ⟨habsent, hrest⟩ := List.nodup_cons.mp h
      rw [documentsOfEntries, under_cons, lookup_cons_eq, ih hrest]
      by_cases heq : name = key
      · subst heq
        rw [if_pos rfl, if_pos rfl, lookup_eq_none_of_notMem habsent]
        rfl
      · rw [if_neg heq, if_neg fun hkey => heq (Option.some.inj hkey).symm]

/-- A written record is read field by field. -/
theorem record?_document (h : (entries.map Prod.fst).Nodup) (names : List String) :
    (Json.object entries).document.record? names =
      some fun name => (entries.lookup name).map Json.document := by
  have hkeys : (documentsOfEntries entries).all (·.1.isSome) = true := by
    rw [documentsOfEntries_eq_map, List.all_map, List.all_eq_true]
    exact fun _ _ => rfl
  have honce : (names.all fun name =>
      decide ((under name (documentsOfEntries entries)).length ≤ 1)) = true := by
    rw [List.all_eq_true]
    intro name _
    rw [under_documentsOfEntries h]
    cases entries.lookup name <;> rfl
  rw [Json.document, record?_object, hkeys, honce, Bool.and_true, if_pos rfl]
  refine congrArg some (funext fun name => ?_)
  rw [under_documentsOfEntries h, Option.head?_toList]

section Fields

variable {α : Type} {name : String} {value : Json} {decode : Document → Option α} {a : α}

theorem required_of_written (hlookup : entries.lookup name = some value)
    (hvalue : decode value.document = some a) :
    required decode ((entries.lookup name).map Json.document) = some a := by
  rw [hlookup]
  exact hvalue

theorem defaulted_of_written {default : α} (hlookup : entries.lookup name = some value)
    (hvalue : decode value.document = some a) :
    defaulted default decode ((entries.lookup name).map Json.document) = some a := by
  rw [hlookup]
  exact hvalue

end Fields

end Records

end Document

end SearchCompiler
