/-!
Finite maps from names to values, kept as entries in ascending order of their
names. Two tables with the same entries are the same list, so equality of
tables needs no search and an encoder can copy the entries as they stand.
-/

namespace SearchCompiler

/-- Puts a value under a name, in place of the value that stood there. -/
def insertEntry {α : Type} (name : String) (value : α) :
    List (String × α) → List (String × α)
  | [] => [(name, value)]
  | (other, old) :: rest =>
      if name < other then (name, value) :: (other, old) :: rest
      else if name = other then (name, value) :: rest
      else (other, old) :: insertEntry name value rest

theorem mem_insertEntry {α : Type} {name : String} {value : α} {entry : String × α}
    {entries : List (String × α)} (h : entry ∈ insertEntry name value entries) :
    entry = (name, value) ∨ entry ∈ entries := by
  induction entries with
  | nil => simpa [insertEntry] using h
  | cons head rest ih =>
      obtain ⟨other, old⟩ := head
      unfold insertEntry at h
      split at h
      · simpa using h
      · split at h
        · rcases List.mem_cons.mp h with h | h
          · exact .inl h
          · exact .inr (List.mem_cons_of_mem _ h)
        · rcases List.mem_cons.mp h with h | h
          · exact .inr (h ▸ List.mem_cons_self)
          · exact (ih h).imp id (List.mem_cons_of_mem _)

theorem insertEntry_ascending {α : Type} (name : String) (value : α)
    {entries : List (String × α)} (h : entries.Pairwise (fun a b => a.1 < b.1)) :
    (insertEntry name value entries).Pairwise (fun a b => a.1 < b.1) := by
  induction entries with
  | nil => simp [insertEntry]
  | cons head rest ih =>
      obtain ⟨other, old⟩ := head
      obtain ⟨hhead, hrest⟩ := List.pairwise_cons.mp h
      unfold insertEntry
      split
      · next hlt =>
          refine List.pairwise_cons.mpr ⟨fun entry hmem => ?_, h⟩
          rcases List.mem_cons.mp hmem with rfl | hmem
          · exact hlt
          · exact String.lt_trans hlt (hhead entry hmem)
      · next hlt =>
          split
          · next heq => exact List.pairwise_cons.mpr ⟨fun e he => heq ▸ hhead e he, hrest⟩
          · next hne =>
              refine List.pairwise_cons.mpr ⟨fun entry hmem => ?_, ih hrest⟩
              rcases mem_insertEntry hmem with rfl | hmem
              · exact Std.lt_of_le_of_ne (String.not_lt.mp hlt) (fun h => hne h.symm)
              · exact hhead entry hmem

theorem lookup_cons_eq {κ α : Type} [BEq κ] [LawfulBEq κ] [DecidableEq κ] (name key : κ)
    (value : α) (rest : List (κ × α)) :
    ((key, value) :: rest).lookup name =
      if name = key then some value else rest.lookup name := by
  rw [List.lookup_cons]
  by_cases h : name = key
  · simp [h]
  · rw [beq_eq_false_iff_ne.mpr h, if_neg h]

/-- Where every name stands once, its entry is the one that is found. -/
theorem mem_iff_lookup_eq_some {α : Type} {name : String} {value : α}
    {entries : List (String × α)} (h : (entries.map Prod.fst).Nodup) :
    (name, value) ∈ entries ↔ entries.lookup name = some value := by
  induction entries with
  | nil => simp
  | cons entry rest ih =>
      obtain ⟨first, old⟩ := entry
      obtain ⟨habsent, hrest⟩ := List.nodup_cons.mp h
      rw [List.mem_cons, lookup_cons_eq, ih hrest, Prod.mk.injEq]
      split
      · next heq =>
          subst heq
          have hunlisted : rest.lookup name ≠ some value := fun hlookup =>
            habsent (List.mem_map.mpr ⟨_, (ih hrest).mpr hlookup, rfl⟩)
          simp [hunlisted, eq_comm]
      · next hne => simp [hne]

/-- Nor does it matter then in which order the entries stand. -/
theorem lookup_of_perm {α : Type} {entries others : List (String × α)}
    (hperm : entries.Perm others) (h : (entries.map Prod.fst).Nodup) (name : String) :
    entries.lookup name = others.lookup name := by
  have hothers : (others.map Prod.fst).Nodup := (hperm.map Prod.fst).nodup_iff.mp h
  refine Option.ext fun value => ?_
  rw [← mem_iff_lookup_eq_some h, ← mem_iff_lookup_eq_some hothers, hperm.mem_iff]

/-- A name that no entry has is not found. -/
theorem lookup_eq_none_of_notMem {α : Type} {name : String} {entries : List (String × α)}
    (h : name ∉ entries.map Prod.fst) : entries.lookup name = none := by
  rw [List.lookup_eq_none_iff]
  intro entry hentry
  have hne : name ≠ entry.1 := fun heq => h (heq ▸ List.mem_map_of_mem hentry)
  simpa using hne

theorem lookup_insertEntry {α : Type} (name other : String) (value : α)
    (entries : List (String × α)) :
    (insertEntry name value entries).lookup other =
      if other = name then some value else entries.lookup other := by
  induction entries with
  | nil => exact lookup_cons_eq other name value []
  | cons head rest ih =>
      obtain ⟨key, old⟩ := head
      unfold insertEntry
      split
      · exact lookup_cons_eq other name value _
      · split
        · next heq =>
            subst heq
            rw [lookup_cons_eq, lookup_cons_eq]
            split <;> rfl
        · next hne =>
            rw [lookup_cons_eq, lookup_cons_eq, ih]
            by_cases h : other = key
            · rw [if_pos h, if_pos h, if_neg (fun heq => hne (heq.symm.trans h))]
            · rw [if_neg h, if_neg h]

/-- A finite map from names to values. -/
structure Table (α : Type) where
  entries : List (String × α)
  ascending : entries.Pairwise (fun a b => a.1 < b.1)
deriving DecidableEq

namespace Table

variable {α : Type}

def empty : Table α := ⟨[], .nil⟩

instance : Inhabited (Table α) := ⟨empty⟩

def isEmpty (table : Table α) : Bool :=
  table.entries.isEmpty

def get? (table : Table α) (name : String) : Option α :=
  table.entries.lookup name

def insert (table : Table α) (name : String) (value : α) : Table α :=
  ⟨insertEntry name value table.entries, insertEntry_ascending name value table.ascending⟩

/-- Later entries replace earlier ones of the same name. -/
def insertAll (table : Table α) (entries : List (String × α)) : Table α :=
  entries.foldl (fun t entry => t.insert entry.1 entry.2) table

def ofList (entries : List (String × α)) : Table α :=
  empty.insertAll entries

theorem get?_empty (name : String) : (empty : Table α).get? name = none := rfl

theorem get?_insert (table : Table α) (name other : String) (value : α) :
    (table.insert name value).get? other =
      if other = name then some value else table.get? other := by
  obtain ⟨entries, ascending⟩ := table
  exact lookup_insertEntry name other value entries

/-- Entries with names of their own are found among all others. -/
theorem get?_insertAll {entries : List (String × α)} (table : Table α)
    (h : (entries.map Prod.fst).Nodup) (name : String) :
    (table.insertAll entries).get? name = (entries.lookup name).or (table.get? name) := by
  induction entries generalizing table with
  | nil => rfl
  | cons entry rest ih =>
      obtain ⟨first, value⟩ := entry
      obtain ⟨habsent, hrest⟩ := List.nodup_cons.mp h
      have hstep : table.insertAll ((first, value) :: rest) =
          (table.insert first value).insertAll rest := rfl
      rw [hstep, ih _ hrest, get?_insert, lookup_cons_eq]
      by_cases heq : name = first
      · subst heq
        rw [if_pos rfl, if_pos rfl, lookup_eq_none_of_notMem habsent]
        rfl
      · rw [if_neg heq, if_neg heq]

theorem get?_ofList {entries : List (String × α)} (h : (entries.map Prod.fst).Nodup)
    (name : String) : (ofList entries).get? name = entries.lookup name := by
  rw [ofList, get?_insertAll _ h, get?_empty, Option.or_none]

theorem ofList_append (entries others : List (String × α)) :
    ofList (entries ++ others) = (ofList entries).insertAll others :=
  List.foldl_append

theorem nodup_names (table : Table α) : (table.entries.map Prod.fst).Nodup := by
  refine List.pairwise_map.mpr (table.ascending.imp fun hlt heq => ?_)
  exact String.lt_irrefl _ (heq ▸ hlt)

/-- The entries are the names with the values found under them. -/
theorem mem_entries_iff (table : Table α) (name : String) (value : α) :
    (name, value) ∈ table.entries ↔ table.get? name = some value :=
  mem_iff_lookup_eq_some table.nodup_names

/-- A table is determined by what is found in it. -/
theorem ext_get? {table other : Table α} (h : ∀ name, table.get? name = other.get? name) :
    table = other := by
  have nodup (t : Table α) : t.entries.Nodup := by
    refine t.ascending.imp fun hlt heq => ?_
    exact String.lt_irrefl _ (heq ▸ hlt)
  have hperm : table.entries.Perm other.entries := by
    refine (List.perm_ext_iff_of_nodup (nodup table) (nodup other)).mpr ?_
    intro (name, value)
    rw [mem_entries_iff, mem_entries_iff, h]
  obtain ⟨entries, ascending⟩ := table
  obtain ⟨others, ascending'⟩ := other
  obtain rfl : entries = others := hperm.eq_of_pairwise
    (fun a b _ _ hab hba => absurd (String.lt_trans hab hba) (String.lt_irrefl _))
    ascending ascending'
  rfl

theorem ofList_entries (table : Table α) : ofList table.entries = table :=
  ext_get? (get?_ofList table.nodup_names)

theorem ofList_of_perm {entries others : List (String × α)} (hperm : entries.Perm others)
    (h : (entries.map Prod.fst).Nodup) : ofList entries = ofList others := by
  refine ext_get? fun name => ?_
  rw [get?_ofList h, get?_ofList ((hperm.map Prod.fst).nodup_iff.mp h), lookup_of_perm hperm h]

end Table

end SearchCompiler
