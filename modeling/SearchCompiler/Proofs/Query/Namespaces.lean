import Mathlib.Data.List.Basic
import SearchCompiler.Namespaces

/-!
Demands for namespaces, written and read. A list is read item by item, and the
first item that is no id ends the reading and is reported; only a list of nothing
but ids comes to a set. What was read is written back as the ascending list of the
ids, each once, so that order and repetition in the source are forgotten, and what
is written is always read back.
-/

namespace SearchCompiler

namespace Namespaces

/-- An integer number of 32 bits. -/
def IsId (item : Json) : Prop :=
  ∃ n : Int, item = .int n ∧ -2147483648 ≤ n ∧ n ≤ 2147483647

/-- What is written back when a demand was read. -/
def normalized (value : Json) : Except QueryError Json :=
  (ofJson value).map toJson

section Items

variable {item : Json} {items : List Json} {error : QueryError}

theorem id?_eq_ok_iff {id : Int32} : id? item = .ok id ↔ item = .int id.toInt := by
  constructor
  · intro h
    unfold id? at h
    split at h
    · next n =>
        split at h
        · next hrange =>
            rw [Int32.toInt_minValue, Int32.toInt_maxValue] at hrange
            obtain rfl := Except.ok.inj h
            rw [Int32.toInt_ofInt_of_le (by omega) (by omega)]
        · cases h
    · cases h
  · rintro rfl
    have hrange := And.intro id.minValue_le_toInt id.toInt_le
    simp only [id?, if_pos hrange, Int32.ofInt_toInt]

theorem isId_iff : IsId item ↔ ∃ id : Int32, item = .int id.toInt := by
  constructor
  · rintro ⟨n, rfl, hmin, hmax⟩
    exact ⟨.ofInt n, by rw [Int32.toInt_ofInt_of_le hmin (Int.lt_add_one_of_le hmax)]⟩
  · rintro ⟨id, rfl⟩
    exact ⟨id.toInt, rfl, id.le_toInt, Int.le_of_lt_add_one id.toInt_lt⟩

/-- What is no id is reported as it stands. -/
theorem id?_eq_error_iff : id? item = .error error ↔ ¬ IsId item ∧ error = .notNamespace item := by
  rw [isId_iff]
  simp only [← id?_eq_ok_iff]
  unfold id?
  split
  · split
    · simp
    · simp [eq_comm]
  · simp [eq_comm]

/-- The first item decides whether the rest is read. -/
theorem mapM_id?_cons (rest : List Json) :
    (item :: rest).mapM id? =
      match id? item with
      | .error error => .error error
      | .ok id => (rest.mapM id?).map (id :: ·) := by
  rw [List.mapM_cons]
  cases id? item with
  | error error => rfl
  | ok id => cases rest.mapM id? <;> rfl

/-- A list is read when it is a list of ids. -/
theorem mapM_id?_eq_ok_iff {ids : List Int32} :
    items.mapM id? = .ok ids ↔ items = ids.map fun id => .int id.toInt := by
  induction items generalizing ids with
  | nil => cases ids <;> simp [pure, Except.pure]
  | cons item rest ih =>
      rw [mapM_id?_cons, eq_comm (a := item :: rest), List.map_eq_cons_iff]
      cases hitem : id? item with
      | error error =>
          obtain ⟨hno, _⟩ := id?_eq_error_iff.mp hitem
          have hnone : ∀ id : Int32, Json.int id.toInt ≠ item :=
            fun id heq => hno (isId_iff.mpr ⟨id, heq.symm⟩)
          simp [hnone]
      | ok first =>
          obtain rfl := id?_eq_ok_iff.mp hitem
          constructor
          · intro h
            cases hrest : rest.mapM id? with
            | error error => rw [hrest] at h; cases h
            | ok others =>
                rw [hrest] at h
                obtain rfl := Except.ok.inj h
                exact ⟨first, others, rfl, rfl, (ih.mp hrest).symm⟩
          · rintro ⟨id, others, rfl, hfirst, hothers⟩
            have hsame : id = first := Int32.toInt_inj.mp (Number.int.inj (Json.number.inj hfirst))
            rw [ih.mpr hothers.symm, hsame]
            rfl

/-- A list is refused for its first item that is no id. -/
theorem mapM_id?_eq_error_iff :
    items.mapM id? = .error error ↔
      ∃ before bad after, items = before ++ bad :: after ∧ (∀ item ∈ before, IsId item) ∧
        ¬ IsId bad ∧ error = .notNamespace bad := by
  induction items with
  | nil => simp [pure, Except.pure]
  | cons item rest ih =>
      rw [mapM_id?_cons]
      cases hitem : id? item with
      | error found =>
          obtain ⟨hno, rfl⟩ := id?_eq_error_iff.mp hitem
          constructor
          · intro h
            exact ⟨[], item, rest, rfl, nofun, hno, (Except.error.inj h).symm⟩
          · rintro ⟨before, bad, after, hsplit, hbefore, hbad, rfl⟩
            cases before with
            | nil =>
                obtain ⟨rfl, rfl⟩ := List.cons.inj hsplit
                rfl
            | cons head before =>
                obtain ⟨rfl, rfl⟩ := List.cons.inj hsplit
                exact absurd (hbefore item List.mem_cons_self) hno
      | ok id =>
          have hid : IsId item := isId_iff.mpr ⟨id, id?_eq_ok_iff.mp hitem⟩
          have hrest : (rest.mapM id?).map (id :: ·) = .error error ↔
              rest.mapM id? = .error error := by
            cases rest.mapM id? <;> simp [Except.map]
          refine hrest.trans (ih.trans ?_)
          constructor
          · rintro ⟨before, bad, after, rfl, hbefore, hbad⟩
            exact ⟨item :: before, bad, after, rfl, List.forall_mem_cons.mpr ⟨hid, hbefore⟩, hbad⟩
          · rintro ⟨before, bad, after, hsplit, hbefore, hbad⟩
            cases before with
            | nil =>
                obtain ⟨rfl, rfl⟩ := List.cons.inj hsplit
                exact absurd hid hbad.1
            | cons head before =>
                obtain ⟨rfl, rfl⟩ := List.cons.inj hsplit
                exact ⟨before, bad, after, rfl, (List.forall_mem_cons.mp hbefore).2, hbad⟩

end Items

section Lists

variable {items : List Json} {demand : Namespaces}

theorem ofJson_array (items : List Json) :
    ofJson (.array items) = (items.mapM id?).map fun ids => .these (.ofList ids) := rfl

theorem ofJson_array_eq_ok_iff :
    ofJson (.array items) = .ok demand ↔
      ∃ ids : List Int32, items = (ids.map fun id => .int id.toInt) ∧
        demand = .these (.ofList ids) := by
  rw [ofJson_array]
  constructor
  · intro h
    cases hids : items.mapM id? with
    | error error => rw [hids] at h; cases h
    | ok ids =>
        rw [hids] at h
        exact ⟨ids, mapM_id?_eq_ok_iff.mp hids, (Except.ok.inj h).symm⟩
  · rintro ⟨ids, hitems, rfl⟩
    rw [mapM_id?_eq_ok_iff.mpr hitems]
    rfl

theorem ofJson_array_eq_error_iff {error : QueryError} :
    ofJson (.array items) = .error error ↔
      ∃ before bad after, items = before ++ bad :: after ∧ (∀ item ∈ before, IsId item) ∧
        ¬ IsId bad ∧ error = .notNamespace bad := by
  rw [ofJson_array, ← mapM_id?_eq_error_iff]
  cases items.mapM id? <;> simp [Except.map]

/-- What was written is read back. -/
theorem ofJson_toJson (demand : Namespaces) : ofJson demand.toJson = .ok demand := by
  cases demand with
  | all => rfl
  | these ids =>
      refine ofJson_array_eq_ok_iff.mpr ⟨ids.elements, rfl, ?_⟩
      rw [SortedSet.ofList_elements]

theorem exists_ofJson_iff {value : Json} :
    (∃ demand, ofJson value = .ok demand) ↔
      value = .string "all" ∨ ∃ items, value = .array items ∧ ∀ item ∈ items, IsId item := by
  constructor
  · rintro ⟨demand, h⟩
    unfold ofJson at h
    split at h
    · exact .inl rfl
    · next items =>
        obtain ⟨ids, rfl, _⟩ := ofJson_array_eq_ok_iff.mp h
        refine .inr ⟨_, rfl, ?_⟩
        intro item hitem
        obtain ⟨id, _, rfl⟩ := List.mem_map.mp hitem
        exact isId_iff.mpr ⟨id, rfl⟩
    · cases h
  · rintro (rfl | ⟨items, rfl, hids⟩)
    · exact ⟨.all, rfl⟩
    · cases hread : ofJson (.array items) with
      | ok demand => exact ⟨demand, rfl⟩
      | error error =>
          obtain ⟨before, bad, after, rfl, _, hbad, _⟩ := ofJson_array_eq_error_iff.mp hread
          exact absurd (hids bad (by simp)) hbad

/-- The ids that are read, as integers. -/
theorem toJson_these_ofList (ids : List Int32) :
    ∃ ns : List Int, (Namespaces.these (.ofList ids)).toJson = .array (ns.map .int) ∧
      ns.Pairwise (· < ·) ∧ ∀ n, n ∈ ns ↔ n ∈ ids.map Int32.toInt := by
  refine ⟨(SortedSet.ofList ids).elements.map Int32.toInt, ?_, ?_, ?_⟩
  · rw [toJson, List.map_map]
    rfl
  · exact List.pairwise_map.mpr
      ((SortedSet.ofList ids).ascending.imp fun hlt => Int32.lt_iff_toInt_lt.mp hlt)
  · intro n
    simp only [List.mem_map, SortedSet.mem_ofList]

/-- Lists with the same items are read alike, whatever the order of the items and
however often they stand there. -/
theorem ofJson_array_congr {items' : List Json} (h : ∀ item, item ∈ items ↔ item ∈ items')
    (hread : ofJson (.array items) = .ok demand) : ofJson (.array items') = .ok demand := by
  obtain ⟨ids, rfl, rfl⟩ := ofJson_array_eq_ok_iff.mp hread
  have hids : ∀ item ∈ items', IsId item := by
    intro item hitem
    obtain ⟨id, _, rfl⟩ := List.mem_map.mp ((h item).mpr hitem)
    exact isId_iff.mpr ⟨id, rfl⟩
  obtain ⟨demand, hdemand⟩ := exists_ofJson_iff.mpr (.inr ⟨items', rfl, hids⟩)
  obtain ⟨ids', rfl, rfl⟩ := ofJson_array_eq_ok_iff.mp hdemand
  have hinjective : Function.Injective fun id : Int32 => Json.int id.toInt := fun id id' heq =>
    Int32.toInt_inj.mp (Number.int.inj (Json.number.inj heq))
  have hsame : SortedSet.ofList ids = SortedSet.ofList ids' := by
    apply SortedSet.ofList_congr
    intro id
    have hitem := h (.int id.toInt)
    rwa [List.mem_map_of_injective hinjective, List.mem_map_of_injective hinjective] at hitem
  rw [hdemand, hsame]

end Lists

section Normalized

variable {value normal : Json}

theorem normalized_eq_ok_iff :
    normalized value = .ok normal ↔ ∃ demand, ofJson value = .ok demand ∧ demand.toJson = normal := by
  unfold normalized
  cases ofJson value <;> simp [Except.map]

/-- What was written back is written back as it stands. -/
theorem normalized_normal (h : normalized value = .ok normal) :
    normalized normal = .ok normal := by
  obtain ⟨demand, _, rfl⟩ := normalized_eq_ok_iff.mp h
  exact normalized_eq_ok_iff.mpr ⟨demand, ofJson_toJson demand, rfl⟩

theorem normalized_array_congr {items items' : List Json}
    (h : ∀ item, item ∈ items ↔ item ∈ items') (hnormal : normalized (.array items) = .ok normal) :
    normalized (.array items') = .ok normal := by
  obtain ⟨demand, hread, hwritten⟩ := normalized_eq_ok_iff.mp hnormal
  exact normalized_eq_ok_iff.mpr ⟨demand, ofJson_array_congr h hread, hwritten⟩

end Normalized

/-- Reading a demand for namespaces is exact. Accepted are the marker for all and the
lists of 32-bit integers; a list is written back as its integers in strictly ascending
order. Every demand is read back from what is written for it, so reading and writing
back a second time changes nothing, and it does the same to lists with the same items.
A list that is refused is refused for the first item that is no such integer. -/
theorem ofJson_exact :
    (∀ value, (∃ demand, ofJson value = .ok demand) ↔
      value = .string "all" ∨ ∃ items, value = .array items ∧ ∀ item ∈ items, IsId item) ∧
    (∀ items demand, ofJson (.array items) = .ok demand →
      ∃ ids : List Int, demand.toJson = .array (ids.map .int) ∧ ids.Pairwise (· < ·) ∧
        ∀ n, n ∈ ids ↔ .int n ∈ items) ∧
    (∀ demand, ofJson demand.toJson = .ok demand) ∧
    (∀ value normal, normalized value = .ok normal → normalized normal = .ok normal) ∧
    (∀ items items', (∀ item, item ∈ items ↔ item ∈ items') →
      ∀ normal, normalized (.array items) = .ok normal ↔ normalized (.array items') = .ok normal) ∧
    ∀ items error, ofJson (.array items) = .error error ↔
      ∃ before bad after, items = before ++ bad :: after ∧ (∀ item ∈ before, IsId item) ∧
        ¬ IsId bad ∧ error = .notNamespace bad ∧
        error.message =
          "Malformed parameter: requiredNamespaces: " ++ bad.text ++ " is not a namespace id" := by
  refine ⟨fun _ => exists_ofJson_iff, ?_, ofJson_toJson, fun _ _ => normalized_normal, ?_, ?_⟩
  · intro items demand hread
    obtain ⟨ids, rfl, rfl⟩ := ofJson_array_eq_ok_iff.mp hread
    obtain ⟨ns, hjson, hascending, hmem⟩ := toJson_these_ofList ids
    refine ⟨ns, hjson, hascending, ?_⟩
    intro n
    rw [hmem]
    simp
  · intro items items' h normal
    exact ⟨normalized_array_congr h, normalized_array_congr fun item => (h item).symm⟩
  · intro items error
    rw [ofJson_array_eq_error_iff]
    constructor
    · rintro ⟨before, bad, after, hsplit, hbefore, hbad, rfl⟩
      exact ⟨before, bad, after, hsplit, hbefore, hbad, rfl, rfl⟩
    · rintro ⟨before, bad, after, hsplit, hbefore, hbad, herror, _⟩
      exact ⟨before, bad, after, hsplit, hbefore, hbad, herror⟩

/-- An integral double is no id, whatever stands before and after it. -/
example :
    ofJson (.array [.int 14, .double .one, .null]) = .error (.notNamespace (.double .one)) := by
  rfl

end Namespaces

end SearchCompiler
