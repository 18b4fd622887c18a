import SearchCompiler.Expr.Encoding
import SearchCompiler.Expr.Equality
import SearchCompiler.Proofs.Expr.Separable
import SearchCompiler.Proofs.Json.Canonical

/-!
The form of an expression that knows only the positive zero, in its values and
weights and in the bodies of its scoring functions. Encoding and this form go
together: the JSON form of the canonical expression is the canonical JSON form.
-/

namespace SearchCompiler

namespace Table

variable {α β : Type}

def map (change : α → β) (table : Table α) : Table β :=
  ⟨table.entries.map fun entry => (entry.1, change entry.2),
    List.pairwise_map.mpr table.ascending⟩

theorem map_insert (change : α → β) (table : Table α) (name : String) (value : α) :
    (table.insert name value).map change = (table.map change).insert name (change value) := by
  obtain ⟨entries, ascending⟩ := table
  suffices h : (insertEntry name value entries).map (fun entry => (entry.1, change entry.2)) =
      insertEntry name (change value) (entries.map fun entry => (entry.1, change entry.2)) by
    simp only [map, insert, h]
  induction entries with
  | nil => rfl
  | cons head rest ih =>
      obtain ⟨other, old⟩ := head
      rw [List.map_cons, insertEntry, insertEntry, ← ih (List.pairwise_cons.mp ascending).2]
      split
      · rfl
      · split <;> rfl

theorem map_insertAll (change : α → β) (table : Table α) (entries : List (String × α)) :
    (table.insertAll entries).map change =
      (table.map change).insertAll (entries.map fun entry => (entry.1, change entry.2)) := by
  induction entries generalizing table with
  | nil => rfl
  | cons entry rest ih =>
      obtain ⟨name, value⟩ := entry
      exact (ih (table.insert name value)).trans
        (congrArg (insertAll · _) (table.map_insert change name value))

theorem get?_map (change : α → β) (table : Table α) (name : String) :
    (table.map change).get? name = (table.get? name).map change := by
  obtain ⟨entries, ascending⟩ := table
  change (entries.map _).lookup name = (entries.lookup name).map change
  induction entries with
  | nil => rfl
  | cons head rest ih =>
      obtain ⟨other, old⟩ := head
      rw [List.map_cons, lookup_cons_eq, lookup_cons_eq, ih (List.pairwise_cons.mp ascending).2]
      split <;> rfl

theorem isEmpty_map (change : α → β) (table : Table α) :
    (table.map change).isEmpty = table.isEmpty :=
  List.isEmpty_map

end Table

mutual

def Expr.canonical : Expr → Expr
  | .term field value => .term field value.canonical
  | .terms field values => .terms field (canonicalItems values)
  | .bool ⟨must, should, mustNot, filter⟩ =>
      .bool ⟨canonicalList must, canonicalList should, canonicalList mustNot,
        canonicalList filter⟩
  | .functionScore query functions scoreMode boostMode =>
      .functionScore query.canonical (canonicalFunctions functions) scoreMode boostMode
  | e => e

def canonicalList : List Expr → List Expr
  | [] => []
  | e :: rest => e.canonical :: canonicalList rest

def canonicalFunctions : List (ScoreFunction Expr) → List (ScoreFunction Expr)
  | [] => []
  | ⟨none, weight, body⟩ :: rest =>
      ⟨none, weight.canonical, body.map (·.map Json.canonical)⟩ :: canonicalFunctions rest
  | ⟨some filter, weight, body⟩ :: rest =>
      ⟨some filter.canonical, weight.canonical, body.map (·.map Json.canonical)⟩ ::
        canonicalFunctions rest

end

/-- The canonical form of one scoring function. -/
def ScoreFunction.canonical (f : ScoreFunction Expr) : ScoreFunction Expr :=
  ⟨f.filter.map Expr.canonical, f.weight.canonical, f.body.map (·.map Json.canonical)⟩

theorem canonicalList_eq_map (es : List Expr) : canonicalList es = es.map Expr.canonical := by
  induction es with
  | nil => rfl
  | cons e rest ih => rw [canonicalList, ih, List.map_cons]

theorem canonicalFunctions_eq_map (functions : List (ScoreFunction Expr)) :
    canonicalFunctions functions = functions.map ScoreFunction.canonical := by
  induction functions with
  | nil => rfl
  | cons f rest ih =>
      obtain ⟨filter, weight, body⟩ := f
      rw [List.map_cons, ← ih]
      cases filter <;> rfl

section Equality

theorem sameBody_iff (body body' : Option (Table Json)) :
    sameBody body body' = true ↔
      body.map (·.map Json.canonical) = body'.map (·.map Json.canonical) := by
  cases body <;> cases body' <;>
    simp [sameBody, sameEntries_iff, canonicalEntries_eq_map, Table.map]

theorem sameList_iff {es : List Expr}
    (h : ∀ e ∈ es, ∀ f, e.same f = true ↔ e.canonical = f.canonical) (fs : List Expr) :
    sameList es fs = true ↔ canonicalList es = canonicalList fs := by
  induction es generalizing fs with
  | nil => cases fs <;> simp [sameList, canonicalList]
  | cons e es ih =>
      obtain ⟨he, hes⟩ := List.forall_mem_cons.mp h
      cases fs <;> simp [sameList, canonicalList, he, ih hes]

theorem sameFunctions_iff {functions : List (ScoreFunction Expr)}
    (h : ∀ f ∈ functions, ∀ e ∈ f.filter, ∀ e', e.same e' = true ↔ e.canonical = e'.canonical)
    (functions' : List (ScoreFunction Expr)) :
    sameFunctions functions functions' = true ↔
      canonicalFunctions functions = canonicalFunctions functions' := by
  induction functions generalizing functions' with
  | nil =>
      match functions' with
      | [] => simp [sameFunctions]
      | ⟨none, _, _⟩ :: _ | ⟨some _, _, _⟩ :: _ => simp [sameFunctions, canonicalFunctions]
  | cons f rest ih =>
      obtain ⟨hfilter, hrest⟩ := List.forall_mem_cons.mp h
      match f, functions' with
      | ⟨none, weight, body⟩, [] | ⟨some filter, weight, body⟩, [] =>
          simp [sameFunctions, canonicalFunctions]
      | ⟨none, weight, body⟩, ⟨none, weight', body'⟩ :: rest' =>
          simp [sameFunctions, canonicalFunctions, Double.same_iff, sameBody_iff, ih hrest]
      | ⟨some filter, weight, body⟩, ⟨some filter', weight', body'⟩ :: rest' =>
          simp [sameFunctions, canonicalFunctions, hfilter filter rfl, Double.same_iff,
            sameBody_iff, ih hrest, and_assoc]
      | ⟨none, _, _⟩, ⟨some _, _, _⟩ :: _ | ⟨some _, _, _⟩, ⟨none, _, _⟩ :: _ =>
          simp [sameFunctions, canonicalFunctions]

theorem Expr.same_iff (e f : Expr) : e.same f = true ↔ e.canonical = f.canonical := by
  induction e using Expr.induction generalizing f with
  | matchAll | matchNone => cases f <;> simp [same, canonical]
  | matchText | phrase | phrasePrefix | termPrefix | fuzzy | wildcard =>
      cases f <;> simp [same, canonical, and_assoc]
  | term field value => cases f <;> simp [same, canonical, Json.same_iff]
  | terms field values => cases f <;> simp [same, canonical, sameItems_iff]
  | bool must should mustNot filter ihmust ihshould ihnot ihfilter =>
      cases f <;> simp [same, canonical, sameList_iff ihmust, sameList_iff ihshould,
        sameList_iff ihnot, sameList_iff ihfilter, and_assoc]
  | functionScore query functions scoreMode boostMode ihquery ihfunctions =>
      cases f <;> simp [same, canonical, ihquery, sameFunctions_iff ihfunctions, and_assoc]

end Equality

section Encoding

theorem Json.canonical_ofTable (table : Table Json) :
    (Json.ofTable table).canonical = .ofTable (table.map Json.canonical) := by
  rw [Json.ofTable, Json.canonical, canonicalEntries_eq_map]
  rfl

/-- An object of canonical values is canonical. -/
theorem Json.canonical_ofList {entries : List (String × Json)}
    (h : ∀ entry ∈ entries, entry.2.canonical = entry.2) :
    (Json.ofTable (.ofList entries)).canonical = .ofTable (.ofList entries) := by
  have hentries : (entries.map fun entry => (entry.1, entry.2.canonical)) = entries := by
    refine (List.map_congr_left fun entry hentry => ?_).trans (List.map_id entries)
    exact Prod.ext rfl (h entry hentry)
  have hempty : (Table.empty : Table Json).map canonical = .empty := rfl
  rw [Json.canonical_ofTable, Table.ofList, Table.map_insertAll, hentries, hempty]

theorem canonical_scoreEntries (filter : Option Json) (weight : Double)
    (body : Option (Table Json)) :
    (scoreEntries filter weight body).canonical =
      scoreEntries (filter.map Json.canonical) weight.canonical
        (body.map (·.map Json.canonical)) := by
  have hbody : (body.getD .empty).map Json.canonical =
      (body.map (·.map Json.canonical)).getD .empty := by
    cases body <;> rfl
  cases filter with
  | none =>
      simp only [scoreEntries, Json.canonical_ofTable, Table.map_insert, hbody, Option.map_none]
      rfl
  | some value =>
      simp only [scoreEntries, Json.canonical_ofTable, Table.map_insert, hbody, Option.map_some]
      rfl

theorem canonicalEntries_groupEntry (name : String) (values : List Json) :
    canonicalEntries (groupEntry name values) = groupEntry name (canonicalItems values) := by
  cases values <;> rfl

theorem canonicalEntries_append (entries others : List (String × Json)) :
    canonicalEntries (entries ++ others) =
      canonicalEntries entries ++ canonicalEntries others := by
  simp only [canonicalEntries_eq_map, List.map_append]

theorem toJsonList_canonicalList {es : List Expr}
    (h : ∀ e ∈ es, e.canonical.toJson = e.toJson.canonical) :
    toJsonList (canonicalList es) = canonicalItems (toJsonList es) := by
  induction es with
  | nil => rfl
  | cons e rest ih =>
      obtain ⟨he, hrest⟩ := List.forall_mem_cons.mp h
      rw [canonicalList, toJsonList, toJsonList, canonicalItems, he, ih hrest]

theorem toJsonFunctions_canonicalFunctions {functions : List (ScoreFunction Expr)}
    (h : ∀ f ∈ functions, ∀ e ∈ f.filter, e.canonical.toJson = e.toJson.canonical) :
    toJsonFunctions (canonicalFunctions functions) =
      canonicalItems (toJsonFunctions functions) := by
  induction functions with
  | nil => rfl
  | cons f rest ih =>
      obtain ⟨hfilter, hrest⟩ := List.forall_mem_cons.mp h
      match f with
      | ⟨none, weight, body⟩ =>
          rw [canonicalFunctions, toJsonFunctions, toJsonFunctions, canonicalItems,
            canonical_scoreEntries, ih hrest]
          rfl
      | ⟨some filter, weight, body⟩ =>
          rw [canonicalFunctions, toJsonFunctions, toJsonFunctions, canonicalItems,
            canonical_scoreEntries, ih hrest, hfilter filter rfl]
          rfl

theorem Expr.toJson_canonical (e : Expr) : e.canonical.toJson = e.toJson.canonical := by
  induction e using Expr.induction with
  | matchAll | matchNone | matchText | phrase | phrasePrefix | termPrefix | wildcard => rfl
  | term | terms => rfl
  | fuzzy field value distance => cases distance <;> rfl
  | bool must should mustNot filter ihmust ihshould ihnot ihfilter =>
      simp only [canonical, toJson, Json.single, Json.canonical, canonicalEntries,
        canonicalEntries_append, canonicalEntries_groupEntry, toJsonList_canonicalList ihmust,
        toJsonList_canonicalList ihshould, toJsonList_canonicalList ihnot,
        toJsonList_canonicalList ihfilter]
  | functionScore query functions scoreMode boostMode ihquery ihfunctions =>
      simp only [canonical, toJson, Json.single, Json.canonical, canonicalEntries, ihquery,
        toJsonFunctions_canonicalFunctions ihfunctions]

end Encoding

section Separable

theorem ScoreFunction.separable_canonical {f : ScoreFunction Expr} (h : f.Separable) :
    f.canonical.Separable := by
  intro body hbody
  obtain ⟨table, htable, rfl⟩ := Option.map_eq_some_iff.mp hbody
  obtain ⟨hfull, hfilter, hweight⟩ := h table htable
  rw [Table.isEmpty_map, Table.get?_map, Table.get?_map, hfilter, hweight]
  exact ⟨hfull, rfl, rfl⟩

theorem Expr.separable_canonical {e : Expr} (h : e.Separable) : e.canonical.Separable := by
  induction e using Expr.induction with
  | bool must should mustNot filter ihmust ihshould ihnot ihfilter =>
      obtain ⟨hmust, hshould, hnot, hfilter⟩ := separable_bool.mp h
      simp only [canonical, canonicalList_eq_map, separable_bool, List.forall_mem_map]
      exact ⟨fun e he => ihmust e he (hmust e he), fun e he => ihshould e he (hshould e he),
        fun e he => ihnot e he (hnot e he), fun e he => ihfilter e he (hfilter e he)⟩
  | functionScore query functions scoreMode boostMode ihquery ihfunctions =>
      obtain ⟨hquery, hfunctions⟩ := separable_functionScore.mp h
      simp only [canonical, canonicalFunctions_eq_map, separable_functionScore,
        List.forall_mem_map]
      refine ⟨ihquery hquery, fun f hf => ?_⟩
      obtain ⟨hbody, hfilter⟩ := hfunctions f hf
      refine ⟨ScoreFunction.separable_canonical hbody, fun part hpart => ?_⟩
      obtain ⟨e, he, rfl⟩ := Option.map_eq_some_iff.mp hpart
      exact ihfunctions f hf e he (hfilter e he)
  | _ =>
      intro query functions scoreMode boostMode hcontains
      cases hcontains

end Separable

end SearchCompiler
