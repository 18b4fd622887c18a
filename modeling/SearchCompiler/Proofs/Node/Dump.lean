import Mathlib.Data.List.Basic
import SearchCompiler.Node.Encoding
import SearchCompiler.Proofs.Expr.Canonical
import SearchCompiler.Proofs.Node.Occurrence

/-!
What the structural dump tells of a tree. The fields of a node are put into one object,
those of its kind after those of its span. No two of them share a name, so each is found
again under its name; and which names there are depends on the kind alone, which is the
key of the dump. So the dump determines the kind, the span and all fields of a node, and
by induction those of the nodes below it. Of a keyword's feature it has the name only.
-/

namespace SearchCompiler

namespace Table

variable {α : Type} {entries entries' : List (String × α)}

/-- Lists of entries under the same names are told apart by the tables they make. -/
theorem ofList_injective (hnames : entries.map Prod.fst = entries'.map Prod.fst)
    (h : (entries.map Prod.fst).Nodup) (htable : ofList entries = ofList entries') :
    entries = entries' := by
  have hread {entries : List (String × α)} (h : (entries.map Prod.fst).Nodup) :
      (entries.map fun entry => (entry.1, some entry.2)) =
        (entries.map Prod.fst).map fun name => (name, (ofList entries).get? name) := by
    rw [List.map_map]
    refine List.map_congr_left fun entry hentry => ?_
    rw [Function.comp_apply, get?_ofList h, (mem_iff_lookup_eq_some h).mp hentry]
  have hinjective : Function.Injective fun entry : String × α => (entry.1, some entry.2) := by
    intro entry other heq
    obtain ⟨hname, hvalue⟩ := Prod.mk.inj heq
    exact Prod.ext hname (Option.some.inj hvalue)
  refine hinjective.list_map ?_
  rw [hread h, hread (hnames ▸ h), hnames, htable]

end Table

section Encoders

theorem Json.ofTable_injective : Function.Injective Json.ofTable := by
  intro table other h
  obtain ⟨entries, ascending⟩ := table
  obtain ⟨entries', ascending'⟩ := other
  obtain rfl : entries = entries' := Json.object.inj h
  rfl

theorem Json.ofOption_injective {α : Type} {encode : α → Json} (hencode : Function.Injective encode)
    (hnull : ∀ a, encode a ≠ .null) : Function.Injective (Json.ofOption encode) := by
  intro x y h
  cases x with
  | none =>
      cases y with
      | none => rfl
      | some b => exact absurd h.symm (hnull b)
  | some a =>
      cases y with
      | none => exact absurd h (hnull a)
      | some b => exact congrArg some (hencode h)

/-- Numbers that may be missing are told apart, from each other and from null. -/
theorem Json.ofOption_nat_inj {α : Type} {value : α → Nat} (hvalue : Function.Injective value)
    {x y : Option α} :
    Json.ofOption (fun n => .nat (value n)) x = Json.ofOption (fun n => .nat (value n)) y ↔
      x = y := by
  refine (Json.ofOption_injective (fun n m h => hvalue ?_) fun _ => Json.noConfusion).eq_iff
  exact Int.ofNat_inj.mp (Number.int.inj (Json.number.inj h))

theorem Json.ofOption_string_inj {x y : Option String} :
    Json.ofOption .string x = Json.ofOption .string y ↔ x = y :=
  (Json.ofOption_injective (fun _ _ => Json.string.inj) fun _ => Json.noConfusion).eq_iff

theorem uint32_toNat_injective : Function.Injective UInt32.toNat :=
  fun _ _ => UInt32.toNat_inj.mp

theorem uint8_toNat_injective : Function.Injective UInt8.toNat :=
  fun _ _ => UInt8.toNat_inj.mp

theorem Occur.name_injective : Function.Injective Occur.name := by
  intro a b h
  cases a <;> cases b <;> first | rfl | exact absurd h (by decide)

theorem Span.fields_injective : Function.Injective Span.fields := by
  intro a b h
  obtain ⟨start, stop⟩ := a
  obtain ⟨start', stop'⟩ := b
  simpa [Span.fields, Int.ofNat_inj, UInt64.toNat_inj] using h

end Encoders

/-- The names of the fields that belong to a kind. -/
def fieldNames : String → List String
  | "bool" => ["clauses"]
  | "word" => ["word"]
  | "phrase" => ["phrase", "slop", "stem"]
  | "phrase_prefix" => ["phrase"]
  | "prefix" => ["prefix"]
  | "fuzzy" => ["word", "fuzziness"]
  | "wildcard" => ["wildcard"]
  | "not" => ["child", "negation_type"]
  | "keyword" => ["feature", "key", "delimiter", "value", "quotedValue"]
  | _ => []

namespace Node

/-- All fields of a node in its dump. -/
def fields (node : Node) : List (String × Json) :=
  node.span.fields ++ node.ownFields

theorem toJson_eq_ofList (node : Node) :
    node.toJson = .single node.kind (.ofTable (.ofList node.fields)) := by
  rw [toJson, dump, fields, Table.ofList_append]

theorem names_fields (node : Node) :
    node.fields.map Prod.fst = "startOffset" :: "endOffset" :: fieldNames node.kind := by
  cases node <;> rfl

/-- The fields of a kind leave the names of the span's alone, and each other's. -/
theorem nodup_names_fields (node : Node) : (node.fields.map Prod.fst).Nodup := by
  rw [names_fields]
  cases node <;> simp [kind, fieldNames]

/-- The dump of a node determines its kind and its fields. -/
theorem fields_of_toJson_eq {a b : Node} (h : a.toJson = b.toJson) :
    a.kind = b.kind ∧ a.span = b.span ∧ a.ownFields = b.ownFields := by
  rw [toJson_eq_ofList, toJson_eq_ofList] at h
  obtain ⟨hentry, _⟩ := List.cons.inj (Json.object.inj h)
  obtain ⟨hkind, hbody⟩ := Prod.mk.inj hentry
  -- the key of the dump says under which names the fields stand
  have hnames : a.fields.map Prod.fst = b.fields.map Prod.fst := by
    rw [names_fields, names_fields, hkind]
  have htable : Table.ofList a.fields = Table.ofList b.fields := Json.ofTable_injective hbody
  have hfields : a.fields = b.fields :=
    Table.ofList_injective hnames a.nodup_names_fields htable
  obtain ⟨hspan, hown⟩ := List.append_inj hfields rfl
  exact ⟨hkind, Span.fields_injective hspan, hown⟩

end Node

mutual

/-- The tree as its dump tells it: in place of each feature stands one of which nothing is
known but the name that it gave to the occurrence. -/
def Node.reported : Node → Node
  | .boolean span clauses => .boolean span (reportedClauses clauses)
  | .negated span operator child => .negated span operator child.reported
  | .keyword occurrence feature =>
      .keyword occurrence { name := fun _ _ => feature.nameOf occurrence }
  | node => node

def reportedClauses : List (Clause Node) → List (Clause Node)
  | [] => []
  | ⟨occur, explicit, node⟩ :: rest => ⟨occur, explicit, node.reported⟩ :: reportedClauses rest

end

/-- The dump of a clause. -/
def Clause.toJson (c : Clause Node) : Json :=
  .object [("explicit", .bool c.explicit), ("node", c.node.toJson), ("occur", .string c.occur.name)]

namespace Node

theorem kind_reported (node : Node) : node.reported.kind = node.kind := by
  cases node <;> rfl

theorem span_reported (node : Node) : node.reported.span = node.span := by
  cases node <;> rfl

theorem toJsonClauses_eq_map (clauses : List (Clause Node)) :
    toJsonClauses clauses = clauses.map Clause.toJson := by
  induction clauses with
  | nil => rfl
  | cons c rest ih => exact congrArg (List.cons _) ih

theorem reportedClauses_eq_map (clauses : List (Clause Node)) :
    reportedClauses clauses = clauses.map fun c => ⟨c.occur, c.explicit, c.node.reported⟩ := by
  induction clauses with
  | nil => rfl
  | cons c rest ih => exact congrArg (List.cons _) ih

/-- The names of features are all that a dump has of them. -/
theorem toJson_reported (node : Node) : node.reported.toJson = node.toJson := by
  suffices hown : node.reported.ownFields = node.ownFields by
    rw [toJson, toJson, kind_reported, span_reported, hown]
  induction node using Node.induction with
  | boolean span clauses ih =>
      have hnode (c : Clause Node) (hc : c ∈ clauses) : c.node.reported.toJson = c.node.toJson := by
        rw [toJson, toJson, kind_reported, span_reported, ih c hc]
      have hclauses : toJsonClauses (reportedClauses clauses) = toJsonClauses clauses := by
        rw [toJsonClauses_eq_map, toJsonClauses_eq_map, reportedClauses_eq_map, List.map_map]
        refine List.map_congr_left fun c hc => ?_
        rw [Function.comp_apply, Clause.toJson, Clause.toJson, hnode c hc]
      rw [reported, ownFields, ownFields, hclauses]
  | negated span operator child ih =>
      rw [reported, ownFields, ownFields, kind_reported, span_reported, ih]
  | _ => rfl

section Injectivity

/-- Clauses with the same dump are alike if their nodes are. -/
theorem reportedClauses_of_eq {clauses others : List (Clause Node)}
    (ih : ∀ c ∈ clauses, ∀ node : Node, c.node.toJson = node.toJson →
      c.node.reported = node.reported)
    (h : toJsonClauses clauses = toJsonClauses others) :
    reportedClauses clauses = reportedClauses others := by
  rw [toJsonClauses_eq_map, toJsonClauses_eq_map] at h
  rw [reportedClauses_eq_map, reportedClauses_eq_map]
  induction clauses generalizing others with
  | nil =>
      cases others with
      | nil => rfl
      | cons => cases h
  | cons c rest ihrest =>
      obtain ⟨hc, hrest⟩ := List.forall_mem_cons.mp ih
      cases others with
      | nil => cases h
      | cons d others =>
          obtain ⟨hclause, hothers⟩ := List.cons.inj h
          simp only [Clause.toJson, Json.object.injEq, List.cons.injEq, Prod.mk.injEq,
            Json.bool.injEq, Json.string.injEq, true_and, and_true] at hclause
          obtain ⟨hexplicit, hnode, hoccur⟩ := hclause
          rw [List.map_cons, List.map_cons, ihrest hrest hothers, hexplicit, hc d.node hnode,
            Occur.name_injective hoccur]

/-- Trees with the same dump are alike. The dumps agree in the kind, so the other tree has
the form of the first, and their fields agree one by one. -/
theorem reported_of_toJson_eq {a b : Node} (h : a.toJson = b.toJson) :
    a.reported = b.reported := by
  induction a using Node.induction generalizing b with
  | boolean span clauses ih =>
      obtain ⟨hkind, hspan, hown⟩ := fields_of_toJson_eq h
      cases b with
      | boolean span' others =>
          obtain rfl : span = span' := hspan
          have hclauses : toJsonClauses clauses = toJsonClauses others := by
            simpa [ownFields] using hown
          rw [reported, reported, reportedClauses_of_eq (fun c hc node => ih c hc) hclauses]
      | _ => simp [kind] at hkind
  | negated span operator child ih =>
      obtain ⟨hkind, hspan, hown⟩ := fields_of_toJson_eq h
      cases b with
      | negated span' operator' other =>
          obtain rfl : span = span' := hspan
          have hparts : child.toJson = other.toJson ∧ operator = operator' := by
            simpa [ownFields, toJson] using hown
          rw [reported, reported, ih hparts.1, hparts.2]
      | _ => simp [kind] at hkind
  | words | phrasePrefix | wordPrefix | wildcard | empty =>
      obtain ⟨hkind, hspan, hown⟩ := fields_of_toJson_eq h
      cases b <;> simp_all [kind, Node.span, ownFields]
  | phrase span text slop stem =>
      obtain ⟨hkind, hspan, hown⟩ := fields_of_toJson_eq h
      cases b with
      | phrase span' text' slop' stem' =>
          obtain rfl : span = span' := hspan
          simp only [ownFields, List.cons.injEq, Prod.mk.injEq, true_and, and_true,
            Json.string.injEq, Json.bool.injEq] at hown
          obtain ⟨rfl, hslop, rfl⟩ := hown
          obtain rfl := (Json.ofOption_nat_inj uint32_toNat_injective).mp hslop
          rfl
      | _ => simp [kind] at hkind
  | fuzzy span text distance =>
      obtain ⟨hkind, hspan, hown⟩ := fields_of_toJson_eq h
      cases b with
      | fuzzy span' text' distance' =>
          obtain rfl : span = span' := hspan
          simp only [ownFields, List.cons.injEq, Prod.mk.injEq, true_and, and_true,
            Json.string.injEq] at hown
          obtain ⟨rfl, hdistance⟩ := hown
          obtain rfl := (Json.ofOption_nat_inj uint8_toNat_injective).mp hdistance
          rfl
      | _ => simp [kind] at hkind
  | keyword occurrence feature =>
      obtain ⟨hkind, hspan, hown⟩ := fields_of_toJson_eq h
      cases b with
      | keyword occurrence' feature' =>
          simp only [ownFields, List.cons.injEq, Prod.mk.injEq, true_and, and_true,
            Json.string.injEq, Json.ofOption_string_inj] at hown
          obtain ⟨hname, hkey, hdelimiter, hvalue, hquoted⟩ := hown
          have hoccurrence : occurrence = occurrence' := by
            obtain ⟨span, key, delimiter, value, quoted⟩ := occurrence
            obtain ⟨span', key', delimiter', value', quoted'⟩ := occurrence'
            obtain rfl : span = span' := hspan
            obtain rfl : key = key' := hkey
            obtain rfl : delimiter = delimiter' := hdelimiter
            obtain rfl : value = value' := hvalue
            obtain rfl : quoted = quoted' := hquoted
            rfl
          rw [reported, reported, hname, hoccurrence]
      | _ => simp [kind] at hkind

end Injectivity

section Canonical

theorem canonicalItems_toJsonClauses {clauses : List (Clause Node)}
    (h : ∀ c ∈ clauses, c.node.toJson.canonical = c.node.toJson) :
    canonicalItems (toJsonClauses clauses) = toJsonClauses clauses := by
  induction clauses with
  | nil => rfl
  | cons c rest ih =>
      obtain ⟨hnode, hrest⟩ := List.forall_mem_cons.mp h
      have hclause : c.toJson.canonical = c.toJson := by
        simp only [Clause.toJson, Json.canonical, canonicalEntries, hnode]
      exact congrArg₂ List.cons hclause (ih hrest)

theorem canonical_of_ownFields {node : Node}
    (h : ∀ field ∈ node.ownFields, field.2.canonical = field.2) :
    node.toJson.canonical = node.toJson := by
  have hfields : ∀ field ∈ node.fields, field.2.canonical = field.2 := by
    intro field hfield
    rcases List.mem_append.mp hfield with hspan | hown
    · obtain rfl | rfl := List.mem_pair.mp hspan <;> rfl
    · exact h field hown
  rw [toJson_eq_ofList, Json.single, Json.canonical, canonicalEntries, canonicalEntries,
    Json.canonical_ofList hfields]

/-- All numbers in a dump are integers, so dumps that compare equal are equal. -/
theorem toJson_canonical (node : Node) : node.toJson.canonical = node.toJson := by
  induction node using Node.induction with
  | boolean span clauses ih =>
      refine canonical_of_ownFields fun field hfield => ?_
      obtain rfl := List.mem_singleton.mp hfield
      rw [Json.canonical, canonicalItems_toJsonClauses ih]
  | negated span operator child ih =>
      refine canonical_of_ownFields ?_
      rw [ownFields, List.forall_mem_cons, List.forall_mem_singleton]
      exact ⟨ih, rfl⟩
  | phrase span text slop stem =>
      refine canonical_of_ownFields ?_
      cases slop <;> simp [ownFields, Json.ofOption, Json.canonical, Number.canonical]
  | fuzzy span text distance =>
      refine canonical_of_ownFields ?_
      cases distance <;> simp [ownFields, Json.ofOption, Json.canonical, Number.canonical]
  | keyword occurrence feature =>
      refine canonical_of_ownFields ?_
      cases hquoted : occurrence.quoted <;>
        simp [ownFields, hquoted, Json.ofOption, Json.canonical]
  | _ => exact canonical_of_ownFields (by simp [ownFields, Json.canonical])

end Canonical

/-- The structural dump is lossless. Two trees have the same dump exactly if they are the
same tree, node by node and field by field, once the features of their keywords are
replaced by the names that they report; it makes no difference whether dumps are compared
as values or as numbers. And in the dump of every node each field is found with its own
value, those of its span and those of its kind, so that none has taken the place of
another. -/
theorem dump_lossless (a b : Node) :
    (a.toJson = b.toJson ↔ a.reported = b.reported) ∧
    (a.toJson.same b.toJson = true ↔ a.reported = b.reported) ∧
    ∃ body : Table Json, a.toJson = .single a.kind (.ofTable body) ∧
      ∀ field ∈ a.span.fields ++ a.ownFields, body.get? field.1 = some field.2 := by
  have hequal : a.toJson = b.toJson ↔ a.reported = b.reported := by
    constructor
    · exact reported_of_toJson_eq
    · intro h
      rw [← a.toJson_reported, ← b.toJson_reported, h]
  refine ⟨hequal, ?_, .ofList a.fields, a.toJson_eq_ofList, ?_⟩
  · rw [Json.same_iff, toJson_canonical, toJson_canonical, hequal]
  · intro field hfield
    rw [Table.get?_ofList a.nodup_names_fields]
    exact (mem_iff_lookup_eq_some a.nodup_names_fields).mp hfield

end Node

end SearchCompiler
