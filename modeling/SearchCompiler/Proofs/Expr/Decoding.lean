import SearchCompiler.Proofs.Expr.Canonical

/-!
Reading expressions back from their JSON form. The key of the one entry tells the
kind. Below it a leaf has its field for a key, a combination has its groups, of
which those that are absent are empty, and the entries of a scoring function that
are neither its filter nor its weight are its body. What was written is read back
as it was, and so no two expressions are written alike.
-/

namespace SearchCompiler

def Operator.ofName? : String → Option Operator
  | "and" => some .and
  | "or" => some .or
  | _ => none

namespace Json

/-- A natural number below a bound. -/
def below? (bound : Nat) : Json → Option Nat
  | .number (.int n) => if 0 ≤ n ∧ n.toNat < bound then some n.toNat else none
  | _ => none

/-- The distance of a fuzzy term, which may be left to the backend. -/
def distance? : Json → Option (Option UInt8)
  | .string "AUTO" => some none
  | value => (value.below? UInt8.size).map fun n => some (.ofNat n)

end Json

/-- What an object has besides the filter and the weight. -/
def ownEntries (entries : List (String × Json)) : List (String × Json) :=
  entries.filter fun entry => entry.1 != "filter" && entry.1 != "weight"

/-- The body of a scoring function; a function without entries of its own has none. -/
def bodyOf? (entries : List (String × Json)) : Option (Table Json) :=
  if h : (ownEntries entries).Pairwise (fun a b => a.1 < b.1) ∧ ownEntries entries ≠ [] then
    some ⟨ownEntries entries, h.1⟩
  else none

def weightOf? (entries : List (String × Json)) : Option Double :=
  match entries.lookup "weight" with
  | some (.number (.double weight)) => some weight
  | _ => none

/-- A leaf of some kind, from what stands under the name of its field. -/
def leafOf? (kind field : String) (value : Json) : Option Expr :=
  match kind, value with
  | "match", .object [("operator", .string operator), ("query", .string text)] =>
      (Operator.ofName? operator).map (.matchText field text ·)
  | "match_phrase", .object [("query", .string text), ("slop", slop)] =>
      (slop.below? UInt32.size).map fun n => .phrase field text (.ofNat n)
  | "match_phrase_prefix", .object [("query", .string text)] => some (.phrasePrefix field text)
  | "prefix", .string value => some (.termPrefix field value)
  | "fuzzy", .object [("fuzziness", distance), ("value", .string value)] =>
      distance.distance?.map (.fuzzy field value ·)
  | "wildcard", .string value => some (.wildcard field value)
  | "term", value => some (.term field value)
  | "terms", .array values => some (.terms field values)
  | _, _ => none

/-- A leaf has one entry. -/
def leafIn? (kind : String) : List (String × Json) → Option Expr
  | [(field, value)] => leafOf? kind field value
  | _ => none

mutual

/-- The expression that a JSON value stands for, if it stands for one. -/
def Expr.ofJson? : Json → Option Expr
  | .object [(kind, body)] => exprOf? kind body
  | _ => none

def exprOf? (kind : String) : Json → Option Expr
  | .object entries =>
      if kind = "match_all" then some .matchAll
      else if kind = "match_none" then some .matchNone
      else if kind = "bool" then do
        return .bool ⟨← groupOf? "must" entries, ← groupOf? "should" entries,
          ← groupOf? "must_not" entries, ← groupOf? "filter" entries⟩
      else if kind = "function_score" then scoredOf? entries
      else leafIn? kind entries
  | _ => none

def scoredOf? : List (String × Json) → Option Expr
  | [("boost_mode", .string boostMode), ("functions", .array functions), ("query", query),
      ("score_mode", .string scoreMode)] => do
      return .functionScore (← Expr.ofJson? query) (← functionsOf? functions) scoreMode boostMode
  | _ => none

def exprsOf? : List Json → Option (List Expr)
  | [] => some []
  | value :: rest => do
      return (← Expr.ofJson? value) :: (← exprsOf? rest)

def groupOf? (name : String) : List (String × Json) → Option (List Expr)
  | [] => some []
  | (key, .array values) :: rest => if key = name then exprsOf? values else groupOf? name rest
  | _ => none

def filterOf? : List (String × Json) → Option (Option Expr)
  | [] => some none
  | (key, value) :: rest =>
      if key = "filter" then (Expr.ofJson? value).map some else filterOf? rest

def functionsOf? : List Json → Option (List (ScoreFunction Expr))
  | [] => some []
  | .object entries :: rest => do
      return ⟨← filterOf? entries, ← weightOf? entries, bodyOf? entries⟩ :: (← functionsOf? rest)
  | _ => none

end

section Leaves

theorem Operator.ofName?_name (operator : Operator) : ofName? operator.name = some operator := by
  cases operator <;> rfl

theorem Json.below?_nat {n bound : Nat} (h : n < bound) : (Json.nat n).below? bound = some n := by
  simp [Json.below?, h]

end Leaves

section Groups

theorem exprsOf?_toJsonList {es : List Expr} (h : ∀ e ∈ es, Expr.ofJson? e.toJson = some e) :
    exprsOf? (toJsonList es) = some es := by
  induction es with
  | nil => rfl
  | cons e others ih =>
      obtain ⟨he, hothers⟩ := List.forall_mem_cons.mp h
      simp [toJsonList, exprsOf?, he, ih hothers]

/-- Groups are read by their names. One that is empty was left out, and one that is
nowhere to be found is read as empty. -/
theorem groupOf?_groupEntries {name : String} {groups : List (String × List Json)}
    (h : (groups.map Prod.fst).Nodup) :
    groupOf? name (groups.flatMap fun group => groupEntry group.1 group.2) =
      exprsOf? ((groups.lookup name).getD []) := by
  induction groups with
  | nil => rfl
  | cons group rest ih =>
      obtain ⟨other, values⟩ := group
      obtain ⟨habsent, hrest⟩ := List.nodup_cons.mp h
      rw [List.flatMap_cons, lookup_cons_eq]
      cases values with
      | nil =>
          have hnothing : groupEntry other [] = [] := rfl
          rw [hnothing, List.nil_append, ih hrest]
          split
          · next heq =>
              -- the group was left out, and no later one takes its name
              rw [lookup_eq_none_of_notMem (heq ▸ habsent)]
              rfl
          · rfl
      | cons value values =>
          have hentry : groupEntry other (value :: values) = [(other, .array (value :: values))] :=
            rfl
          rw [hentry, List.singleton_append, groupOf?, ih hrest]
          by_cases heq : name = other
          · rw [if_pos heq, if_pos heq.symm, Option.getD_some]
          · rw [if_neg heq, if_neg (Ne.symm heq)]

/-- A combination is read if each of its groups is. -/
theorem exprOf?_bool {groups : List (String × List Json)} (h : (groups.map Prod.fst).Nodup)
    {must should mustNot filter : List Expr}
    (hmust : exprsOf? ((groups.lookup "must").getD []) = some must)
    (hshould : exprsOf? ((groups.lookup "should").getD []) = some should)
    (hnot : exprsOf? ((groups.lookup "must_not").getD []) = some mustNot)
    (hfilter : exprsOf? ((groups.lookup "filter").getD []) = some filter) :
    exprOf? "bool" (.object (groups.flatMap fun group => groupEntry group.1 group.2)) =
      some (.bool ⟨must, should, mustNot, filter⟩) := by
  rw [exprOf?, groupOf?_groupEntries h, groupOf?_groupEntries h, groupOf?_groupEntries h,
    groupOf?_groupEntries h, hmust, hshould, hnot, hfilter]
  rfl

end Groups

section Functions

variable {name : String} {value : Json} {entries : List (String × Json)}

/-- An entry that is left out may as well not have been put in. -/
theorem filter_insertEntry {keep : String → Bool} (h : keep name = false) :
    (insertEntry name value entries).filter (keep ·.1) = entries.filter (keep ·.1) := by
  induction entries with
  | nil => simp [insertEntry, h]
  | cons head rest ih =>
      obtain ⟨other, old⟩ := head
      unfold insertEntry
      split
      · simp [h]
      · split
        · next heq =>
            subst heq
            simp [h]
        · rw [List.filter_cons, List.filter_cons, ih]

theorem filterOf?_eq (entries : List (String × Json)) :
    filterOf? entries =
      match entries.lookup "filter" with
      | none => some none
      | some value => (Expr.ofJson? value).map some := by
  induction entries with
  | nil => rfl
  | cons head rest ih =>
      obtain ⟨key, value⟩ := head
      rw [filterOf?, lookup_cons_eq, ih]
      by_cases h : key = "filter"
      · rw [if_pos h, if_pos h.symm]
      · rw [if_neg h, if_neg (Ne.symm h)]

/-- The entries of a table by name. -/
theorem lookup_insert (table : Table Json) (other : String) :
    (table.insert name value).entries.lookup other =
      if other = name then some value else table.entries.lookup other :=
  table.get?_insert name other value

variable {filter : Option Expr} {weight : Double} {body : Option (Table Json)}

/-- The body is found again below what was put on top of it. -/
theorem bodyOf?_insert (hname : name = "filter" ∨ name = "weight") (table : Table Json) :
    bodyOf? (table.insert name value).entries = bodyOf? table.entries := by
  have hown : ownEntries (table.insert name value).entries = ownEntries table.entries := by
    refine @filter_insertEntry name value table.entries
      (fun key => key != "filter" && key != "weight") ?_
    rcases hname with rfl | rfl <;> rfl
  simp only [bodyOf?, hown]

theorem bodyOf?_getD (h : (ScoreFunction.mk filter weight body).Separable) :
    bodyOf? (body.getD .empty).entries = body := by
  cases body with
  | none => rfl
  | some table =>
      obtain ⟨hfull, hfilter, hweight⟩ := h table rfl
      have hown : ownEntries table.entries = table.entries := by
        refine List.filter_eq_self.mpr fun entry hentry => ?_
        have hget : table.get? entry.1 = some entry.2 := (table.mem_entries_iff _ _).mp hentry
        have hne : entry.1 ≠ "filter" ∧ entry.1 ≠ "weight" := by
          constructor <;> intro heq <;> simp_all
        simp [hne]
      have hsome : table.entries ≠ [] := by
        rw [Table.isEmpty, List.isEmpty_eq_false_iff] at hfull
        exact hfull
      simp only [Option.getD_some, bodyOf?, hown]
      exact dif_pos ⟨table.ascending, hsome⟩

theorem weightOf?_insert (table : Table Json) :
    weightOf? (table.insert "weight" (.double weight)).entries = some weight := by
  rw [weightOf?, lookup_insert, if_pos rfl]

theorem filterOf?_insert_weight (table : Table Json) :
    filterOf? (table.insert "weight" value).entries = filterOf? table.entries := by
  rw [filterOf?_eq, filterOf?_eq, lookup_insert, if_neg (by decide)]

/-- Filter, weight and body come apart again. -/
theorem functionsOf?_scoreEntries {values : List Json} {functions : List (ScoreFunction Expr)}
    (hbody : (ScoreFunction.mk filter weight body).Separable)
    (hfilter : ∀ e ∈ filter, Expr.ofJson? e.toJson = some e)
    (hrest : functionsOf? values = some functions) :
    functionsOf? (scoreEntries (filter.map Expr.toJson) weight body :: values) =
      some (⟨filter, weight, body⟩ :: functions) := by
  cases filter with
  | none =>
      have hentries : scoreEntries none weight body =
          .object ((body.getD .empty).insert "weight" (.double weight)).entries := rfl
      have hnone : (body.getD .empty).entries.lookup "filter" = none := by
        cases body with
        | none => rfl
        | some table => exact (hbody table rfl).2.1
      rw [Option.map_none, hentries, functionsOf?, filterOf?_insert_weight, filterOf?_eq, hnone,
        weightOf?_insert, bodyOf?_insert (.inr rfl), bodyOf?_getD hbody, hrest]
      rfl
  | some e =>
      have hentries : scoreEntries (some e.toJson) weight body =
          .object (((body.getD .empty).insert "filter" e.toJson).insert "weight"
            (.double weight)).entries := rfl
      rw [Option.map_some, hentries, functionsOf?, filterOf?_insert_weight, filterOf?_eq,
        lookup_insert, if_pos rfl, weightOf?_insert, bodyOf?_insert (.inr rfl),
        bodyOf?_insert (.inl rfl), bodyOf?_getD hbody, hrest]
      simp [hfilter]

theorem functionsOf?_toJsonFunctions {functions : List (ScoreFunction Expr)}
    (h : ∀ f ∈ functions, f.Separable ∧ ∀ e ∈ f.filter, Expr.ofJson? e.toJson = some e) :
    functionsOf? (toJsonFunctions functions) = some functions := by
  induction functions with
  | nil => rfl
  | cons f rest ih =>
      obtain ⟨⟨hbody, hfilter⟩, hrest⟩ := List.forall_mem_cons.mp h
      obtain ⟨filter, weight, body⟩ := f
      have hcons : toJsonFunctions (⟨filter, weight, body⟩ :: rest) =
          scoreEntries (filter.map Expr.toJson) weight body :: toJsonFunctions rest := by
        cases filter <;> rfl
      rw [hcons]
      exact functionsOf?_scoreEntries hbody hfilter (ih hrest)

end Functions

/-- An expression is read back as it was, if the bodies of its scoring functions can
be told from what is merged into them. -/
theorem Expr.ofJson?_toJson (e : Expr) (h : e.Separable) : ofJson? e.toJson = some e := by
  induction e using Expr.induction with
  | matchAll | matchNone | phrasePrefix | termPrefix | wildcard | term | terms => rfl
  | matchText field text operator =>
      simp [toJson, Json.single, ofJson?, exprOf?, leafIn?, leafOf?, Operator.ofName?_name]
  | phrase field text slop =>
      simp [toJson, Json.single, ofJson?, exprOf?, leafIn?, leafOf?,
        Json.below?_nat slop.toNat_lt_size]
  | fuzzy field value distance =>
      cases distance with
      | none => rfl
      | some n =>
          simp [toJson, Json.single, ofJson?, exprOf?, leafIn?, leafOf?, Json.distance?,
            Json.below?_nat n.toNat_lt_size]
  | bool must should mustNot filter ihmust ihshould ihnot ihfilter =>
      obtain ⟨hmust, hshould, hnot, hfilter⟩ := separable_bool.mp h
      have hreadFilter := exprsOf?_toJsonList fun e he => ihfilter e he (hfilter e he)
      have hreadMust := exprsOf?_toJsonList fun e he => ihmust e he (hmust e he)
      have hreadNot := exprsOf?_toJsonList fun e he => ihnot e he (hnot e he)
      have hreadShould := exprsOf?_toJsonList fun e he => ihshould e he (hshould e he)
      -- the groups stand in the order of their names, not of the fields
      let groups := [("filter", toJsonList filter), ("must", toJsonList must),
        ("must_not", toJsonList mustNot), ("should", toJsonList should)]
      have hentries : toJson (.bool ⟨must, should, mustNot, filter⟩) =
          .single "bool" (.object (groups.flatMap fun group => groupEntry group.1 group.2)) := by
        simp [groups, toJson]
      have hnames : (groups.map Prod.fst).Nodup := by
        have hfixed : groups.map Prod.fst = ["filter", "must", "must_not", "should"] := rfl
        rw [hfixed]
        decide
      rw [hentries, Json.single, ofJson?]
      exact exprOf?_bool hnames hreadMust hreadShould hreadNot hreadFilter
  | functionScore query functions scoreMode boostMode ihquery ihfunctions =>
      obtain ⟨hquery, hfunctions⟩ := separable_functionScore.mp h
      have hread := functionsOf?_toJsonFunctions fun f hf =>
        ⟨(hfunctions f hf).1, fun e he => ihfunctions f hf e he ((hfunctions f hf).2 e he)⟩
      simp [toJson, Json.single, ofJson?, exprOf?, scoredOf?, ihquery hquery, hread]

/-- Nothing of an expression is lost in its JSON form, from which it is read back.
Two expressions with one JSON form are one expression; if the two zeros count as one
number among the values and weights, they do so on both sides. -/
theorem Expr.toJson_lossless {e f : Expr} (he : e.Separable) (hf : f.Separable) :
    ofJson? e.toJson = some e ∧ (e.toJson = f.toJson ↔ e = f) ∧
      (e.toJson.same f.toJson = true ↔ e.same f = true) := by
  have hinjective {e f : Expr} (he : e.Separable) (hf : f.Separable) :
      e.toJson = f.toJson ↔ e = f := by
    refine ⟨fun h => ?_, congrArg toJson⟩
    have hread : some e = some f := by
      rw [← ofJson?_toJson e he, ← ofJson?_toJson f hf, h]
    exact Option.some.inj hread
  refine ⟨ofJson?_toJson e he, hinjective he hf, ?_⟩
  -- a comparison is an equation between canonical forms, and those are separable too
  calc
    e.toJson.same f.toJson = true ↔ e.canonical.toJson = f.canonical.toJson := by
      rw [Json.same_iff, toJson_canonical, toJson_canonical]
    _ ↔ e.canonical = f.canonical :=
      hinjective (separable_canonical he) (separable_canonical hf)
    _ ↔ e.same f = true := (same_iff e f).symm

/-- Books on a subject, of which the German ones are weighed differently. -/
def weighedBooks (weight : Double) : Expr :=
  .functionScore
    (.bool { must := [.matchText "title" "trees" .and, .fuzzy "author" "knuht" none],
             filter := [.terms "year" [.int 1968, .double .one]] })
    [⟨some (.bool { should := [.term "language" (.string "de")] }), weight,
        some (Table.ofList [("random_score", .object [])])⟩,
      ⟨none, .one, none⟩]
    "sum" "multiply"

/-- Weights that differ in the sign of zero alone are read back apart, though the
encodings compare equal. -/
theorem Expr.toJson_lossless_weighedBooks :
    (weighedBooks .zero).Separable ∧ (weighedBooks Double.zero.negate).Separable ∧
      ofJson? (weighedBooks .zero).toJson = some (weighedBooks .zero) ∧
      (weighedBooks .zero).toJson ≠ (weighedBooks Double.zero.negate).toJson ∧
      (weighedBooks .zero).toJson.same (weighedBooks Double.zero.negate).toJson = true := by
  have hbody (filter : Option Expr) (weight : Double) : ScoreFunction.Separable
      ⟨filter, weight, some (Table.ofList [("random_score", .object [])])⟩ := by
    intro body h
    obtain rfl := Option.some.inj h
    decide
  have hseparable (weight : Double) : (weighedBooks weight).Separable := by
    simp only [weighedBooks, separable_functionScore, separable_bool, List.forall_mem_cons,
      Option.mem_some_iff, forall_eq']
    exact ⟨⟨⟨nofun, nofun, nofun⟩, nofun, nofun, nofun, nofun⟩,
      ⟨hbody _ _, nofun, ⟨nofun, nofun⟩, nofun, nofun⟩, ⟨nofun, nofun⟩, nofun⟩
  obtain ⟨hread, hequal, hsame⟩ :=
    toJson_lossless (hseparable .zero) (hseparable Double.zero.negate)
  refine ⟨hseparable _, hseparable _, hread, mt hequal.mp ?_, hsame.mpr (by decide)⟩
  simp [weighedBooks, Double.negate, Double.zero]

end SearchCompiler
