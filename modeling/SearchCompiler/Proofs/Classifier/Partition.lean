import SearchCompiler.Proofs.Classifier.Shapes
import SearchCompiler.Proofs.Draft.Merge
import SearchCompiler.Proofs.Node.Containment

/-!
The labels of the built-in classifier as a partition of all queries. Warnings come
first, then whatever makes a tree elaborate, at any depth; of the trees that are
left, the words and the phrases in them decide. A shape is a sum over the events
of a tree, so it is blind to the order of clauses and to groupings nobody typed.
-/

namespace SearchCompiler

/-- What makes a query complex by standing somewhere in its tree. -/
def Node.Elaborate : Node → Prop
  | .boolean _ clauses => ∃ c ∈ clauses, c.explicit ∨ c.occur = .mustNot
  | .phrase _ _ slop stem => slop.isSome ∨ stem
  | .negated .. | .phrasePrefix .. | .wordPrefix .. | .fuzzy .. | .wildcard .. | .keyword .. => True
  | .words .. | .empty _ => False

/-- Whether something in a tree makes it complex. -/
def Node.Complex (root : Node) : Prop :=
  ∃ node, root.Has node ∧ node.Elaborate

/-- Whether plain words stand somewhere in a tree. -/
def Node.HasWords (root : Node) : Prop :=
  ∃ span text, root.Has (.words span text)

/-- Ways to arrange the same clauses differently, without an operator being typed
or anything being excluded. -/
inductive Node.Rearranges : Node → Node → Prop
  /-- The clauses of a combination change places. -/
  | permute (span : Span) {clauses others : List (Clause Node)} : clauses.Perm others →
      Rearranges (.boolean span clauses) (.boolean span others)
  /-- A node becomes the only clause of a combination. -/
  | wrap {occur : Occur} (hoccur : occur ≠ .mustNot) (span : Span) (node : Node) :
      Rearranges node (.boolean span [⟨occur, false, node⟩])
  /-- Neighbouring clauses become a combination inside a clause. -/
  | nest {occur : Occur} (hoccur : occur ≠ .mustNot) (span inner : Span)
      (before part after : List (Clause Node)) :
      Rearranges (.boolean span (before ++ (part ++ after)))
        (.boolean span (before ++ ⟨occur, false, .boolean inner part⟩ :: after))
  /-- A clause with nothing in it joins a combination. -/
  | pad {occur : Occur} (hoccur : occur ≠ .mustNot) (span inner : Span)
      (before after : List (Clause Node)) :
      Rearranges (.boolean span (before ++ after))
        (.boolean span (before ++ ⟨occur, false, .empty inner⟩ :: after))

namespace Node

theorem not_plain_iff {root : Node} : ¬ root.Plain ↔ root.Complex := by
  constructor
  · intro hplain
    obtain ⟨event, hevent, hcomplicates⟩ : ∃ event ∈ root.events, event.complicates = true := by
      simpa [Plain] using hplain
    cases event with
    | clause c =>
        obtain ⟨span, clauses, hhas, hc⟩ := clause_mem_events.mp hevent
        exact ⟨_, hhas, c, hc, by simpa [Event.complicates] using hcomplicates⟩
    | node node =>
        refine ⟨node, node_mem_events.mp hevent, ?_⟩
        cases node <;> simp_all [Event.complicates, Elaborate]
  · rintro ⟨node, hhas, helaborate⟩ hplain
    have hnode := hplain _ (node_mem_events.mpr hhas)
    cases node with
    | boolean span clauses =>
        obtain ⟨c, hc, hoperator⟩ := helaborate
        have hclause := hplain _ (clause_mem_events.mpr ⟨span, clauses, hhas, hc⟩)
        simp_all [Event.complicates]
    | _ => simp_all [Event.complicates, Elaborate]

theorem texts_ne_nil_iff {root : Node} : root.texts ≠ [] ↔ root.HasWords := by
  simp only [texts, HasWords, ne_eq, List.eq_nil_iff_forall_not_mem, not_forall, not_not,
    List.mem_filterMap, mem_leafNodes]
  constructor
  · rintro ⟨text, leaf, ⟨hhas, _⟩, htext⟩
    cases leaf with
    | words span other => exact ⟨span, other, hhas⟩
    | _ => cases htext
  · rintro ⟨span, text, hhas⟩
    exact ⟨text, _, ⟨hhas, rfl⟩, rfl⟩

end Node

namespace Shape

theorem add_zero (s : Shape) : s.add ⟨0, 0, false⟩ = s := by
  simp [add]

theorem zero_add (s : Shape) : Shape.add ⟨0, 0, false⟩ s = s := by
  simp [add]

/-- What coming to a clause adds. -/
def ofClause (c : Clause Node) : Shape :=
  ⟨0, 0, c.explicit || c.occur == .mustNot⟩

/-- The shape of a list of clauses. -/
def ofClauses (clauses : List (Clause Node)) : Shape :=
  ofEvents (eventsOfClauses clauses)

theorem ofNode_eq_ofEvents (root : Node) : ofNode root = ofEvents root.events :=
  ofNode_eq root

theorem ofNode_boolean (span : Span) (clauses : List (Clause Node)) :
    ofNode (.boolean span clauses) = ofClauses clauses :=
  ofNode_eq _

theorem ofNode_negated (span : Span) (operator : String) (child : Node) :
    ofNode (.negated span operator child) = (ofNode child).complicate := by
  rw [ofNode_eq, ofNode_eq]
  rfl

theorem ofClauses_append (before after : List (Clause Node)) :
    ofClauses (before ++ after) = (ofClauses before).add (ofClauses after) := by
  simp only [ofClauses, eventsOfClauses_eq_flatMap, List.flatMap_append, ofEvents_append]

theorem ofClauses_cons (c : Clause Node) (rest : List (Clause Node)) :
    ofClauses (c :: rest) = (ofClause c).add ((ofNode c.node).add (ofClauses rest)) := by
  have hclause : ofEvents [.clause c] = ofClause c := by
    simp [ofEvents, ofClause, Event.leaf?, Event.complicates, List.filterMap_cons]
  have hevents : eventsOfClauses (c :: rest) =
      [.clause c] ++ (c.node.events ++ eventsOfClauses rest) := rfl
  rw [ofClauses, hevents, ofEvents_append, ofEvents_append, hclause, ofNode_eq_ofEvents]
  rfl

/-- A clause that nobody typed has the shape of its node, unless it excludes. -/
theorem ofClauses_implicit {occur : Occur} (hoccur : occur ≠ .mustNot) (node : Node)
    (rest : List (Clause Node)) :
    ofClauses (⟨occur, false, node⟩ :: rest) = (ofNode node).add (ofClauses rest) := by
  have hclause : ofClause ⟨occur, false, node⟩ = ⟨0, 0, false⟩ := by simp [ofClause, hoccur]
  rw [ofClauses_cons, hclause, zero_add]

/-- The order of the clauses does not matter. -/
theorem ofClauses_perm {clauses others : List (Clause Node)} (h : clauses.Perm others) :
    ofClauses others = ofClauses clauses := by
  have hevents : (eventsOfClauses clauses).Perm (eventsOfClauses others) := by
    rw [eventsOfClauses_eq_flatMap, eventsOfClauses_eq_flatMap]
    exact h.flatMap_right _
  have hleaves := hevents.filterMap Event.leaf?
  simp only [ofClauses, ofEvents, (hleaves.filterMap Node.words?).length_eq,
    (hleaves.filterMap Node.phrase?).length_eq, hevents.any_eq]

theorem ofNode_of_rearranges {node other : Node} (h : node.Rearranges other) :
    ofNode other = ofNode node := by
  cases h with
  | permute span hperm => rw [ofNode_boolean, ofNode_boolean, ofClauses_perm hperm]
  | wrap hoccur span =>
      rw [ofNode_boolean, ofClauses_implicit hoccur]
      exact add_zero _
  | nest hoccur span inner before part after =>
      rw [ofNode_boolean, ofNode_boolean, ofClauses_append, ofClauses_append, ofClauses_append,
        ofClauses_implicit hoccur, ofNode_boolean]
  | pad hoccur span inner before after =>
      have hempty : ofNode (.empty inner) = ⟨0, 0, false⟩ := rfl
      rw [ofNode_boolean, ofNode_boolean, ofClauses_append, ofClauses_append,
        ofClauses_implicit hoccur, hempty, zero_add]

/-- Further down, too, an arrangement leaves the shape as it is. -/
theorem ofNode_of_somewhere {node other : Node} (h : node.Somewhere Node.Rearranges other) :
    ofNode other = ofNode node := by
  induction h with
  | here h => exact ofNode_of_rearranges h
  | @clause node other span occur explicit before after _ ih =>
      have hclause : ofClause ⟨occur, explicit, other⟩ = ofClause ⟨occur, explicit, node⟩ := rfl
      rw [ofNode_boolean, ofNode_boolean, ofClauses_append, ofClauses_append, ofClauses_cons,
        ofClauses_cons, ih, hclause]
  | negated span operator _ ih => rw [ofNode_negated, ofNode_negated, ih]

/-- The label of a query without warnings, by what stands in its tree. -/
theorem label?_ofNode (root : Node) :
    ((ofNode root).label? = some "complex_query" ↔ root.Complex) ∧
    ((ofNode root).label? = some "bag_of_words_with_phrase" ↔ ¬ root.Complex ∧
      ((root.HasWords ∧ 1 ≤ root.phrases.length) ∨
        (¬ root.HasWords ∧ 2 ≤ root.phrases.length))) ∧
    ((ofNode root).label? = some "simple_bag_of_words" ↔
      ¬ root.Complex ∧ root.HasWords ∧ root.phrases.length = 0) ∧
    ((ofNode root).label? = some "simple_phrase" ↔
      ¬ root.Complex ∧ ¬ root.HasWords ∧ root.phrases.length = 1) ∧
    ((ofNode root).label? = none ↔
      ¬ root.Complex ∧ ¬ root.HasWords ∧ root.phrases.length = 0) := by
  have hcomplex : root.Complex ↔ (ofNode root).complex = true := by
    rw [← Node.not_plain_iff, ← complex_ofNode, Bool.not_eq_false]
  have hwords : root.HasWords ↔ 0 < (ofNode root).words := by
    rw [← Node.texts_ne_nil_iff, ofNode_eq, List.length_pos_iff]
  have hphrases : root.phrases.length = (ofNode root).phrases := by rw [ofNode_eq]
  rw [hcomplex, hwords, hphrases]
  generalize ofNode root = shape
  unfold label?
  grind

/-- A shape is given no label but those that speak of shapes. -/
theorem mem_of_label?_eq_some {shape : Shape} {label : String} (h : shape.label? = some label) :
    label ∈ ["simple_bag_of_words", "simple_phrase", "bag_of_words_with_phrase",
      "complex_query"] := by
  unfold label? at h
  grind

theorem classify_eq_nil_iff {query : Query} :
    classify query = [] ↔ query.warnings = [] ∧ (ofNode query.root).label? = none := by
  unfold classify
  cases query.warnings with
  | nil => simp
  | cons => simp

/-- The built-in classifier sorts all queries into its labels and those without
one. Warnings are looked at first. Then an operator that was typed, an exclusion
or a leaf that is anything but plain words or a plain phrase makes a query
complex, wherever it stands. The rest goes by whether there are words and by how
many phrases there are. How clauses that nobody typed are arranged makes no
difference, in any series of such changes, at any depth. -/
theorem classify_partition (query : Query) :
    (classify query).length ≤ 1 ∧
    (∀ label ∈ classify query, label ∈ classifier.labels) ∧
    ("bogus_query" ∈ classify query ↔ query.warnings ≠ []) ∧
    ("complex_query" ∈ classify query ↔ query.warnings = [] ∧ query.root.Complex) ∧
    ("bag_of_words_with_phrase" ∈ classify query ↔
      query.warnings = [] ∧ ¬ query.root.Complex ∧
        ((query.root.HasWords ∧ 1 ≤ query.root.phrases.length) ∨
          (¬ query.root.HasWords ∧ 2 ≤ query.root.phrases.length))) ∧
    ("simple_bag_of_words" ∈ classify query ↔
      query.warnings = [] ∧ ¬ query.root.Complex ∧
        query.root.HasWords ∧ query.root.phrases.length = 0) ∧
    ("simple_phrase" ∈ classify query ↔
      query.warnings = [] ∧ ¬ query.root.Complex ∧
        ¬ query.root.HasWords ∧ query.root.phrases.length = 1) ∧
    (classify query = [] ↔
      query.warnings = [] ∧ ¬ query.root.Complex ∧
        ¬ query.root.HasWords ∧ query.root.phrases.length = 0) ∧
    ∀ other : Query, other.warnings = query.warnings →
      Relation.EqvGen (Node.Somewhere Node.Rearranges) query.root other.root →
      classify other = classify query := by
  obtain ⟨hcomplex, hmixed, hwords, hphrase, hnone⟩ := label?_ofNode query.root
  have hmem {label : String} (hlabel : label ≠ "bogus_query") :
      label ∈ classify query ↔
        query.warnings = [] ∧ (ofNode query.root).label? = some label := by
    rw [mem_classify_iff]
    split
    · next hwarnings => exact (and_iff_right hwarnings).symm
    · next hwarnings => exact iff_of_false hlabel fun h => hwarnings h.1
  refine ⟨?_, ?_, ?_, ?_, ?_, ?_, ?_, ?_, ?_⟩
  · unfold classify
    split
    · exact Option.length_toList_le
    · exact Nat.le_refl 1
  · intro label hlabel
    rw [mem_classify_iff] at hlabel
    split at hlabel
    · exact List.mem_append_left ["bogus_query"] (mem_of_label?_eq_some hlabel)
    · subst hlabel
      decide
  · rw [mem_classify_iff]
    split
    · next hwarnings =>
        refine iff_of_false (fun hbogus => ?_) (fun hne => hne hwarnings)
        simpa using mem_of_label?_eq_some hbogus
    · next hwarnings => exact iff_of_true rfl hwarnings
  · rw [hmem (by decide), hcomplex]
  · rw [hmem (by decide), hmixed]
  · rw [hmem (by decide), hwords]
  · rw [hmem (by decide), hphrase]
  · rw [classify_eq_nil_iff, hnone]
  · intro other hwarnings hroot
    have hshape : ofNode other.root = ofNode query.root :=
      eq_of_eqvGen ofNode (fun _ _ => ofNode_of_somewhere) hroot
    rw [classify, classify, hwarnings, hshape]

/-- Words and a phrase, with a bracket around the phrase that holds nothing else
and the two in the other order. -/
theorem classify_partition_bracketedPhrase :
    let words : Clause Node := ⟨.should, false, .words ⟨0, 3⟩ "red"⟩
    let phrase : Clause Node := ⟨.must, false, .phrase ⟨4, 15⟩ "wild rose" none false⟩
    let blank : Clause Node := ⟨.should, false, .empty ⟨16, 16⟩⟩
    let query := Query.typed (.boolean ⟨0, 15⟩ [words, phrase]) "red \"wild rose\""
    let other := Query.typed
      (.boolean ⟨0, 15⟩ [⟨.must, false, .boolean ⟨4, 15⟩ [phrase, blank]⟩, words])
      "red \"wild rose\""
    Relation.EqvGen (Node.Somewhere Node.Rearranges) query.root other.root ∧
      "bag_of_words_with_phrase" ∈ classify query ∧ classify other = classify query := by
  intro words phrase blank query other
  have hpermute : query.root.Somewhere Node.Rearranges (.boolean ⟨0, 15⟩ [phrase, words]) :=
    .here (.permute ⟨0, 15⟩ (.swap phrase words []))
  have hnest : (Node.boolean ⟨0, 15⟩ [phrase, words]).Somewhere Node.Rearranges
      (.boolean ⟨0, 15⟩ [⟨.must, false, .boolean ⟨4, 15⟩ [phrase]⟩, words]) :=
    .here (.nest (by decide) ⟨0, 15⟩ ⟨4, 15⟩ [] [phrase] [words])
  have hpad : (Node.boolean ⟨0, 15⟩ [⟨.must, false, .boolean ⟨4, 15⟩ [phrase]⟩, words]).Somewhere
      Node.Rearranges other.root :=
    .clause ⟨0, 15⟩ .must false [] [words] (.here (.pad (by decide) ⟨4, 15⟩ ⟨16, 16⟩ [phrase] []))
  have hroot : Relation.EqvGen (Node.Somewhere Node.Rearranges) query.root other.root :=
    .trans _ _ _ (.rel _ _ hpermute) (.trans _ _ _ (.rel _ _ hnest) (.rel _ _ hpad))
  obtain ⟨_, _, _, _, hmixed, _, _, _, hsame⟩ := classify_partition query
  refine ⟨hroot, hmixed.mpr ⟨rfl, ?_, .inl ⟨?_, ?_⟩⟩, hsame other rfl hroot⟩
  · rw [← Node.not_plain_iff, not_not, ← complex_ofNode]
    rfl
  · rw [← Node.texts_ne_nil_iff]
    decide
  · decide

end Shape

end SearchCompiler
