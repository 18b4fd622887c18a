import SearchCompiler.Classifier.Shape
import SearchCompiler.Proofs.Node.Events

/-!
Shapes read off the events of a tree. The shape of a tree counts its plain words
and its quoted words and notes whether some event complicates it. If none does,
the tree is plain: nothing in it is excluded, and its leaves are plain words,
phrases without more ado, or nothing.
-/

namespace SearchCompiler

/-- Whether an event makes a query complex: a typed operator, an exclusion, or a
leaf that is anything but plain words or a plain phrase. -/
def Event.complicates : Event → Bool
  | .clause c => c.explicit || c.occur == .mustNot
  | .node (.phrase _ _ slop stem) => slop.isSome || stem
  | .node (.boolean ..) | .node (.words ..) | .node (.empty _) => false
  | .node _ => true

/-- A tree is plain when no event complicates it. -/
def Node.Plain (node : Node) : Prop :=
  ∀ event ∈ node.events, event.complicates = false

/-- What may stand in a plain tree apart from combinations. -/
inductive Node.PlainLeaf : Node → Prop
  | words (span : Span) (text : String) : PlainLeaf (.words span text)
  | phrase (span : Span) (text : String) : PlainLeaf (.phrase span text none false)
  | empty (span : Span) : PlainLeaf (.empty span)

/-- In a plain tree the leaves are plain, and nothing above them is excluded. -/
theorem Node.Plain.leaves {node : Node} (hplain : node.Plain) (odd required : Bool) :
    ∀ p ∈ node.leaves odd required, p.odd = odd ∧ p.leaf.PlainLeaf := by
  induction node using Node.induction generalizing odd required with
  | boolean span clauses ih =>
      rw [Node.Plain, Node.events, eventsOfClauses_eq_flatMap, List.forall_mem_cons] at hplain
      rw [leaves_boolean]
      intro p hp
      obtain ⟨c, hc, hp⟩ := List.mem_flatMap.mp hp
      have hclause : ∀ event ∈ Event.clause c :: c.node.events, event.complicates = false :=
        fun event he => hplain.2 event (List.mem_flatMap.mpr ⟨c, hc, he⟩)
      obtain ⟨hoperator, hnode⟩ := List.forall_mem_cons.mp hclause
      have hoccur : (c.occur == .mustNot) = false := (Bool.or_eq_false_iff.mp hoperator).2
      have hodd : (odd ^^ (c.occur == .mustNot)) = odd := by rw [hoccur, Bool.xor_false]
      rw [Clause.leaves, hodd] at hp
      exact ih c hc hnode odd _ p hp
  | negated span operator child ih =>
      cases hplain _ List.mem_cons_self
  | words span text =>
      intro p hp
      obtain rfl := List.mem_singleton.mp hp
      exact ⟨rfl, .words span text⟩
  | phrase span text slop stem =>
      intro p hp
      obtain rfl := List.mem_singleton.mp hp
      obtain ⟨hslop, rfl⟩ := Bool.or_eq_false_iff.mp (hplain _ List.mem_cons_self)
      obtain rfl := Option.isNone_iff_eq_none.mp (Option.isSome_eq_false_iff.mp hslop)
      exact ⟨rfl, .phrase span text⟩
  | empty span =>
      intro p hp
      obtain rfl := List.mem_singleton.mp hp
      exact ⟨rfl, .empty span⟩
  | phrasePrefix | wordPrefix | fuzzy | wildcard | keyword =>
      cases hplain _ List.mem_cons_self

namespace Shape

/-- The shape that some events make. -/
def ofEvents (events : List Event) : Shape where
  words := ((events.filterMap Event.leaf?).filterMap Node.words?).length
  phrases := ((events.filterMap Event.leaf?).filterMap Node.phrase?).length
  complex := events.any Event.complicates

/-- The shape of what has the one shape first and the other after it. -/
def add (s t : Shape) : Shape :=
  ⟨s.words + t.words, s.phrases + t.phrases, s.complex || t.complex⟩

theorem add_assoc (s t u : Shape) : (s.add t).add u = s.add (t.add u) := by
  simp only [add, Nat.add_assoc, Bool.or_assoc]

theorem ofEvents_append (before after : List Event) :
    ofEvents (before ++ after) = (ofEvents before).add (ofEvents after) := by
  simp only [ofEvents, add, List.filterMap_append, List.length_append, List.any_append]

/-- A visit adds the shape of the one event. -/
theorem visitor_on (s : Shape) (event : Event) :
    visitor.on s event = s.add (ofEvents [event]) := by
  cases event with
  | clause c =>
      have hon : visitor.on s (.clause c) =
          if c.explicit || c.occur == .mustNot then s.complicate else s := rfl
      rw [hon]
      split
      · next hcomplex =>
          simp [complicate, ofEvents, add, Event.complicates, Event.leaf?, hcomplex,
            List.filterMap_cons]
      · next hplain =>
          simp [ofEvents, add, Event.complicates, Event.leaf?, hplain, List.filterMap_cons]
  | node node =>
      cases node <;>
        simp [Visitor.on, visitor, complicate, ofEvents, add, Event.complicates, Event.leaf?,
          Node.words?, Node.phrase?, Bool.or_assoc, List.filterMap_cons]

/-- A walk counts event by event. -/
theorem foldl_on (events : List Event) (s : Shape) :
    events.foldl visitor.on s = s.add (ofEvents events) := by
  induction events generalizing s with
  | nil => simp [ofEvents, add]
  | cons event rest ih =>
      have hcons : ofEvents (event :: rest) = (ofEvents [event]).add (ofEvents rest) :=
        ofEvents_append [event] rest
      rw [List.foldl_cons, ih, visitor_on, add_assoc, hcons]

theorem ofNode_eq (root : Node) :
    ofNode root =
      ⟨root.texts.length, root.phrases.length, root.events.any Event.complicates⟩ := by
  rw [ofNode, walk_eq_foldl, foldl_on]
  simp [add, ofEvents, Node.texts, Node.phrases, Node.leafNodes]

theorem complex_ofNode (root : Node) : (ofNode root).complex = false ↔ root.Plain := by
  rw [ofNode_eq, List.any_eq_false]
  simp only [Bool.not_eq_true, Node.Plain]

section Labels

variable {query : Query}

/-- A query without warnings is labelled by its shape. -/
theorem mem_classify_iff {label : String} :
    label ∈ classify query ↔
      if query.warnings = [] then (ofNode query.root).label? = some label
      else label = "bogus_query" := by
  simp only [classify, List.isEmpty_iff]
  split
  · exact Option.mem_toList
  · exact List.mem_singleton

/-- A label that does not speak of warnings is that of the shape. -/
theorem label?_of_mem_classify {label : String} (hlabel : label ≠ "bogus_query")
    (h : label ∈ classify query) : (ofNode query.root).label? = some label := by
  rw [mem_classify_iff] at h
  split at h
  · exact h
  · exact absurd h hlabel

/-- A bag of words is a plain tree with words and no phrase. -/
theorem plain_of_bagOfWords (h : "simple_bag_of_words" ∈ classify query) :
    query.root.Plain ∧ query.root.texts ≠ [] ∧ query.root.phrases = [] := by
  have hlabel := label?_of_mem_classify (by decide) h
  have hshape : (ofNode query.root).complex = false ∧ 0 < (ofNode query.root).words ∧
      (ofNode query.root).phrases = 0 := by
    grind [label?]
  rwa [complex_ofNode, ofNode_eq, List.length_pos_iff, List.length_eq_zero_iff] at hshape

/-- A simple phrase is a plain tree with one phrase and no words. -/
theorem plain_of_phrase (h : "simple_phrase" ∈ classify query) :
    query.root.Plain ∧ query.root.texts = [] ∧ ∃ text, query.root.phrases = [text] := by
  have hlabel := label?_of_mem_classify (by decide) h
  have hshape : (ofNode query.root).complex = false ∧ (ofNode query.root).words = 0 ∧
      (ofNode query.root).phrases = 1 := by
    grind [label?]
  rwa [complex_ofNode, ofNode_eq, List.length_eq_zero_iff, List.length_eq_one_iff] at hshape

/-- With a phrase, a bag of words is a plain tree that has phrases. -/
theorem plain_of_withPhrase (h : "bag_of_words_with_phrase" ∈ classify query) :
    query.root.Plain ∧ query.root.phrases ≠ [] := by
  have hlabel := label?_of_mem_classify (by decide) h
  have hshape : (ofNode query.root).complex = false ∧ 0 < (ofNode query.root).phrases := by
    grind [label?]
  rwa [complex_ofNode, ofNode_eq, List.length_pos_iff] at hshape

/-- Without warnings, a query is complex when its tree is not plain. -/
theorem classify_of_not_plain (hwarnings : query.warnings = []) (h : ¬ query.root.Plain) :
    classify query = ["complex_query"] := by
  have hcomplex : (ofNode query.root).complex = true := by
    rwa [← complex_ofNode, Bool.not_eq_false] at h
  simp [classify, hwarnings, label?, hcomplex]

end Labels

end Shape

end SearchCompiler
