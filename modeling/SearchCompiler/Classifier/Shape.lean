import SearchCompiler.Classifier.Registry

/-!
The built-in classifier, which sorts queries by their shape. A query with
warnings is bogus. Of the others, a query is complex when an operator was
typed somewhere, or something is excluded, or a leaf is anything but plain
words or a plain phrase; the rest are told apart by their words and phrases.
-/

namespace SearchCompiler

structure Shape where
  words : Nat
  phrases : Nat
  complex : Bool
deriving DecidableEq, Repr

namespace Shape

def complicate (s : Shape) : Shape :=
  { s with complex := true }

def visitor : Visitor Shape where
  clause := fun clause s =>
    if clause.explicit || clause.occur == .mustNot then s.complicate else s
  words := fun _ _ s => { s with words := s.words + 1 }
  phrase := fun _ _ slop stem s =>
    { s with phrases := s.phrases + 1, complex := s.complex || slop.isSome || stem }
  phrasePrefix := fun _ _ s => s.complicate
  wordPrefix := fun _ _ s => s.complicate
  fuzzy := fun _ _ _ s => s.complicate
  wildcard := fun _ _ s => s.complicate
  negated := fun _ _ _ s => s.complicate
  keyword := fun _ _ s => s.complicate

def ofNode (root : Node) : Shape :=
  root.walk visitor ⟨0, 0, false⟩

/-- The label of a shape; a query without words and phrases has none. -/
def label? (s : Shape) : Option String :=
  if s.complex then some "complex_query"
  else if 0 < s.words ∧ 0 < s.phrases then some "bag_of_words_with_phrase"
  else if 0 < s.words then some "simple_bag_of_words"
  else if s.phrases = 1 then some "simple_phrase"
  else if 1 < s.phrases then some "bag_of_words_with_phrase"
  else none

/-- The labels that apply to a query, at most one. -/
def classify (query : Query) : List String :=
  if query.warnings.isEmpty then (ofNode query.root).label?.toList else ["bogus_query"]

def classifier : Classifier where
  labels := ["simple_bag_of_words", "simple_phrase", "bag_of_words_with_phrase",
    "complex_query", "bogus_query"]
  judge := fun query => .assert (classify query)

end Shape

/-- The registry of the built-in classifier alone. -/
def Registry.standard : Registry :=
  ⟨(Roster.register {} Shape.classifier).2, Roster.agrees_empty.register Shape.classifier⟩

end SearchCompiler
