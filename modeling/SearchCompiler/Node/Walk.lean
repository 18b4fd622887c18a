import SearchCompiler.Node.Basic

/-!
Walks over query trees. A visitor has one hook for each kind of node and one
for clauses; a walk calls the hook of a node before it goes on to the children,
and the hook of a clause before it goes on to the clause's node. The events of
a tree are the calls of a walk written out as a list.
-/

namespace SearchCompiler

/-- What a walk does at each node and clause; hooks that are not given do
nothing. -/
structure Visitor (σ : Type) where
  boolean : Span → List (Clause Node) → σ → σ := fun _ _ s => s
  clause : Clause Node → σ → σ := fun _ s => s
  words : Span → String → σ → σ := fun _ _ s => s
  phrase : Span → String → Option UInt32 → Bool → σ → σ := fun _ _ _ _ s => s
  phrasePrefix : Span → String → σ → σ := fun _ _ s => s
  wordPrefix : Span → String → σ → σ := fun _ _ s => s
  fuzzy : Span → String → Option UInt8 → σ → σ := fun _ _ _ s => s
  wildcard : Span → String → σ → σ := fun _ _ s => s
  negated : Span → String → Node → σ → σ := fun _ _ _ s => s
  empty : Span → σ → σ := fun _ s => s
  keyword : Keyword → Feature → σ → σ := fun _ _ s => s

mutual

/-- The state of a visitor after a walk over a tree. -/
def Node.walk {σ : Type} (visitor : Visitor σ) : Node → σ → σ
  | .boolean span clauses, s => walkClauses visitor clauses (visitor.boolean span clauses s)
  | .words span text, s => visitor.words span text s
  | .phrase span text slop stem, s => visitor.phrase span text slop stem s
  | .phrasePrefix span text, s => visitor.phrasePrefix span text s
  | .wordPrefix span text, s => visitor.wordPrefix span text s
  | .fuzzy span text distance, s => visitor.fuzzy span text distance s
  | .wildcard span text, s => visitor.wildcard span text s
  | .negated span operator child, s => child.walk visitor (visitor.negated span operator child s)
  | .empty span, s => visitor.empty span s
  | .keyword occurrence feature, s => visitor.keyword occurrence feature s

def walkClauses {σ : Type} (visitor : Visitor σ) : List (Clause Node) → σ → σ
  | [], s => s
  | ⟨occur, explicit, node⟩ :: rest, s =>
      walkClauses visitor rest (node.walk visitor (visitor.clause ⟨occur, explicit, node⟩ s))

end

/-- A call of a hook: of the one for a node's kind, or of the one for clauses. -/
inductive Event where
  | node (node : Node)
  | clause (clause : Clause Node)

/-- What a visitor does on an event. -/
def Visitor.on {σ : Type} (visitor : Visitor σ) (s : σ) : Event → σ
  | .clause clause => visitor.clause clause s
  | .node (.boolean span clauses) => visitor.boolean span clauses s
  | .node (.words span text) => visitor.words span text s
  | .node (.phrase span text slop stem) => visitor.phrase span text slop stem s
  | .node (.phrasePrefix span text) => visitor.phrasePrefix span text s
  | .node (.wordPrefix span text) => visitor.wordPrefix span text s
  | .node (.fuzzy span text distance) => visitor.fuzzy span text distance s
  | .node (.wildcard span text) => visitor.wildcard span text s
  | .node (.negated span operator child) => visitor.negated span operator child s
  | .node (.empty span) => visitor.empty span s
  | .node (.keyword occurrence feature) => visitor.keyword occurrence feature s

mutual

/-- The events of a tree: those of a node before those of its children, and
these in the order of the text. -/
def Node.events : Node → List Event
  | .boolean span clauses => .node (.boolean span clauses) :: eventsOfClauses clauses
  | .negated span operator child => .node (.negated span operator child) :: child.events
  | .words span text => [.node (.words span text)]
  | .phrase span text slop stem => [.node (.phrase span text slop stem)]
  | .phrasePrefix span text => [.node (.phrasePrefix span text)]
  | .wordPrefix span text => [.node (.wordPrefix span text)]
  | .fuzzy span text distance => [.node (.fuzzy span text distance)]
  | .wildcard span text => [.node (.wildcard span text)]
  | .empty span => [.node (.empty span)]
  | .keyword occurrence feature => [.node (.keyword occurrence feature)]

def eventsOfClauses : List (Clause Node) → List Event
  | [] => []
  | ⟨occur, explicit, node⟩ :: rest =>
      .clause ⟨occur, explicit, node⟩ :: (node.events ++ eventsOfClauses rest)

end

end SearchCompiler
