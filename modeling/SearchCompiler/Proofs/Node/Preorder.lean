import SearchCompiler.Proofs.Node.Events

/-!
The order of a walk. Every node and every clause of a tree has an address: the numbers of
the parts to go into on the way down from the root. Addresses are compared from the front,
so one comes before all those below it, and these before the ones below the next part. A
walk goes through the addresses of a tree in ascending order. So it comes to each of them
once, to what stands above before what stands below, and to the parts of a node in the
order of the text. A visitor without some of the hooks goes through the rest of the calls.
-/

namespace SearchCompiler

/-- The hooks of a visitor, each of which is called on one kind of event. -/
inductive Hook where
  | boolean
  | clause
  | words
  | phrase
  | phrasePrefix
  | wordPrefix
  | fuzzy
  | wildcard
  | negated
  | empty
  | keyword
deriving DecidableEq, Repr

/-- The visitor that has some of the hooks of another one and does nothing elsewhere. -/
def Visitor.only {σ : Type} (hooks : Hook → Bool) (visitor : Visitor σ) : Visitor σ where
  boolean span clauses s := if hooks .boolean then visitor.boolean span clauses s else s
  clause c s := if hooks .clause then visitor.clause c s else s
  words span text s := if hooks .words then visitor.words span text s else s
  phrase span text slop stem s :=
    if hooks .phrase then visitor.phrase span text slop stem s else s
  phrasePrefix span text s := if hooks .phrasePrefix then visitor.phrasePrefix span text s else s
  wordPrefix span text s := if hooks .wordPrefix then visitor.wordPrefix span text s else s
  fuzzy span text distance s := if hooks .fuzzy then visitor.fuzzy span text distance s else s
  wildcard span text s := if hooks .wildcard then visitor.wildcard span text s else s
  negated span operator child s :=
    if hooks .negated then visitor.negated span operator child s else s
  empty span s := if hooks .empty then visitor.empty span s else s
  keyword occurrence feature s :=
    if hooks .keyword then visitor.keyword occurrence feature s else s

namespace Event

/-- The hook that is called. -/
def hook : Event → Hook
  | .clause _ => .clause
  | .node (.boolean ..) => .boolean
  | .node (.words ..) => .words
  | .node (.phrase ..) => .phrase
  | .node (.phrasePrefix ..) => .phrasePrefix
  | .node (.wordPrefix ..) => .wordPrefix
  | .node (.fuzzy ..) => .fuzzy
  | .node (.wildcard ..) => .wildcard
  | .node (.negated ..) => .negated
  | .node (.empty _) => .empty
  | .node (.keyword ..) => .keyword

/-- What stands right below, in the order of the text. -/
def parts : Event → List Event
  | .node (.boolean _ clauses) => clauses.map .clause
  | .node (.negated _ _ child) => [.node child]
  | .clause c => [.node c.node]
  | .node _ => []

/-- What stands at an address, if anything stands there. -/
def at? (e : Event) : List Nat → Option Event
  | [] => some e
  | i :: rest => e.parts[i]?.bind (·.at? rest)

end Event

theorem Visitor.on_only {σ : Type} (hooks : Hook → Bool) (visitor : Visitor σ) (s : σ)
    (e : Event) :
    (visitor.only hooks).on s e = if hooks e.hook then visitor.on s e else s := by
  cases e with
  | clause c => rfl
  | node node => cases node <;> rfl

/-- A call of a hook, with the address of what it is about. -/
structure Visit where
  address : List Nat
  event : Event

/-- The same call, seen from a place higher up. -/
def Visit.below (way : List Nat) (visit : Visit) : Visit :=
  { visit with address := way ++ visit.address }

mutual

/-- The calls of a walk over a tree. -/
def Node.visits : Node → List Visit
  | .boolean span clauses => ⟨[], .node (.boolean span clauses)⟩ :: visitsOfClauses 0 clauses
  | .negated span operator child =>
      ⟨[], .node (.negated span operator child)⟩ :: child.visits.map (Visit.below [0])
  | leaf => [⟨[], .node leaf⟩]

/-- Those of clauses of which the first has the given number. -/
def visitsOfClauses (i : Nat) : List (Clause Node) → List Visit
  | [] => []
  | ⟨occur, explicit, node⟩ :: rest =>
      ⟨[i], .clause ⟨occur, explicit, node⟩⟩ ::
        (node.visits.map (Visit.below [i, 0]) ++ visitsOfClauses (i + 1) rest)

end

/-- The calls of a walk over the clause with a number. -/
def Clause.visits (c : Clause Node) (i : Nat) : List Visit :=
  ⟨[i], .clause c⟩ :: c.node.visits.map (Visit.below [i, 0])

theorem visitsOfClauses_eq_flatMap (i : Nat) (clauses : List (Clause Node)) :
    visitsOfClauses i clauses = (clauses.zipIdx i).flatMap fun c => c.1.visits c.2 := by
  induction clauses generalizing i with
  | nil => rfl
  | cons c rest ih =>
      rw [visitsOfClauses, ih, List.zipIdx_cons, List.flatMap_cons, Clause.visits,
        List.cons_append]

namespace Visit

theorem map_event_below (way : List Nat) (visits : List Visit) :
    (visits.map (below way)).map event = visits.map event := by
  rw [List.map_map]
  rfl

theorem mem_map_below {way address : List Nat} {e : Event} {visits : List Visit} :
    ⟨address, e⟩ ∈ visits.map (below way) ↔
      ∃ rest, address = way ++ rest ∧ ⟨rest, e⟩ ∈ visits := by
  rw [List.mem_map]
  constructor
  · rintro ⟨⟨rest, e⟩, hvisit, heq⟩
    obtain ⟨rfl, rfl⟩ := Visit.mk.inj heq
    exact ⟨rest, rfl, hvisit⟩
  · rintro ⟨rest, rfl, hvisit⟩
    exact ⟨⟨rest, e⟩, hvisit, rfl⟩

/-- Addresses below one place compare as they do from there. -/
theorem below_ascending (way : List Nat) {visits : List Visit}
    (h : visits.Pairwise fun a b => a.address < b.address) :
    (visits.map (below way)).Pairwise fun a b => a.address < b.address := by
  refine List.pairwise_map.mpr (h.imp fun {a b} hlt => ?_)
  change way ++ a.address < way ++ b.address
  induction way with
  | nil => exact hlt
  | cons i way ih => exact List.cons_lt_cons_iff.mpr (.inr ⟨rfl, ih⟩)

end Visit

/-- No address comes before one above it, and none before itself. -/
theorem not_isPrefix_of_lt {earlier later : List Nat} (h : earlier < later) :
    ¬ later <+: earlier := by
  rintro ⟨rest, rfl⟩
  induction later with
  | nil => exact List.not_lt_nil _ h
  | cons i later ih =>
      rcases List.cons_lt_cons_iff.mp h with hlt | ⟨_, hlt⟩
      · exact Nat.lt_irrefl i hlt
      · exact ih hlt

theorem mem_visits_clause {c : Clause Node} {i : Nat} {address : List Nat} {e : Event}
    (ih : ∀ address, ⟨address, e⟩ ∈ c.node.visits ↔ (Event.node c.node).at? address = some e) :
    ⟨address, e⟩ ∈ c.visits i ↔
      ∃ rest, address = i :: rest ∧ (Event.clause c).at? rest = some e := by
  rw [Clause.visits, List.mem_cons, Visit.mem_map_below]
  constructor
  · rintro (heq | ⟨rest, rfl, hvisit⟩)
    · obtain ⟨rfl, rfl⟩ := Visit.mk.inj heq
      exact ⟨[], rfl, rfl⟩
    · exact ⟨0 :: rest, rfl, (ih rest).mp hvisit⟩
  · rintro ⟨rest, rfl, hat⟩
    match rest, hat with
    | [], hat => exact .inl (by rw [← Option.some.inj hat])
    | 0 :: rest, hat => exact .inr ⟨rest, rfl, (ih rest).mpr hat⟩

theorem visits_clause_ascending {c : Clause Node} (i : Nat)
    (ih : c.node.visits.Pairwise fun a b => a.address < b.address) :
    (c.visits i).Pairwise fun a b => a.address < b.address := by
  refine List.pairwise_cons.mpr ⟨fun visit hvisit => ?_, Visit.below_ascending _ ih⟩
  obtain ⟨inner, _, rfl⟩ := List.mem_map.mp hvisit
  exact List.cons_lt_cons_iff.mpr (.inr ⟨rfl, List.nil_lt_cons _ _⟩)

/-- All addresses in a clause begin with its number. -/
theorem address_of_mem_visits {c : Clause Node} {i : Nat} {visit : Visit}
    (h : visit ∈ c.visits i) : ∃ rest, visit.address = i :: rest := by
  rcases List.mem_cons.mp h with rfl | h
  · exact ⟨[], rfl⟩
  · obtain ⟨inner, _, rfl⟩ := List.mem_map.mp h
    exact ⟨0 :: inner.address, rfl⟩

namespace Node

/-- Without their addresses the calls are the events of the tree. -/
theorem map_event_visits (root : Node) : root.visits.map Visit.event = root.events := by
  induction root using Node.induction with
  | boolean span clauses ih =>
      have hclause : ∀ c ∈ clauses.zipIdx,
          (c.1.visits c.2).map Visit.event = .clause c.1 :: c.1.node.events := by
        intro c hc
        have hmem : c.1 ∈ clauses := List.mem_of_getElem? (List.mem_zipIdx_iff_getElem?.mp hc)
        rw [Clause.visits, List.map_cons, Visit.map_event_below, ih c.1 hmem]
      have hclauses : (visitsOfClauses 0 clauses).map Visit.event =
          clauses.flatMap fun c => .clause c :: c.node.events := by
        rw [visitsOfClauses_eq_flatMap, List.map_flatMap, List.flatMap_congr hclause,
          ← List.flatMap_map Prod.fst fun c : Clause Node => .clause c :: c.node.events,
          List.zipIdx_map_fst]
      rw [visits, events, List.map_cons, hclauses, eventsOfClauses_eq_flatMap]
  | negated span operator child ih => rw [visits, events, List.map_cons, Visit.map_event_below, ih]
  | words | phrase | phrasePrefix | wordPrefix | fuzzy | wildcard | empty | keyword => rfl

/-- Calls are made for what stands at the addresses of the tree, and for nothing else. -/
theorem mem_visits_iff {root : Node} {address : List Nat} {e : Event} :
    ⟨address, e⟩ ∈ root.visits ↔ (Event.node root).at? address = some e := by
  induction root using Node.induction generalizing address with
  | boolean span clauses ih =>
      have hclause {i : Nat} {c : Clause Node} (hc : clauses[i]? = some c) {address : List Nat} :
          ⟨address, e⟩ ∈ c.visits i ↔
            ∃ rest, address = i :: rest ∧ (Event.clause c).at? rest = some e :=
        mem_visits_clause fun _ => ih c (List.mem_of_getElem? hc)
      rw [visits, visitsOfClauses_eq_flatMap, List.mem_cons, List.mem_flatMap]
      cases address with
      | nil =>
          constructor
          · rintro (heq | ⟨c, _, hvisit⟩)
            · exact congrArg some (Visit.mk.inj heq).2.symm
            · obtain ⟨_, hrest⟩ := address_of_mem_visits hvisit
              cases hrest
          · intro hat
            exact .inl (by rw [← Option.some.inj hat])
      | cons i rest =>
          simp only [Event.at?, Event.parts, List.getElem?_map, Option.bind_map,
            Option.bind_eq_some_iff, Visit.mk.injEq, reduceCtorEq, false_and, false_or, Prod.exists,
            List.mk_mem_zipIdx_iff_getElem?, Function.comp_apply]
          constructor
          · rintro ⟨c, j, hc, hvisit⟩
            obtain ⟨rest, heq, hat⟩ := (hclause hc).mp hvisit
            obtain ⟨rfl, rfl⟩ := List.cons.inj heq
            exact ⟨c, hc, hat⟩
          · rintro ⟨c, hc, hat⟩
            exact ⟨c, i, hc, (hclause hc).mpr ⟨rest, rfl, hat⟩⟩
  | negated span operator child ih =>
      rw [visits, List.mem_cons, Visit.mem_map_below]
      match address with
      | [] => simp [Event.at?, eq_comm (a := e)]
      | 0 :: rest => simp [Event.at?, Event.parts, ih]
      | (_ + 1) :: _ => simp [Event.at?, Event.parts]
  | words | phrase | phrasePrefix | wordPrefix | fuzzy | wildcard | empty | keyword =>
      cases address <;> simp [visits, Event.at?, Event.parts, eq_comm (a := e)]

/-- The addresses of the calls ascend. -/
theorem visits_ascending (root : Node) :
    root.visits.Pairwise fun a b => a.address < b.address := by
  induction root using Node.induction with
  | boolean span clauses ih =>
      rw [visits, visitsOfClauses_eq_flatMap, List.pairwise_cons, List.pairwise_flatMap]
      refine ⟨?_, ?_, ?_⟩
      · intro visit hvisit
        obtain ⟨c, _, hc⟩ := List.mem_flatMap.mp hvisit
        obtain ⟨rest, hrest⟩ := address_of_mem_visits hc
        rw [hrest]
        exact List.nil_lt_cons _ _
      · intro c hc
        exact visits_clause_ascending c.2
          (ih c.1 (List.mem_of_getElem? (List.mem_zipIdx_iff_getElem?.mp hc)))
      -- Two clauses compare by their numbers, with which all addresses in them begin.
      · have hnumbers : clauses.zipIdx.Pairwise fun a b => a.2 < b.2 := by
          rw [← List.pairwise_map, List.zipIdx_map_snd]
          exact List.pairwise_lt_range' 1
        refine hnumbers.imp fun hlt a ha b hb => ?_
        obtain ⟨_, ha⟩ := address_of_mem_visits ha
        obtain ⟨_, hb⟩ := address_of_mem_visits hb
        rw [ha, hb]
        exact List.cons_lt_cons_iff.mpr (.inl hlt)
  | negated span operator child ih =>
      refine List.pairwise_cons.mpr ⟨fun visit hvisit => ?_, Visit.below_ascending _ ih⟩
      obtain ⟨inner, _, rfl⟩ := List.mem_map.mp hvisit
      exact List.nil_lt_cons _ _
  | words | phrase | phrasePrefix | wordPrefix | fuzzy | wildcard | empty | keyword =>
      exact List.pairwise_singleton _ _

/-- A visitor with only some hooks sees the events that these are called on. -/
theorem walk_only {σ : Type} (hooks : Hook → Bool) (visitor : Visitor σ) (root : Node) (s : σ) :
    root.walk (visitor.only hooks) s =
      (root.events.filter fun e => hooks e.hook).foldl visitor.on s := by
  have hon : (visitor.only hooks).on = fun s e => if hooks e.hook then visitor.on s e else s :=
    funext₂ (Visitor.on_only hooks visitor)
  rw [walk_eq_foldl, hon, List.foldl_filter]

/-- A walk goes through the events of a tree from left to right, whatever the visitor
does. They are flattened in pre-order: a combination comes first and then, clause by
clause in the order of the text, the clause and all the events of its node; a negation
comes before the events of its child; any other node is one event. So each node and each
clause of the tree is visited once, at its address and in the order of the addresses, and
nothing is visited after what stands below it. A visitor with only some hooks sees those
events in this order that these hooks are called on. -/
theorem walk_in_preorder (root : Node) :
    (root.events = .node root ::
      match root with
      | .boolean _ clauses => clauses.flatMap fun c => .clause c :: c.node.events
      | .negated _ _ child => child.events
      | _ => []) ∧
    (∀ (σ : Type) (visitor : Visitor σ) (s : σ),
      root.walk visitor s = root.events.foldl visitor.on s) ∧
    (root.visits.map Visit.event = root.events ∧
      (∀ address e, ⟨address, e⟩ ∈ root.visits ↔ (Event.node root).at? address = some e) ∧
      root.visits.Pairwise fun earlier later =>
        earlier.address < later.address ∧ ¬ later.address <+: earlier.address) ∧
    ∀ (σ : Type) (hooks : Hook → Bool) (visitor : Visitor σ) (s : σ),
      root.walk (visitor.only hooks) s =
        (root.events.filter fun e => hooks e.hook).foldl visitor.on s := by
  refine ⟨?_, fun _ visitor s => walk_eq_foldl visitor root s,
    ⟨root.map_event_visits, fun _ _ => mem_visits_iff, ?_⟩,
    fun _ hooks visitor s => walk_only hooks visitor root s⟩
  · cases root with
    | boolean span clauses => exact congrArg _ (eventsOfClauses_eq_flatMap clauses)
    | _ => rfl
  · exact root.visits_ascending.imp fun hlt => ⟨hlt, not_isPrefix_of_lt hlt⟩

/-- The places of `red -bud`: first the whole, then each clause before its node. -/
example :
    (boolean ⟨0, 8⟩ [⟨.must, false, .words ⟨0, 3⟩ "red"⟩,
      ⟨.must, true, .negated ⟨4, 8⟩ "-" (.words ⟨5, 8⟩ "bud")⟩]).visits.map Visit.address =
        [[], [0], [0, 0], [1], [1, 0], [1, 0, 0]] := by
  rfl

end Node

end SearchCompiler
