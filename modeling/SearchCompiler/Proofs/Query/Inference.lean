import SearchCompiler.Proofs.Draft.Recording
import SearchCompiler.Proofs.Node.Containment

/-!
What a query infers from its keywords: how far it reaches and which features it
uses. Both are folds over a walk, but the reach is a meet and the features are a
set, so all that counts is which keywords stand in the tree. What becomes of the
clauses around them, and how often a keyword is written, makes no difference.
-/

namespace SearchCompiler

namespace Reach

/-- What a reach may allow. -/
def flags : List (Reach → Bool) :=
  [crossProject, crossLanguage, extraIndices]

theorem meet_of_mem_flags {allows : Reach → Bool} (h : allows ∈ flags) (a b : Reach) :
    allows (a.meet b) = (allows a && allows b) := by
  simp only [flags, List.mem_cons, List.not_mem_nil, or_false] at h
  rcases h with rfl | rfl | rfl <;> rfl

theorem ext_flags {a b : Reach} (h : ∀ allows ∈ flags, allows a = allows b) : a = b := by
  obtain ⟨hproject, hlanguage, hindices, _⟩ : a.crossProject = b.crossProject ∧
      a.crossLanguage = b.crossLanguage ∧ a.extraIndices = b.extraIndices ∧ True := by
    simpa [flags] using h
  cases a
  cases b
  simp_all

theorem everywhere_of_mem_flags {allows : Reach → Bool} (h : allows ∈ flags) :
    allows everywhere = true := by
  simp only [flags, List.mem_cons, List.not_mem_nil, or_false] at h
  rcases h with rfl | rfl | rfl <;> rfl

theorem covers_iff {a b : Reach} : a.covers b ↔ ∀ allows ∈ flags, allows b → allows a := by
  have hmeet : a.covers b ↔ ∀ allows ∈ flags, allows (a.meet b) = allows b := by
    rw [covers, beq_iff_eq]
    exact ⟨fun heq _ _ => congrArg _ heq, ext_flags⟩
  rw [hmeet]
  refine forall₂_congr fun allows hallows => ?_
  rw [meet_of_mem_flags hallows]
  cases allows a <;> cases allows b <;> simp

/-- A meet of many allows what all of them allow. -/
theorem foldl_meet {α : Type} (reach : α → Reach) {allows : Reach → Bool} (h : allows ∈ flags)
    (xs : List α) (r : Reach) :
    allows (xs.foldl (fun s x => s.meet (reach x)) r) ↔
      allows r ∧ ∀ x ∈ xs, allows (reach x) := by
  induction xs generalizing r with
  | nil => simp
  | cons x rest ih =>
      rw [List.foldl_cons, ih, meet_of_mem_flags h, Bool.and_eq_true, List.forall_mem_cons,
        and_assoc]

end Reach

namespace Node

/-- A keyword stands somewhere in a tree. -/
def Mentions (root : Node) (used : Keyword × Feature) : Prop :=
  root.Has (.keyword used.1 used.2)

section Mentions

variable {used : Keyword × Feature}

theorem mem_keywords {root : Node} : used ∈ root.keywords ↔ root.Mentions used := by
  simp only [keywords, List.mem_filterMap, mem_leafNodes, Mentions]
  constructor
  · rintro ⟨leaf, ⟨hhas, _⟩, hkeyword⟩
    cases leaf with
    | keyword occurrence feature => exact Option.some.inj hkeyword ▸ hhas
    | _ => cases hkeyword
  · intro hhas
    exact ⟨_, ⟨hhas, rfl⟩, rfl⟩

theorem mentions_boolean {span : Span} {clauses : List (Clause Node)} :
    (Node.boolean span clauses).Mentions used ↔ ∃ c ∈ clauses, c.node.Mentions used := by
  simp [Mentions, has_boolean]

theorem mentions_insert {span : Span} {c : Clause Node} {before after : List (Clause Node)} :
    (Node.boolean span (before ++ c :: after)).Mentions used ↔
      c.node.Mentions used ∨ (Node.boolean span (before ++ after)).Mentions used := by
  simp only [mentions_boolean, List.mem_append, List.mem_cons, or_and_right, exists_or,
    exists_eq_left]
  exact or_left_comm

theorem mentions_negated {span : Span} {operator : String} {child : Node} :
    (Node.negated span operator child).Mentions used ↔ child.Mentions used := by
  simp [Mentions, has_negated]

/-- What stands in a part of a tree stands in the tree. -/
theorem Has.trans {root node inner : Node} (h : root.Has node) (hinner : node.Has inner) :
    root.Has inner := by
  obtain ⟨odd, h⟩ := h
  induction h with
  | root => exact hinner
  | clause hc _ ih => exact has_boolean.mpr (.inr ⟨_, hc, ih hinner⟩)
  | negated _ ih => exact has_negated.mpr (.inr (ih hinner))

end Mentions

/-- Changes of what stands around the keywords. -/
inductive Rewrites : Node → Node → Prop
  /-- The clauses of a combination change places. -/
  | permute (span : Span) {clauses others : List (Clause Node)} : clauses.Perm others →
      Rewrites (.boolean span clauses) (.boolean span others)
  /-- A clause takes another operator, typed or not. -/
  | remark (span : Span) (occur other : Occur) (explicit typed : Bool) (node : Node)
      (before after : List (Clause Node)) :
      Rewrites (.boolean span (before ++ ⟨occur, explicit, node⟩ :: after))
        (.boolean span (before ++ ⟨other, typed, node⟩ :: after))
  /-- A node is negated. -/
  | negate (span : Span) (operator : String) (node : Node) :
      Rewrites node (.negated span operator node)
  /-- A node is written several times. -/
  | repeated (span : Span) (node : Node) {clauses : List (Clause Node)} : clauses ≠ [] →
      (∀ c ∈ clauses, c.node = node) → Rewrites node (.boolean span clauses)

/-- A clause joins a combination. -/
inductive Joins (c : Clause Node) : Node → Node → Prop
  | join (span : Span) (before after : List (Clause Node)) :
      Joins c (.boolean span (before ++ after)) (.boolean span (before ++ c :: after))

/-- Changes of a tree that keep its keywords. -/
inductive Recasts : Node → Node → Prop
  /-- Something around the keywords changes. -/
  | rewrite {root other : Node} : root.Somewhere Rewrites other → Recasts root other
  /-- A part of the tree is copied to another place. -/
  | copy {root other : Node} {c : Clause Node} : root.Has c.node →
      root.Somewhere (Joins c) other → Recasts root other

section Changes

variable {used : Keyword × Feature} {node other : Node}

/-- A change at one place has the same effect on the whole tree. -/
theorem mentions_of_somewhere {change : Node → Node → Prop} {added : Prop}
    (hchange : ∀ node other, change node other → (other.Mentions used ↔ added ∨ node.Mentions used))
    (h : node.Somewhere change other) : other.Mentions used ↔ added ∨ node.Mentions used := by
  induction h with
  | here h => exact hchange _ _ h
  | clause span occur explicit before after _ ih =>
      rw [mentions_insert, mentions_insert, ih, or_assoc]
  | negated span operator _ ih => rw [mentions_negated, mentions_negated, ih]

theorem mentions_of_rewrites (h : Rewrites node other) :
    other.Mentions used ↔ node.Mentions used := by
  cases h with
  | permute span hperm => simp only [mentions_boolean, hperm.mem_iff]
  | remark => rw [mentions_insert, mentions_insert]
  | negate span operator => exact mentions_negated
  | repeated span node hsome hsame =>
      obtain ⟨c, hc⟩ := List.exists_mem_of_ne_nil _ hsome
      rw [mentions_boolean]
      constructor
      · rintro ⟨d, hd, hmentions⟩
        exact hsame d hd ▸ hmentions
      · intro hmentions
        exact ⟨c, hc, (hsame c hc).symm ▸ hmentions⟩

theorem mentions_of_joins {c : Clause Node} (h : Joins c node other) :
    other.Mentions used ↔ c.node.Mentions used ∨ node.Mentions used := by
  cases h with
  | join => exact mentions_insert

theorem mentions_of_recasts (h : Recasts node other) :
    other.Mentions used ↔ node.Mentions used := by
  cases h with
  | rewrite h =>
      have hstep (node other : Node) (hrewrites : Rewrites node other) :
          other.Mentions used ↔ False ∨ node.Mentions used := by
        rw [false_or, mentions_of_rewrites hrewrites]
      rw [mentions_of_somewhere hstep h, false_or]
  | copy hhas h =>
      rw [mentions_of_somewhere (fun _ _ => mentions_of_joins) h]
      exact or_iff_right_of_imp hhas.trans

end Changes

end Node

namespace Query

variable {query other : Query}

theorem reach_eq_foldl (query : Query) :
    query.reach = query.root.keywords.foldl (fun s used => s.meet (used.2.reach used.1))
      .everywhere :=
  Node.walk_keyword ..

/-- A query allows what all of its keywords allow. -/
theorem allows_reach {allows : Reach → Bool} (h : allows ∈ Reach.flags) :
    allows query.reach ↔ ∀ used, query.root.Mentions used → allows (used.2.reach used.1) := by
  rw [reach_eq_foldl, Reach.foldl_meet _ h]
  simp only [Reach.everywhere_of_mem_flags h, true_and, Node.mem_keywords]

theorem mem_features_iff_mentions {name : String} :
    name ∈ query.features.elements ↔
      ∃ used, query.root.Mentions used ∧ used.2.nameOf used.1 = name := by
  simp only [mem_features, Node.mem_keywords]

/-- With more keywords, a query reaches less far. -/
theorem covers_of_mentions (h : ∀ used, query.root.Mentions used → other.root.Mentions used) :
    query.reach.covers other.reach := by
  rw [Reach.covers_iff]
  intro allows hallows hother
  rw [allows_reach hallows] at hother ⊢
  exact fun used hused => hother used (h used hused)

/-- Queries with the same keywords agree on what they infer. -/
theorem infers_of_mentions (h : ∀ used, other.root.Mentions used ↔ query.root.Mentions used) :
    other.reach = query.reach ∧ other.features = query.features := by
  constructor
  · refine Reach.ext_flags fun allows hallows => ?_
    rw [Bool.eq_iff_iff, allows_reach hallows, allows_reach hallows]
    simp only [h]
  · refine SortedSet.ext_mem fun name => ?_
    simp only [mem_features_iff_mentions, h]

/-- What a query infers is the exact meet and union over the keywords that stand in
its tree, at whatever depth and under whatever clauses and negations. A clause more,
anywhere, makes the reach no wider and the features no fewer; and no series of changes
around the keywords, of copies, and of their reversals changes either. -/
theorem infers_from_keywords (query : Query) :
    (∀ allows ∈ Reach.flags,
      (allows query.reach ↔ ∀ used, query.root.Mentions used → allows (used.2.reach used.1))) ∧
    ((∀ used, ¬ query.root.Mentions used) → query.reach = .everywhere) ∧
    (∀ name, name ∈ query.features.elements ↔
      ∃ used, query.root.Mentions used ∧ used.2.nameOf used.1 = name) ∧
    (∀ (other : Query) (c : Clause Node), query.root.Somewhere (Node.Joins c) other.root →
      query.reach.covers other.reach ∧
        ∀ name ∈ query.features.elements, name ∈ other.features.elements) ∧
    ∀ other : Query, Relation.EqvGen Node.Recasts query.root other.root →
      other.reach = query.reach ∧ other.features = query.features := by
  refine ⟨fun allows hallows => allows_reach hallows, ?_, fun _ => mem_features_iff_mentions,
    ?_, ?_⟩
  · intro hnone
    refine Reach.ext_flags fun allows hallows => ?_
    rw [Reach.everywhere_of_mem_flags hallows, allows_reach hallows]
    exact fun used hused => absurd hused (hnone used)
  · intro other c hjoins
    have hmore (used : Keyword × Feature) (hused : query.root.Mentions used) :
        other.root.Mentions used :=
      (Node.mentions_of_somewhere (fun _ _ => Node.mentions_of_joins) hjoins).mpr (.inr hused)
    refine ⟨covers_of_mentions hmore, fun name hname => ?_⟩
    obtain ⟨used, hused, hnameOf⟩ := mem_features_iff_mentions.mp hname
    exact mem_features_iff_mentions.mpr ⟨used, hmore used hused, hnameOf⟩
  · intro other hroot
    refine infers_of_mentions fun used => ?_
    have hsame := eq_of_eqvGen (Node.Mentions · used)
      (fun _ _ hrecasts => propext (Node.mentions_of_recasts hrecasts)) hroot
    exact iff_of_eq hsame

/-- A keyword that lets a search reach other languages, excluded in two ways and
then written again. -/
theorem infers_from_keywords_otherLanguages :
    let keyword : Node :=
      .keyword (Draft.boost 5 "old") { reach := fun _ => ⟨false, true, false⟩ }
    let words : Clause Node := ⟨.should, false, .words ⟨0, 3⟩ "red"⟩
    let query := Query.typed (.boolean ⟨0, 14⟩ [words, ⟨.mustNot, true, keyword⟩]) "red -boost:old"
    let other := Query.typed
      (.boolean ⟨0, 14⟩ [words, ⟨.must, false, .negated ⟨4, 14⟩ "-" keyword⟩,
        ⟨.should, false, keyword⟩]) "red -boost:old boost:old"
    Relation.EqvGen Node.Recasts query.root other.root ∧
      query.reach = ⟨false, true, false⟩ ∧ other.reach = query.reach ∧
      "boost" ∈ query.features.elements ∧ other.features = query.features := by
  intro keyword words query other
  let required := Node.boolean ⟨0, 14⟩ [words, ⟨.must, false, keyword⟩]
  let negation : Clause Node := ⟨.must, false, .negated ⟨4, 14⟩ "-" keyword⟩
  let negated := Node.boolean ⟨0, 14⟩ [words, negation]
  have hremark : Node.Recasts query.root required :=
    .rewrite (.here (.remark ⟨0, 14⟩ .mustNot .must true false keyword [words] []))
  have hnegate : Node.Recasts required negated :=
    .rewrite (.clause ⟨0, 14⟩ .must false [words] [] (.here (.negate ⟨4, 14⟩ "-" keyword)))
  have hhas : negated.Mentions (_, _) :=
    Node.mentions_boolean.mpr
      ⟨negation, .tail _ (.head _), Node.mentions_negated.mpr ⟨false, .root keyword⟩⟩
  have hcopy : Node.Recasts negated other.root :=
    .copy (c := ⟨.should, false, keyword⟩) hhas (.here (.join ⟨0, 14⟩ [words, negation] []))
  have hroot : Relation.EqvGen Node.Recasts query.root other.root :=
    .trans _ _ _ (.rel _ _ hremark) (.trans _ _ _ (.rel _ _ hnegate) (.rel _ _ hcopy))
  obtain ⟨_, _, hfeatures, _, hsame⟩ := infers_from_keywords query
  obtain ⟨hreach, hfeaturesSame⟩ := hsame other hroot
  refine ⟨hroot, rfl, hreach, ?_, hfeaturesSame⟩
  exact (hfeatures "boost").mpr ⟨(_, _), Node.mentions_boolean.mpr
    ⟨_, .tail _ (.head _), false, .root keyword⟩, rfl⟩

end Query

end SearchCompiler
