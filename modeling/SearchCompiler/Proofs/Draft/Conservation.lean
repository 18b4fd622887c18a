import SearchCompiler.Proofs.Draft.Merge
import SearchCompiler.Proofs.Node.NormalForm
import SearchCompiler.Proofs.Node.Yields

/-!
Conservation of text. Each leaf that searches for text is found again in the main
query, once and under as many exclusions modulo two, except for the phrase
prefixes that are taken out of the tree; nothing else is in there. What leaves the
tree leaves no hole behind: combinations that come to nothing are gone, and so is
the main query when they all do.
-/

namespace SearchCompiler

/-- The expression that a leaf searches for its text with. -/
def Node.text? (settings : Settings) : Node → Option Expr
  | .words _ text => some (.matchText settings.allField text .and)
  | .phrase _ text slop stem =>
      some (.phrase (if stem then settings.allField else settings.allField ++ ".plain") text
        (slop.getD 0))
  | .phrasePrefix _ text => some (.phrasePrefix settings.titleField text)
  | .wordPrefix _ text => some (.termPrefix settings.allField text)
  | .fuzzy _ text distance => some (.fuzzy settings.allField text distance)
  | .wildcard _ text => some (.wildcard settings.allField text)
  | _ => none

namespace Spot

/-- Whether the leaf is taken out of the tree. -/
def isLifted (spot : Spot) : Bool :=
  spot.required && spot.leaf.phrasePrefix?.isSome

/-- The text that a leaf leaves in the tree, and whether it stands under an odd
number of exclusions. -/
def text? (settings : Settings) (spot : Spot) : Option (Bool × Expr) :=
  if spot.isLifted then none else (spot.leaf.text? settings).map (spot.odd, ·)

/-- What the leaf is compiled to is the text that it leaves. -/
theorem map_compile {spot : Spot} (settings : Settings) (hleaf : spot.leaf.isLeaf) :
    (spot.leaf.compile settings spot.odd spot.required).1.map (spot.odd, ·) =
      spot.text? settings := by
  obtain ⟨way, leaf⟩ := spot
  cases leaf with
  | boolean | negated => cases hleaf
  | phrasePrefix span text =>
      cases hrequired : Spot.required ⟨way, .phrasePrefix span text⟩ with
      | false => simp [Node.compile, text?, isLifted, hrequired, Node.text?]
      | true =>
          have hodd := odd_of_required hrequired
          simp [Node.compile, text?, isLifted, hrequired, hodd, Node.phrasePrefix?]
  | _ => simp [Node.compile, text?, isLifted, Node.phrasePrefix?, Node.text?, Expr.allTerms]

end Spot

namespace Node

variable (settings : Settings) (root : Node)

/-- The leaves of a compiled tree are the texts that the leaves of the tree leave
in it. -/
theorem literals_root :
    ((root.compile settings false true).1.toList.flatMap (Expr.literals false)).Perm
      (root.spots.filterMap (Spot.text? settings)) := by
  have hspots : (root.leaves false true).flatMap
        (fun p => (p.compile settings).1.toList.map (p.odd, ·)) =
      root.spots.filterMap (Spot.text? settings) := by
    rw [root.leaves_eq_map_spots, List.flatMap_map, List.filterMap_eq_flatMap_toList]
    refine List.flatMap_congr fun spot hspot => ?_
    rw [← spot.map_compile settings (root.isLeaf_of_mem_spots spot hspot), Option.toList_map,
      Spot.compile_placed, Spot.placed, Bool.false_xor]
  rw [← hspots]
  exact literals_compile false settings root true

theorem compile_root_eq_none_iff :
    (root.compile settings false true).1 = none ↔
      ∀ spot ∈ root.spots, spot.text? settings = none := by
  rw [compile_eq_none_iff, root.leaves_eq_map_spots, List.forall_mem_map]
  refine forall₂_congr fun spot hspot => ?_
  rw [← spot.map_compile settings (root.isLeaf_of_mem_spots spot hspot), Option.map_eq_none_iff,
    Spot.compile_placed]

end Node

namespace Draft

/-- After a build into a fresh draft, the leaves of the main query, each with the
parity of the exclusions above it, are the texts of the tree, each with the parity
of the exclusions above its leaf: as often, and no others. The phrase prefixes
that are taken out are not among them. There is no main query exactly when there
is no such text, and it is made of leaves and tidy combinations alone. -/
theorem build_keeps_text (settings : Settings) (profiles : ProfileService) (query : Query)
    (logged : Bool) (draft : Draft)
    (hbuild : (fresh settings profiles).build query logged = .ok draft) :
    (draft.mainQuery.toList.flatMap (Expr.literals false)).Perm
        (query.root.spots.filterMap (Spot.text? settings)) ∧
      (draft.mainQuery = none ↔ ∀ spot ∈ query.root.spots, spot.text? settings = none) ∧
      ∀ main, draft.mainQuery = some main → main.Normal := by
  obtain rfl := eq_absorb_of_build hbuild
  rw [absorb_fresh]
  exact ⟨query.root.literals_root settings, query.root.compile_root_eq_none_iff settings,
    fun main h => query.root.normal_compile main h⟩

/-- A group that comes to nothing, one that comes to its only word once a phrase
prefix is taken out, a word excluded once and one excluded twice. -/
def roughTree : Node :=
  let boost (start : UInt64) (value : String) : Node :=
    .keyword ⟨⟨start, start + 9⟩, "boost", ":", value, none⟩ {}
  .boolean ⟨0, 71⟩ [
    ⟨.mustNot, true, .boolean ⟨1, 23⟩ [
      ⟨.should, false, boost 2 "new"⟩,
      ⟨.must, false, .negated ⟨12, 22⟩ "-" (boost 13 "old")⟩]⟩,
    ⟨.must, false, .boolean ⟨24, 42⟩ [
      ⟨.must, false, .phrasePrefix ⟨25, 35⟩ "red ros"⟩,
      ⟨.must, false, .words ⟨36, 41⟩ "thorn"⟩]⟩,
    ⟨.must, false, .negated ⟨43, 59⟩ "-" (.boolean ⟨44, 59⟩ [
      ⟨.should, false, .words ⟨45, 50⟩ "thorn"⟩,
      ⟨.mustNot, true, .fuzzy ⟨52, 58⟩ "rsoe" (some 1)⟩])⟩,
    ⟨.should, false, .phrasePrefix ⟨60, 71⟩ "wild ros"⟩]

/-- Four of the seven leaves leave their text in the main query. A keyword alone
leaves none. -/
theorem build_keeps_text_roughTree :
    let start := fresh {} (ProfileTable.service {})
    let query := Query.typed roughTree
      "-(boost:new -boost:old) (\"red ros*\" thorn) -(thorn -rsoe~1) \"wild ros*\""
    let bare := Query.typed (.keyword ⟨⟨0, 9⟩, "boost", ":", "new", none⟩ {}) "boost:new"
    start.build query false = .ok (start.absorb query) ∧
      start.build bare false = .ok (start.absorb bare) ∧
      (∃ main, (start.absorb query).mainQuery = some main ∧ main.Normal ∧
        (main.literals false).Perm [(false, .allTerms "all" "thorn"),
          (true, .allTerms "all" "thorn"), (false, .fuzzy "all" "rsoe" (some 1)),
          (false, .phrasePrefix "title" "wild ros")]) ∧
      (start.absorb bare).mainQuery = none := by
  intro start query bare
  have hbuild : start.build query false = .ok (start.absorb query) := build_eq_absorb (by decide)
  have hbare : start.build bare false = .ok (start.absorb bare) := build_eq_absorb (by decide)
  obtain ⟨hliterals, _, hnormal⟩ :=
    build_keeps_text {} (ProfileTable.service {}) query _ _ hbuild
  obtain ⟨_, hnone, _⟩ := build_keeps_text {} (ProfileTable.service {}) bare _ _ hbare
  refine ⟨hbuild, hbare, ?_, hnone.mpr fun spot hspot => ?_⟩
  · cases hmain : (start.absorb query).mainQuery with
    | none =>
        rw [hmain] at hliterals
        cases List.nil_perm.mp hliterals
    | some main =>
        rw [hmain, Option.toList_some, List.flatMap_singleton] at hliterals
        exact ⟨main, rfl, hnormal main hmain, hliterals⟩
  · obtain rfl := List.mem_singleton.mp hspot
    rfl

end Draft

end SearchCompiler
