import SearchCompiler.Node.Basic
import SearchCompiler.Text.Words

/-!
Compilation of query trees. A node becomes an expression or nothing, and
besides it may yield parts that belong to the whole request: keywords yield
filters wherever they stand, and a phrase prefix that every result has to
match is lifted out of the tree. Compilation only collects these yields; what
becomes of them is decided by the draft that they are put into.
-/

namespace SearchCompiler

/-- What compilation yields besides the expression, each list in the order of
the text. -/
structure Yield where
  filters : List Expr := []
  notFilters : List Expr := []
  /-- Phrase prefixes taken out of the tree. -/
  lifted : List Expr := []
  /-- The names of the features of all leaves. -/
  features : List String := []
  /-- The plain words that are not excluded. -/
  words : List String := []

namespace Yield

def append (a b : Yield) : Yield where
  filters := a.filters ++ b.filters
  notFilters := a.notFilters ++ b.notFilters
  lifted := a.lifted ++ b.lifted
  features := a.features ++ b.features
  words := a.words ++ b.words

instance : Append Yield := ⟨append⟩

end Yield

/-- Sorts compiled clauses into groups, the order in each group being kept. -/
def Clauses.ofParts (parts : List (Occur × Expr)) : Clauses Expr :=
  let group (occur : Occur) := parts.filterMap fun part =>
    if part.1 = occur then some part.2 else none
  { must := group .must, should := group .should, mustNot := group .mustNot }

/-- A combination of clauses as an expression: no clauses are no expression,
and a lone required clause stands for itself. -/
def Clauses.toExpr? (clauses : Clauses Expr) : Option Expr :=
  if clauses.isEmpty then none
  else
    match clauses.must, clauses.should, clauses.mustNot with
    | [only], [], [] => some only
    | _, _, _ => some (.bool clauses)

mutual

/-- Compiles a node. It stands under an odd number of exclusions when
`negated`, and in required clauses only when `required`. -/
def Node.compile (settings : Settings) (negated required : Bool) : Node → Option Expr × Yield
  | .boolean _ clauses =>
      let (parts, yield) := compileClauses settings negated required clauses
      ((Clauses.ofParts parts).toExpr?, yield)
  | .negated _ _ child =>
      let (expr, yield) := child.compile settings (!negated) false
      (expr.map Expr.not, yield)
  | .words _ text =>
      (some (.allTerms settings.allField text),
        { features := ["full_text"], words := if negated then [] else wordsOf text })
  | .phrase _ text slop stem =>
      let field := if stem then settings.allField else settings.allField ++ ".plain"
      (some (.phrase field text (slop.getD 0)), { features := ["phrase"] })
  | .phrasePrefix _ text =>
      let expr := Expr.phrasePrefix settings.titleField text
      if required && !negated then (none, { lifted := [expr], features := ["phrase_prefix"] })
      else (some expr, { features := ["phrase_prefix"] })
  | .wordPrefix _ text =>
      (some (.termPrefix settings.allField text), { features := ["prefix"] })
  | .fuzzy _ text distance =>
      (some (.fuzzy settings.allField text distance), { features := ["fuzzy"] })
  | .wildcard _ text =>
      (some (.wildcard settings.allField text), { features := ["wildcard"] })
  | .keyword occurrence feature =>
      let filter := (feature.filter occurrence settings).toList
      (none,
        { filters := if negated then [] else filter
          notFilters := if negated then filter else []
          features := [feature.nameOf occurrence] })
  | .empty _ => (none, {})

/-- Compiles the clauses of a combination, leaving out those that come to
nothing. -/
def compileClauses (settings : Settings) (negated required : Bool) :
    List (Clause Node) → List (Occur × Expr) × Yield
  | [] => ([], {})
  | ⟨occur, _, node⟩ :: rest =>
      let (expr, yield) := node.compile settings (negated ^^ (occur == .mustNot))
        (required && occur == .must)
      let (parts, yields) := compileClauses settings negated required rest
      (expr.toList.map (occur, ·) ++ parts, yield ++ yields)

end

end SearchCompiler
