import SearchCompiler.Expr.Basic

/-!
Equality of expressions up to the sign of zero: values and weights are
compared as numbers, all else exactly.
-/

namespace SearchCompiler

def sameBody : Option (Table Json) → Option (Table Json) → Bool
  | none, none => true
  | some a, some b => sameEntries a.entries b.entries
  | _, _ => false

mutual

def Expr.same : Expr → Expr → Bool
  | .matchAll, .matchAll => true
  | .matchNone, .matchNone => true
  | .matchText field text operator, .matchText field' text' operator' =>
      field == field' && text == text' && operator == operator'
  | .phrase field text slop, .phrase field' text' slop' =>
      field == field' && text == text' && slop == slop'
  | .phrasePrefix field text, .phrasePrefix field' text' => field == field' && text == text'
  | .termPrefix field value, .termPrefix field' value' => field == field' && value == value'
  | .fuzzy field value distance, .fuzzy field' value' distance' =>
      field == field' && value == value' && distance == distance'
  | .wildcard field value, .wildcard field' value' => field == field' && value == value'
  | .term field value, .term field' value' => field == field' && value.same value'
  | .terms field values, .terms field' values' => field == field' && sameItems values values'
  | .bool ⟨must, should, mustNot, filter⟩, .bool ⟨must', should', mustNot', filter'⟩ =>
      sameList must must' && sameList should should' && sameList mustNot mustNot'
        && sameList filter filter'
  | .functionScore query functions scoreMode boostMode,
      .functionScore query' functions' scoreMode' boostMode' =>
      query.same query' && sameFunctions functions functions' && scoreMode == scoreMode'
        && boostMode == boostMode'
  | _, _ => false

def sameList : List Expr → List Expr → Bool
  | [], [] => true
  | e :: es, f :: fs => e.same f && sameList es fs
  | _, _ => false

def sameFunctions : List (ScoreFunction Expr) → List (ScoreFunction Expr) → Bool
  | [], [] => true
  | ⟨none, weight, body⟩ :: fs, ⟨none, weight', body'⟩ :: gs =>
      weight.same weight' && sameBody body body' && sameFunctions fs gs
  | ⟨some filter, weight, body⟩ :: fs, ⟨some filter', weight', body'⟩ :: gs =>
      filter.same filter' && weight.same weight' && sameBody body body' && sameFunctions fs gs
  | _, _ => false

end

end SearchCompiler
