import SearchCompiler.Expr.Basic

/-!
What an expression says about one document. The backend alone knows whether a
leaf matches the document, so truth is read under an assignment of truth values
to the leaves, and the score under an assignment of scores as well.

A boolean combination holds when every must and filter clause holds, no
must-not clause does, and one should clause does; the last only when there are
should clauses and neither must nor filter clauses.
-/

namespace SearchCompiler

/-- The rule of a boolean combination, over the truth of its clauses. -/
def Clauses.holds (clauses : Clauses Bool) : Bool :=
  clauses.must.all id && clauses.filter.all id && clauses.mustNot.all (!·)
    && (clauses.should.isEmpty || !clauses.must.isEmpty || !clauses.filter.isEmpty
      || clauses.should.any id)

mutual

/-- Whether the document matches. -/
def Expr.holds (leaf : Expr → Bool) : Expr → Bool
  | .matchAll => true
  | .matchNone => false
  | .bool ⟨must, should, mustNot, filter⟩ =>
      Clauses.holds ⟨holdsList leaf must, holdsList leaf should, holdsList leaf mustNot,
        holdsList leaf filter⟩
  | .functionScore query _ _ _ => query.holds leaf
  | .matchText field text operator => leaf (.matchText field text operator)
  | .phrase field text slop => leaf (.phrase field text slop)
  | .phrasePrefix field text => leaf (.phrasePrefix field text)
  | .termPrefix field value => leaf (.termPrefix field value)
  | .fuzzy field value distance => leaf (.fuzzy field value distance)
  | .wildcard field value => leaf (.wildcard field value)
  | .term field value => leaf (.term field value)
  | .terms field values => leaf (.terms field values)

def holdsList (leaf : Expr → Bool) : List Expr → List Bool
  | [] => []
  | e :: rest => e.holds leaf :: holdsList leaf rest

end

mutual

/-- The score of a document: each expression that is no boolean combination
has its own, and a combination adds the scores of its must clauses and of
those should clauses that match. -/
def Expr.score (leaf : Expr → Bool) (own : Expr → Nat) : Expr → Nat
  | .bool ⟨must, should, _, _⟩ => scoreAll leaf own must + scoreMatching leaf own should
  | e => own e

def scoreAll (leaf : Expr → Bool) (own : Expr → Nat) : List Expr → Nat
  | [] => 0
  | e :: rest => e.score leaf own + scoreAll leaf own rest

def scoreMatching (leaf : Expr → Bool) (own : Expr → Nat) : List Expr → Nat
  | [] => 0
  | e :: rest => (if e.holds leaf then e.score leaf own else 0) + scoreMatching leaf own rest

end

end SearchCompiler
