import SearchCompiler.Json.Basic

/-!
Query expressions, the language of the search backend. An expression is a
plain value; a boolean combination holds four groups of clauses, and the order
of the clauses in a group is kept.
-/

namespace SearchCompiler

/-- How a match combines the terms of its text. -/
inductive Operator where
  | and
  | or
deriving DecidableEq, Repr

/-- The four clause groups of a boolean combination. -/
structure Clauses (α : Type) where
  must : List α := []
  should : List α := []
  mustNot : List α := []
  filter : List α := []
deriving DecidableEq, Repr

/-- A scoring function: a weight for the documents its filter matches, and
the entries of a function body. -/
structure ScoreFunction (α : Type) where
  filter : Option α
  weight : Double
  body : Option (Table Json)

inductive Expr where
  /-- Every document. -/
  | matchAll
  /-- No document. -/
  | matchNone
  /-- Analysed text in one field. -/
  | matchText (field text : String) (operator : Operator)
  /-- The words of a text next to each other, up to the slop. -/
  | phrase (field text : String) (slop : UInt32)
  /-- A phrase whose last word may go on. -/
  | phrasePrefix (field text : String)
  /-- A term that begins with a value. -/
  | termPrefix (field value : String)
  /-- A term near to a value; without a distance the backend chooses one. -/
  | fuzzy (field value : String) (distance : Option UInt8)
  /-- A term that fits a pattern. -/
  | wildcard (field value : String)
  /-- An exact value. -/
  | term (field : String) (value : Json)
  /-- One of several exact values. -/
  | terms (field : String) (values : List Json)
  /-- A boolean combination. -/
  | bool (clauses : Clauses Expr)
  /-- A query whose score is changed by functions. -/
  | functionScore (query : Expr) (functions : List (ScoreFunction Expr))
      (scoreMode boostMode : String)

instance : Inhabited Expr := ⟨.matchAll⟩

/-- The group a clause is put in. -/
inductive Group where
  | must
  | should
  | mustNot
  | filter
deriving DecidableEq, Repr

namespace Clauses

variable {α : Type}

/-- Puts a clause behind the others of its group. -/
def add (clauses : Clauses α) (group : Group) (clause : α) : Clauses α :=
  match group with
  | .must => { clauses with must := clauses.must ++ [clause] }
  | .should => { clauses with should := clauses.should ++ [clause] }
  | .mustNot => { clauses with mustNot := clauses.mustNot ++ [clause] }
  | .filter => { clauses with filter := clauses.filter ++ [clause] }

def isEmpty (clauses : Clauses α) : Bool :=
  clauses.must.isEmpty && clauses.should.isEmpty && clauses.mustNot.isEmpty
    && clauses.filter.isEmpty

end Clauses

namespace Expr

/-- All terms of a text in one field. -/
def allTerms (field text : String) : Expr :=
  .matchText field text .and

def not (e : Expr) : Expr :=
  .bool { mustNot := [e] }

def and (e f : Expr) : Expr :=
  .bool { must := [e, f] }

def or (e f : Expr) : Expr :=
  .bool { should := [e, f] }

def isBool : Expr → Bool
  | .bool _ => true
  | _ => false

/-- One filter for all that is required and all that is excluded: nothing to
restrict is no filter, and a single required filter stands for itself. -/
def unify (required excluded : List Expr) : Option Expr :=
  match required, excluded with
  | [], [] => none
  | [only], [] => some only
  | _, _ => some (.bool { must := required, mustNot := excluded })

end Expr

end SearchCompiler
