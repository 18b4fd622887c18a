import SearchCompiler.Expr.Basic
import SearchCompiler.Reach
import SearchCompiler.Settings

/-!
The tree of a parsed query. Its leaves are texts, searched for in different
ways, and keywords; its inner nodes are boolean combinations of clauses and
negations. What a keyword means is left to its feature, which is shared by
all occurrences of the keyword and asked about one occurrence at a time.
-/

namespace SearchCompiler

/-- The part of the query text that a node was parsed from. -/
structure Span where
  start : UInt64
  stop : UInt64
deriving DecidableEq, Repr

/-- What a clause demands of a document. -/
inductive Occur where
  | must
  | should
  | mustNot
deriving DecidableEq, Repr

/-- One occurrence of a keyword in a query text. -/
structure Keyword where
  span : Span
  key : String
  delimiter : String
  value : String
  /-- The value with its quotes, if it had any. -/
  quoted : Option String
deriving DecidableEq, Repr

/-- The meaning of a keyword. Unless it says otherwise, a feature is named by
its key, allows every reach and filters nothing. -/
structure Feature where
  name : (key delimiter : String) → String := fun key _ => key
  reach : Keyword → Reach := fun _ => .everywhere
  filter : Keyword → Settings → Option Expr := fun _ _ => none

/-- The name of the feature that an occurrence uses. -/
def Feature.nameOf (feature : Feature) (keyword : Keyword) : String :=
  feature.name keyword.key keyword.delimiter

structure Clause (α : Type) where
  occur : Occur
  /-- Whether the operator was typed. -/
  explicit : Bool
  node : α

inductive Node where
  | boolean (span : Span) (clauses : List (Clause Node))
  /-- Plain words. -/
  | words (span : Span) (text : String)
  /-- Quoted words, with or without a slop and with or without stemming. -/
  | phrase (span : Span) (text : String) (slop : Option UInt32) (stem : Bool)
  /-- A phrase whose last word may go on. -/
  | phrasePrefix (span : Span) (text : String)
  /-- A word that may go on. -/
  | wordPrefix (span : Span) (text : String)
  /-- A word that may be misspelt. -/
  | fuzzy (span : Span) (text : String) (distance : Option UInt8)
  /-- A word with placeholders. -/
  | wildcard (span : Span) (text : String)
  /-- What must not match, with the operator that says so. -/
  | negated (span : Span) (operator : String) (child : Node)
  /-- Nothing to search for. -/
  | empty (span : Span)
  | keyword (occurrence : Keyword) (feature : Feature)

namespace Node

instance : Inhabited Node := ⟨.empty ⟨0, 0⟩⟩

def span : Node → Span
  | .boolean span _ => span
  | .words span _ => span
  | .phrase span _ _ _ => span
  | .phrasePrefix span _ => span
  | .wordPrefix span _ => span
  | .fuzzy span _ _ => span
  | .wildcard span _ => span
  | .negated span _ _ => span
  | .empty span => span
  | .keyword occurrence _ => occurrence.span

/-- The name of the kind of a node. -/
def kind : Node → String
  | .boolean .. => "bool"
  | .words .. => "word"
  | .phrase .. => "phrase"
  | .phrasePrefix .. => "phrase_prefix"
  | .wordPrefix .. => "prefix"
  | .fuzzy .. => "fuzzy"
  | .wildcard .. => "wildcard"
  | .negated .. => "not"
  | .empty .. => "empty"
  | .keyword .. => "keyword"

def isEmpty : Node → Bool
  | .empty _ => true
  | _ => false

end Node

end SearchCompiler
