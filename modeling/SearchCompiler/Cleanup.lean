import SearchCompiler.Json.Record

/-!
The changes that a raw query text may have gone through before it was parsed.
-/

namespace SearchCompiler

inductive Cleanup where
  /-- A leading tilde was taken off. -/
  | tildeHeader
  /-- Question marks were taken out or escaped. -/
  | cleanedQuestionMark
  /-- Full-width characters were replaced by their ASCII forms. -/
  | replacedFullWidthChars
deriving DecidableEq, Repr

namespace Cleanup

/-- In the order in which sets of them are listed. -/
def all : List Cleanup := [.tildeHeader, .cleanedQuestionMark, .replacedFullWidthChars]

def name : Cleanup → String
  | .tildeHeader => "tilde_header"
  | .cleanedQuestionMark => "cleaned_question_mark"
  | .replacedFullWidthChars => "replaced_full_width_chars"

/-- The name in error messages. -/
def title : Cleanup → String
  | .tildeHeader => "TildeHeader"
  | .cleanedQuestionMark => "CleanedQuestionMark"
  | .replacedFullWidthChars => "ReplacedFullWidthChars"

def decode? (d : Document) : Option Cleanup :=
  d.choice? (all.map fun cleanup => (cleanup.name, cleanup))

/-- The reported cleanups, each once and in order. -/
def inOrder (reported : List Cleanup) : List Cleanup :=
  all.filter (reported.contains ·)

end Cleanup

end SearchCompiler
