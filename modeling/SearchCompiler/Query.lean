import SearchCompiler.Namespaces
import SearchCompiler.Node.Walk

/-!
Parsed queries: the tree, the text it was parsed from, the text as it was
typed, and what the parser has to report. A query never changes; the reach and
the features of its keywords are read off the tree.
-/

namespace SearchCompiler

/-- A problem that did not stop the parser, for the user to see. -/
structure Warning where
  message : String
  params : List String
deriving DecidableEq, Repr

namespace Warning

def toJson (w : Warning) : Json :=
  .object [("message", .string w.message), ("params", .strings w.params)]

def decode? (d : Document) : Option Warning := do
  let field ← d.record? ["message", "params"]
  let message ← Document.required Document.string? (field "message")
  let params ← Document.required (Document.list? Document.string?) (field "params")
  return { message, params }

end Warning

structure Query where
  root : Node
  /-- The text that the tree was parsed from. -/
  text : String
  /-- The text before any cleanup. -/
  rawText : String
  cleanups : List Cleanup
  warnings : List Warning
  namespaces : Namespaces
  changed : cleanups ≠ [] → text ≠ rawText

namespace Query

/-- A query without a cleaned text was parsed from the raw one. Cleanups that
left the text as it was are refused. -/
def make (root : Node) (rawText : String) (cleaned : Option String)
    (reported : List Cleanup) (warnings : List Warning) (namespaces : Namespaces) :
    Except QueryError Query :=
  let text := cleaned.getD rawText
  let cleanups := Cleanup.inOrder reported
  if h : cleanups ≠ [] → text ≠ rawText then
    .ok { root, text, rawText, cleanups, warnings, namespaces, changed := h }
  else .error (.unchangedText cleanups)

/-- The reach that all keywords of the tree allow. -/
def reach (query : Query) : Reach :=
  query.root.walk
    { keyword := fun keyword feature s => s.meet (feature.reach keyword) } .everywhere

/-- The names of the features that the tree uses. -/
def features (query : Query) : SortedSet String :=
  query.root.walk
    { keyword := fun keyword feature s => s.insert (feature.nameOf keyword) } .empty

end Query

end SearchCompiler
