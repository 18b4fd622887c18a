import SearchCompiler.Node.Basic

/-!
The structural dump of a tree: each node as an object with one entry, under
the name of its kind. What belongs to the kind is put over the fields of the
span, and would take their place if it had their names.
-/

namespace SearchCompiler

namespace Span

def toJson (s : Span) : Json :=
  .object [("end", .nat s.stop.toNat), ("start", .nat s.start.toNat)]

def decode? (d : Document) : Option Span := do
  let field ← d.record? ["start", "end"]
  let start ← Document.required Document.uint64? (field "start")
  let stop ← Document.required Document.uint64? (field "end")
  return { start, stop }

/-- The fields of a span in a dump. -/
def fields (s : Span) : List (String × Json) :=
  [("startOffset", .nat s.start.toNat), ("endOffset", .nat s.stop.toNat)]

end Span

namespace Occur

def all : List Occur := [.must, .should, .mustNot]

def name : Occur → String
  | .must => "MUST"
  | .should => "SHOULD"
  | .mustNot => "MUST_NOT"

def decode? (d : Document) : Option Occur :=
  d.choice? (all.map fun occur => (occur.name, occur))

end Occur

/-- The dump of a node with its own fields over those of its span. -/
def dump (kind : String) (span : Span) (own : List (String × Json)) : Json :=
  .single kind (.ofTable ((Table.ofList span.fields).insertAll own))

mutual

/-- The fields that belong to the kind of a node. -/
def Node.ownFields : Node → List (String × Json)
  | .boolean _ clauses => [("clauses", .array (toJsonClauses clauses))]
  | .words _ text => [("word", .string text)]
  | .phrase _ text slop stem => [
      ("phrase", .string text),
      ("slop", .ofOption (fun n => .nat n.toNat) slop),
      ("stem", .bool stem)]
  | .phrasePrefix _ text => [("phrase", .string text)]
  | .wordPrefix _ text => [("prefix", .string text)]
  | .fuzzy _ text distance => [
      ("word", .string text),
      ("fuzziness", .ofOption (fun n => .nat n.toNat) distance)]
  | .wildcard _ text => [("wildcard", .string text)]
  | .negated _ operator child => [
      ("child", dump child.kind child.span child.ownFields),
      ("negation_type", .string operator)]
  | .empty _ => []
  | .keyword occurrence feature => [
      ("feature", .string (feature.nameOf occurrence)),
      ("key", .string occurrence.key),
      ("delimiter", .string occurrence.delimiter),
      ("value", .string occurrence.value),
      ("quotedValue", .ofOption .string occurrence.quoted)]

def toJsonClauses : List (Clause Node) → List Json
  | [] => []
  | ⟨occur, explicit, node⟩ :: rest =>
      .object [
        ("explicit", .bool explicit),
        ("node", dump node.kind node.span node.ownFields),
        ("occur", .string occur.name)] :: toJsonClauses rest

end

def Node.toJson (node : Node) : Json :=
  dump node.kind node.span node.ownFields

end SearchCompiler
