import SearchCompiler.Classifier.Registry
import SearchCompiler.Node.Encoding

/-!
Membership of one query in classes, found out as it is asked for. A question
about a label lets the owner of the label judge the query, and the answers for
all labels of the owner are kept, so no classifier judges twice. The questions
that a judging classifier asks are answered in the same way.

Whenever a classifier is called on, that is noted in a log, and so is the end
of its judgment. Nothing is ever decided by the log: it stands beside what is
kept, and tells how often a classifier was really called on.

Judgments that ask about each other in a circle have no answer. A chain of
questions without a circle lets every classifier judge at most once, so one
unit of fuel for each classifier and one for the last question suffice.
-/

namespace SearchCompiler

/-- A call on the classifier at a position to judge, or the end of its judgment. -/
inductive Turn where
  | call (index : Nat)
  | done (index : Nat)
deriving DecidableEq, Repr

/-- What is known so far: the judgments kept, each with the position of its
classifier, and the answers for labels. -/
structure Answers where
  judged : List (Nat × List String) := []
  known : Table Bool := .empty
  /-- The turns of the classifiers, in the order of time. -/
  log : List Turn := []
deriving DecidableEq

instance : Inhabited Answers := ⟨{}⟩

namespace Answers

/-- Notes a turn. -/
def note (s : Answers) (turn : Turn) : Answers :=
  { s with log := s.log ++ [turn] }

/-- Keeps what the classifier at a position came to. -/
def keep (s : Answers) (index : Nat) (asserted : List String) : Answers :=
  { s with judged := s.judged ++ [(index, asserted)] }

/-- Keeps the answers for the labels of a classifier that came to a judgment.
Answers that are known already stay, and labels of other classifiers do not
count. -/
def record (s : Answers) (labels asserted : List String) : Answers :=
  let learn (known : Table Bool) (label : String) :=
    if (known.get? label).isSome then known
    else known.insert label (asserted.contains label)
  { s with known := labels.foldl learn s.known }

end Answers

/-- Comes to labels, with a way to have questions answered. -/
def Judgment.follow (answer : String → Answers → Except QueryError Bool × Answers) :
    Judgment → Answers → List String × Answers
  | .assert labels, s => (labels, s)
  | .ask label next, s =>
      let (reply, s) := answer label s
      (next reply).follow answer s

/-- Calls on the classifier at a position to judge a query. -/
def Classifier.consult (classifier : Classifier) (query : Query) (index : Nat)
    (answer : String → Answers → Except QueryError Bool × Answers) (s : Answers) :
    List String × Answers :=
  let (asserted, s) := (classifier.judge query).follow answer (s.note (.call index))
  (asserted, s.note (.done index))

/-- Whether a label applies to a query. -/
def Registry.answer (registry : Registry) (query : Query) :
    Nat → String → Answers → Except QueryError Bool × Answers
  | 0, label, s => (.error (.unknownClass label), s)
  | fuel + 1, label, s =>
      match s.known.get? label, registry.owner? label with
      | some member, _ => (.ok member, s)
      | none, none => (.error (.unknownClass label), s)
      | none, some index =>
          match registry.classifiers[index]? with
          | none => (.error (.unknownClass label), s)
          | some classifier =>
              let (asserted, s) := match s.judged.lookup index with
                | some asserted => (asserted, s)
                | none =>
                    let (asserted, s) := classifier.consult query index
                      (registry.answer query fuel) s
                    (asserted, s.keep index asserted)
              let s := s.record classifier.labels asserted
              match s.known.get? label with
              | some member => (.ok member, s)
              | none => (.error (.unknownClass label), s)

/-- A query together with the classifiers in use and what is known of its
classes. -/
structure Classification where
  query : Query
  registry : Registry
  answers : Answers := {}

namespace Classification

/-- Whether a label applies. -/
def ask (c : Classification) (label : String) : Except QueryError Bool × Classification :=
  let (reply, answers) :=
    c.registry.answer c.query (c.registry.classifiers.length + 1) label c.answers
  (reply, { c with answers })

/-- Asks about the first label of each classifier, up to the first error. -/
def askFirsts (c : Classification) : List Classifier → Except QueryError Unit × Classification
  | [] => (.ok (), c)
  | classifier :: rest =>
      match classifier.labels with
      | [] => c.askFirsts rest
      | label :: _ =>
          match c.ask label with
          | (.ok _, c) => c.askFirsts rest
          | (.error e, c) => (.error e, c)

/-- Lets every classifier with a label judge that did not yet. -/
def preload (c : Classification) : Except QueryError Unit × Classification :=
  c.askFirsts c.registry.classifiers

/-- How often the classifier at a position was called on to judge. -/
def judgments (c : Classification) (index : Nat) : Nat :=
  c.answers.log.count (.call index)

/-- Whether the classifier at a position has come to a judgment. -/
def HasJudged (c : Classification) (index : Nat) : Prop :=
  .done index ∈ c.answers.log

/-- The query as an object. Of the classes it lists those that are known. -/
def toJson (c : Classification) : Json :=
  let q := c.query
  let features := q.features.elements
  let entry (shown : Bool) (name : String) (value : Json) :=
    if shown then [(name, value)] else []
  .object <|
    entry (!features.isEmpty) "featuresUsed" (.strings features)
      ++ [("query", .string q.text)]
      ++ entry (!c.answers.known.isEmpty) "queryClasses"
        (.object (c.answers.known.entries.map fun (label, member) => (label, .bool member)))
      ++ entry (!q.cleanups.isEmpty) "queryCleanups" (.strings (q.cleanups.map Cleanup.name))
      ++ [("rawQuery", .string q.rawText)]
      ++ entry (!q.namespaces.isUnspecified) "requiredNamespaces" q.namespaces.toJson
      ++ [("root", q.root.toJson)]
      ++ entry (!q.warnings.isEmpty) "warnings" (.array (q.warnings.map Warning.toJson))

end Classification

end SearchCompiler
