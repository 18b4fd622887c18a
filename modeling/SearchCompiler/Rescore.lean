import SearchCompiler.Expr.Encoding
import SearchCompiler.Json.Reader
import SearchCompiler.Json.Record

/-!
Rescoring in stages. A profile lists the stages to apply; a stage scores again
either with a phrase or with a set of scoring functions, and is left out when
there is nothing to score with.
-/

namespace SearchCompiler

inductive StageKind where
  | phrase
  | functionScore
deriving DecidableEq, Repr

namespace StageKind

def all : List StageKind := [.phrase, .functionScore]

def name : StageKind → String
  | .phrase => "phrase"
  | .functionScore => "function_score"

def decode? (d : Document) : Option StageKind :=
  d.choice? (all.map fun kind => (kind.name, kind))

end StageKind

structure RescoreStage where
  kind : StageKind
  /-- How many of the best documents are scored again. -/
  window : UInt32
  queryWeight : Double := .one
  rescoreQueryWeight : Double := .one
  scoreMode : String := "total"
  /-- How scoring functions combine, with each other and with the query. -/
  functionMode : String := "multiply"
deriving DecidableEq

namespace RescoreStage

/-- The fields in the order in which an array lists them. -/
def fieldNames : List String :=
  ["kind", "window", "query_weight", "rescore_query_weight", "score_mode", "function_mode"]

def decode? (d : Document) : Option RescoreStage := do
  let field ← d.record? fieldNames
  let kind ← Document.required StageKind.decode? (field "kind")
  let window ← Document.required Document.uint32? (field "window")
  let queryWeight ← Document.defaulted .one Document.double? (field "query_weight")
  let rescoreQueryWeight ← Document.defaulted .one Document.double?
    (field "rescore_query_weight")
  let scoreMode ← Document.defaulted "total" Document.string? (field "score_mode")
  let functionMode ← Document.defaulted "multiply" Document.string? (field "function_mode")
  return { kind, window, queryWeight, rescoreQueryWeight, scoreMode, functionMode }

def toJson (stage : RescoreStage) : Json :=
  .object [
    ("function_mode", .string stage.functionMode),
    ("kind", .string stage.kind.name),
    ("query_weight", .double stage.queryWeight),
    ("rescore_query_weight", .double stage.rescoreQueryWeight),
    ("score_mode", .string stage.scoreMode),
    ("window", .nat stage.window.toNat)]

end RescoreStage

structure RescoreProfile where
  stages : List RescoreStage
deriving DecidableEq

namespace RescoreProfile

def decode? (d : Document) : Option RescoreProfile := do
  let field ← d.record? ["stages"]
  let stages ← Document.required (Document.list? RescoreStage.decode?) (field "stages")
  return { stages }

def toJson (profile : RescoreProfile) : Json :=
  .object [("stages", .array (profile.stages.map RescoreStage.toJson))]

end RescoreProfile

/-- One stage of a request. -/
structure Rescore where
  window : UInt32
  query : Expr
  queryWeight : Double
  rescoreQueryWeight : Double
  scoreMode : String

def Rescore.toJson (r : Rescore) : Json :=
  .object [
    ("query", .object [
      ("query_weight", .double r.queryWeight),
      ("rescore_query", r.query.toJson),
      ("rescore_query_weight", .double r.rescoreQueryWeight),
      ("score_mode", .string r.scoreMode)]),
    ("window_size", .nat r.window.toNat)]

/-- The query that a stage scores with, if there is one: the phrase, or all
scoring functions on every document. -/
def RescoreStage.query? (stage : RescoreStage) (phrase : Option Expr)
    (functions : List (ScoreFunction Expr)) : Option Expr :=
  match stage.kind with
  | .phrase => phrase
  | .functionScore =>
      if functions.isEmpty then none
      else some (.functionScore .matchAll functions stage.functionMode stage.functionMode)

/-- The stages of a profile that have something to score with. -/
def RescoreProfile.chain (profile : RescoreProfile) (phrase : Option Expr)
    (functions : List (ScoreFunction Expr)) : List Rescore :=
  profile.stages.filterMap fun stage =>
    (stage.query? phrase functions).map fun query =>
      { window := stage.window
        query
        queryWeight := stage.queryWeight
        rescoreQueryWeight := stage.rescoreQueryWeight
        scoreMode := stage.scoreMode }

/-- Profiles by name, in the order of their registration; the last one under a
name counts. -/
structure RescoreProfiles where
  entries : List (String × RescoreProfile) := []

namespace RescoreProfiles

def register (profiles : RescoreProfiles) (name : String) (profile : RescoreProfile) :
    RescoreProfiles :=
  ⟨profiles.entries ++ [(name, profile)]⟩

def get? (profiles : RescoreProfiles) (name : String) : Option RescoreProfile :=
  profiles.entries.reverse.lookup name

/-- Reads a JSON object from names to profiles. -/
def read? (text : String) : Option RescoreProfiles := do
  return ⟨← (← Document.read? text).entries? RescoreProfile.decode?⟩

end RescoreProfiles

end SearchCompiler
