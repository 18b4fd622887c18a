import SearchCompiler.Draft.Assembly
import SearchCompiler.Draft.Build

/-!
Runs of operations on one draft. A step changes the draft, puts a query into
it, moves it to other settings, or reads something from it; each step has an
answer. Reading a profile name fixes the name, and so does everything that
needs the name, be it a rescoring chain or the announcement of a build; apart
from that a read leaves the draft as it is.
-/

namespace SearchCompiler

/-- Something to read from a draft. -/
inductive Read where
  | query
  | highlight (highlighter : Highlighter)
  | rescore (builder : RescoreBuilder)
  | suggestion
  | request (highlighter : Highlighter) (builder : RescoreBuilder)
  | searchType
  | usesFeature (name : String)
  | rescoreProfile
  | fulltextProfile

inductive Step where
  | change (change : Change)
  /-- A build, and whether its announcement is recorded. -/
  | build (query : Query) (logged : Bool := false)
  | rebind (settings : Settings)
  | read (what : Read)

inductive Answer where
  /-- The step had nothing to tell. -/
  | done
  | refused (error : QueryError)
  | query (expr : Expr)
  | highlight (highlight : Option Highlight)
  | rescore (chain : List Rescore)
  | suggestion (suggestion : Option Json)
  | request (body : Json)
  | name (name : String)
  | flag (flag : Bool)

namespace Read

def answer (draft : Draft) : Read → Answer
  | .query => .query draft.query
  | .highlight highlighter => .highlight (draft.highlight highlighter)
  | .rescore builder => .rescore (draft.rescore builder)
  | .suggestion => .suggestion draft.suggestion
  | .request highlighter builder => .request (draft.request highlighter builder)
  | .searchType => .name draft.searchType
  | .usesFeature name => .flag (draft.usesFeature name)
  | .rescoreProfile => .name draft.rescoreProfileName
  | .fulltextProfile => .name draft.fulltextProfileName

/-- The draft after a read. -/
def leave (draft : Draft) : Read → Draft
  | .rescore builder | .request _ builder => (draft.rescoring builder).2
  | .rescoreProfile => draft.fixRescoreProfile
  | .fulltextProfile => draft.fixFulltextProfile
  | _ => draft

end Read

def Step.run (draft : Draft) : Step → Draft × Answer
  | .change c => (draft.apply c, .done)
  | .build query logged =>
      match draft.build query logged with
      | .ok draft => (draft, .done)
      | .error error => (draft, .refused error)
  | .rebind settings => (draft.withSettings settings, .done)
  | .read what => (what.leave draft, what.answer draft)

/-- The draft after a run of steps, and the answers to them. -/
def runSteps (draft : Draft) : List Step → Draft × List Answer
  | [] => (draft, [])
  | step :: rest =>
      let (draft, answer) := step.run draft
      let (draft, answers) := runSteps draft rest
      (draft, answer :: answers)

end SearchCompiler
