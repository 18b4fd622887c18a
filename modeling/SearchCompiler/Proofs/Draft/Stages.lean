import Mathlib.Data.List.Forall2
import SearchCompiler.Proofs.Draft.Reads
import SearchCompiler.Proofs.Draft.Refusals
import SearchCompiler.Proofs.Profile.Registrations

/-!
The rescoring chain of a draft, from what was registered and what was put into the
draft. Of the stages of the profile those are kept that have something to score with, and
each of them scores with it under its own weights. Which profile it is depends on the name
in force; it is chosen under the settings of the draft, unless a name was set or used
before.
-/

namespace SearchCompiler

section Stages

variable (phrase : Option Expr) (functions : List (ScoreFunction Expr))

namespace RescoreStage

/-- Whether there is something for a stage to score with. -/
def applies (stage : RescoreStage) : Bool :=
  match stage.kind with
  | .phrase => phrase.isSome
  | .functionScore => !functions.isEmpty

/-- What a stage comes to in a request. -/
structure Gives (stage : RescoreStage) (r : Rescore) : Prop where
  window : r.window = stage.window
  queryWeight : r.queryWeight = stage.queryWeight
  rescoreQueryWeight : r.rescoreQueryWeight = stage.rescoreQueryWeight
  scoreMode : r.scoreMode = stage.scoreMode
  phrase : stage.kind = .phrase → phrase = some r.query
  functions : stage.kind = .functionScore →
    r.query = .functionScore .matchAll functions stage.functionMode stage.functionMode

variable {stage : RescoreStage}

theorem applies_eq :
    stage.applies phrase functions = (stage.query? phrase functions).isSome := by
  unfold applies query?
  cases stage.kind with
  | phrase => rfl
  | functionScore => cases functions <;> rfl

theorem gives_of_query? {query : Expr} (h : stage.query? phrase functions = some query) :
    stage.Gives phrase functions
      { window := stage.window
        query
        queryWeight := stage.queryWeight
        rescoreQueryWeight := stage.rescoreQueryWeight
        scoreMode := stage.scoreMode } := by
  refine ⟨rfl, rfl, rfl, rfl, ?_, ?_⟩
  · intro hkind
    rwa [query?, hkind] at h
  · intro hkind
    simp only [query?, hkind] at h
    split at h
    · cases h
    · exact (Option.some.inj h).symm

end RescoreStage

/-- A profile comes to those of its stages that have something to score with, in their
order. -/
theorem RescoreProfile.gives_chain (profile : RescoreProfile) :
    List.Forall₂ (RescoreStage.Gives phrase functions)
      (profile.stages.filter (·.applies phrase functions)) (profile.chain phrase functions) := by
  obtain ⟨stages⟩ := profile
  induction stages with
  | nil => exact .nil
  | cons stage rest ih =>
      rw [chain, List.filterMap_cons, List.filter_cons, RescoreStage.applies_eq]
      cases hquery : stage.query? phrase functions with
      | none => exact ih
      | some query => exact .cons (RescoreStage.gives_of_query? phrase functions hquery) ih

end Stages

namespace Change

def phraseRescoreQuery? : Change → Option Expr
  | .setPhraseRescoreQuery query => some query
  | _ => none

def scoreFunction? : Change → Option (ScoreFunction Expr)
  | .addScoreFunction function => some function
  | _ => none

end Change

namespace Draft

section Fresh

variable (settings : Settings) (profiles : ProfileService) (steps : List Step)

theorem phraseRescoreQuery_runSteps :
    (runSteps (fresh settings profiles) steps).1.phraseRescoreQuery =
      ((history settings steps).filterMap Change.phraseRescoreQuery?).getLast? := by
  have hrun := congrArg phraseRescoreQuery (unnamed_runSteps (fresh settings profiles) steps)
  refine hrun.trans (Eq.trans ?_ Option.or_none)
  exact foldl_latest_or phraseRescoreQuery Change.phraseRescoreQuery?
    (fun d c => by cases c <;> rfl) (history settings steps) (fresh settings profiles)

theorem scoreFunctions_runSteps :
    (runSteps (fresh settings profiles) steps).1.scoreFunctions =
      (history settings steps).filterMap Change.scoreFunction? := by
  have hrun := congrArg scoreFunctions (unnamed_runSteps (fresh settings profiles) steps)
  refine hrun.trans ?_
  exact foldl_gathers scoreFunctions Change.scoreFunction?
    (fun d c => by cases c <;> simp [apply, change, Change.scoreFunction?])
    (history settings steps) (fresh settings profiles)

/-- A name that is neither set nor used in a run is chosen under the settings in force
after it. -/
theorem rescoreProfileName_of_unused
    (hset : ∀ name, .change (.setRescoreProfile name) ∉ steps)
    (hunused : firstUse .rescore (fresh settings profiles) steps = none) :
    (runSteps (fresh settings profiles) steps).1.rescoreProfileName =
      profiles.choose .rescore (settingsAfter settings steps).profileContext
        (settingsAfter settings steps).profileParams := by
  have hsets : ∀ step ∈ steps, step.sets? .rescore = none := by
    intro step hstep
    cases step with
    | change c =>
        cases c with
        | setRescoreProfile name => exact absurd hstep (hset name)
        | _ => rfl
    | _ => rfl
  have hlast : lastSet .rescore steps = none := by
    rw [lastSet, List.filterMap_eq_nil_iff.mpr hsets]
    rfl
  have hname := nameFor_runSteps (fresh settings profiles) { kind := .rescore } steps
  rw [nameAfter, hlast, settingsOfUse, hunused] at hname
  exact hname

end Fresh

/-- The chain of a draft is that of the profile loaded last under its name. -/
theorem gives_rescore (draft : Draft) (loads : List (String × RescoreProfile)) :
    List.Forall₂ (RescoreStage.Gives draft.phraseRescoreQuery draft.scoreFunctions)
      (((loads.filterMap fun load =>
          if load.1 = draft.rescoreProfileName then some load.2 else none).getLast?.elim
        [] (·.stages)).filter (·.applies draft.phraseRescoreQuery draft.scoreFunctions))
      (draft.rescore (RescoreProfiles.ofLoads loads)) := by
  rw [rescore_builder, RescoreProfiles.get?_ofLoads]
  split
  · next hunknown =>
      rw [hunknown]
      exact .nil
  · next profile hfound =>
      rw [hfound]
      exact profile.gives_chain draft.phraseRescoreQuery draft.scoreFunctions

/-- The rescoring chain, from registrations to stages. In every draft it consists of the
stages of the profile that was loaded last under the name in force, in their order, those
left out that have nothing to score with: phrase stages if no phrase was set, function
stages if no function was added. Each of the others has its own window, weights and score
mode, and scores with the phrase that was set last, or with all the functions that were
added.

Unless a name was set or used before, the name in force is the parameter of the settings,
or else the last name registered for rescoring in their context, or else the last fallback
for rescoring, or else the default; other registrations have no influence on it. -/
theorem rescore_of_registrations (settings : Settings) (registrations : List Registration)
    (loads : List (String × RescoreProfile)) (steps : List Step) :
    let start (registrations : List Registration) : Draft :=
      fresh settings (ProfileTable.ofRegistrations registrations).service
    let after (registrations : List Registration) : Draft :=
      (runSteps (start registrations) steps).1
    let draft := after registrations
    let context := draft.settings.profileContext
    let phrase := ((history settings steps).filterMap Change.phraseRescoreQuery?).getLast?
    let functions := (history settings steps).filterMap Change.scoreFunction?
    ((∀ name, .change (.setRescoreProfile name) ∉ steps) →
      firstUse .rescore (start registrations) steps = none →
        draft.rescoreProfileName =
          (draft.settings.profileParams.get? "rescore_profile"
            <|> (registrations.filterMap (Registration.nameFor? .rescore context)).getLast?
            <|> (registrations.filterMap (Registration.fallbackFor? .rescore)).getLast?).getD
              "default" ∧
        ∀ others : List Registration,
          others.filter (·.concerns .rescore context) =
            registrations.filter (·.concerns .rescore context) →
          firstUse .rescore (start others) steps = none →
          (after others).rescoreProfileName = draft.rescoreProfileName) ∧
    List.Forall₂ (RescoreStage.Gives phrase functions)
      (((loads.filterMap fun load =>
          if load.1 = draft.rescoreProfileName then some load.2 else none).getLast?.elim
        [] (·.stages)).filter (·.applies phrase functions))
      (draft.rescore (RescoreProfiles.ofLoads loads)) := by
  intro start after draft context phrase functions
  have hsettings : draft.settings = settingsAfter settings steps := settings_runSteps _ steps
  refine ⟨?_, ?_⟩
  · intro hset hunused
    have hname (rs : List Registration) (hunused : firstUse .rescore (start rs) steps = none) :
        (after rs).rescoreProfileName =
          (ProfileTable.ofRegistrations rs).choose .rescore context
            draft.settings.profileParams := by
      have hchosen := rescoreProfileName_of_unused settings
        (ProfileTable.ofRegistrations rs).service steps hset hunused
      rw [← hsettings] at hchosen
      exact hchosen
    refine ⟨?_, ?_⟩
    · rw [hname registrations hunused]
      exact ProfileTable.choose_ofRegistrations .rescore context registrations _
    · intro others hothers hunusedOthers
      rw [hname others hunusedOthers, hname registrations hunused]
      exact ProfileTable.choose_congr .rescore context hothers _
  · have hphrase : draft.phraseRescoreQuery = phrase := phraseRescoreQuery_runSteps settings _ steps
    have hfunctions : draft.scoreFunctions = functions := scoreFunctions_runSteps settings _ steps
    rw [← hphrase, ← hfunctions]
    exact draft.gives_rescore loads

/-- Names for several contexts and kinds, one of them registered twice. -/
def gardenNames : List Registration :=
  [.profile .rescore "garden" "classic", .fallback .rescore "plain",
    .profile .rescore "garden" "fancy", .profile .fulltext "garden" "words",
    .profile .rescore "kitchen" "spicy"]

/-- A profile that was loaded again with other stages. -/
def fancyProfile : List (String × RescoreProfile) :=
  [("fancy", ⟨[]⟩), ("classic", ⟨[{ kind := .functionScore, window := 512 }]⟩),
    ("fancy", ⟨[{ kind := .phrase, window := 64 }, { kind := .functionScore, window := 8 },
      { kind := .phrase, window := 4, scoreMode := "max" }]⟩)]

/-- The draft moves to the garden before the name is used. It has a phrase, but no
scoring functions. -/
theorem rescore_of_registrations_gardenNames :
    let steps : List Step := [.change (.setPhraseRescoreQuery (.phrase "all" "red rose" 1)),
      .read .query, .rebind { profileContext := "garden" }]
    let draft := (runSteps (fresh {} (ProfileTable.ofRegistrations gardenNames).service) steps).1
    draft.rescoreProfileName = "fancy" ∧
      (draft.rescore (RescoreProfiles.ofLoads fancyProfile)).length = 2 := by
  intro steps draft
  obtain ⟨hname, hchain⟩ := rescore_of_registrations {} gardenNames fancyProfile steps
  have hfancy : draft.rescoreProfileName = "fancy" := by
    refine (hname ?_ rfl).1
    intro name hset
    simp [steps] at hset
  exact ⟨hfancy, hchain.length_eq.symm⟩

end Draft

end SearchCompiler
