import SearchCompiler.Draft.Session
import SearchCompiler.Proofs.Folds

/-!
The history of a draft. A build makes its changes through the same operations
that are open to everyone, so whatever was done to a draft comes down to one
list of changes: those that were asked for and those that builds made. Reads
change nothing but the names of profiles, of which some are fixed, and moves to
other settings nothing but the settings.

So a run comes to the fold of its history, up to the settings and to the names
of profiles. A field of the draft can then be read off the history: a list has
grown by what the changes added to it, and a single value is the one set last.
-/

namespace SearchCompiler

/-- The changes that a step makes under the settings of the draft. -/
def Step.changes (settings : Settings) : Step → List Change
  | .change c => [c]
  | .build query _ =>
      if settings.maxLength.toNat < query.rawText.length then [] else query.changes settings
  | .rebind _ | .read _ => []

/-- The settings after a step. -/
def Step.settings (settings : Settings) : Step → Settings
  | .rebind settings => settings
  | _ => settings

/-- The changes that a run of steps makes, in their order. -/
def history (settings : Settings) : List Step → List Change
  | [] => []
  | step :: rest => step.changes settings ++ history (step.settings settings) rest

/-- The settings in force after a run of steps. -/
def settingsAfter (settings : Settings) (steps : List Step) : Settings :=
  steps.foldl Step.settings settings

namespace Draft

section Names

theorem settings_unnamed (draft : Draft) : draft.unnamed.settings = draft.settings := rfl

theorem settings_withSettings (draft : Draft) (settings : Settings) :
    (draft.withSettings settings).settings = settings := rfl

theorem withSettings_eq {draft : Draft} {settings : Settings} (h : draft.settings = settings) :
    draft.withSettings settings = draft := by
  subst h
  rfl

theorem settings_of_unnamed {d e : Draft} (h : d.unnamed = e.unnamed) :
    d.settings = e.settings := by
  rw [← settings_unnamed d, h, settings_unnamed]

theorem settings_apply (draft : Draft) (c : Change) :
    (draft.apply c).settings = draft.settings := by
  cases c <;> rfl

theorem settings_foldl_apply (changes : List Change) (draft : Draft) :
    (changes.foldl apply draft).settings = draft.settings :=
  foldl_keeps settings settings_apply changes draft

theorem profiles_foldl_apply (changes : List Change) (draft : Draft) :
    (changes.foldl apply draft).profiles = draft.profiles :=
  foldl_keeps profiles (fun _ c => by cases c <;> rfl) changes draft

/-- Drafts that differ in the names of profiles at most still do after a change. -/
theorem unnamed_apply {d e : Draft} (h : d.unnamed = e.unnamed) (c : Change) :
    (d.apply c).unnamed = (e.apply c).unnamed := by
  have hname (d : Draft) : (d.apply c).unnamed = (d.unnamed.apply c).unnamed := by
    cases c <;> rfl
  rw [hname, h, ← hname]

theorem unnamed_foldl {d e : Draft} (h : d.unnamed = e.unnamed) (changes : List Change) :
    (changes.foldl apply d).unnamed = (changes.foldl apply e).unnamed := by
  induction changes generalizing d e with
  | nil => exact h
  | cons c rest ih => exact ih (unnamed_apply h c)

/-- Changes do not look at the settings. -/
theorem foldl_withSettings (changes : List Change) (draft : Draft) (settings : Settings) :
    changes.foldl apply (draft.withSettings settings) =
      (changes.foldl apply draft).withSettings settings := by
  induction changes generalizing draft with
  | nil => rfl
  | cons c rest ih =>
      have happly : (draft.withSettings settings).apply c =
          (draft.apply c).withSettings settings := by cases c <;> rfl
      rw [List.foldl_cons, List.foldl_cons, happly, ih]

theorem unnamed_fixProfile (draft : Draft) (kind : ProfileKind) :
    (draft.fixProfile kind).unnamed = draft.unnamed := by
  cases kind <;> rfl

theorem unnamed_announced (draft : Draft) (logged : Bool) :
    (draft.announced logged).unnamed = draft.unnamed := by
  cases logged <;> rfl

theorem unnamed_settle (draft : Draft) (question : NameQuestion) :
    (draft.settle question).unnamed = draft.unnamed := by
  obtain ⟨kind, copy⟩ := question
  cases copy with
  | none => exact unnamed_fixProfile draft kind
  | some settings => rfl

theorem unnamed_follow (plan : RescorePlan) (draft : Draft) :
    (plan.follow draft).2.unnamed = draft.unnamed := by
  induction plan generalizing draft with
  | done chain => rfl
  | ask question next ih =>
      exact (ih _ (draft.settle question)).trans (unnamed_settle draft question)

/-- A read fixes names of profiles at most. -/
theorem unnamed_leave (draft : Draft) (what : Read) :
    (what.leave draft).unnamed = draft.unnamed := by
  cases what with
  | rescore | request => exact unnamed_follow _ draft
  | _ => rfl

end Names

section Builds

variable {draft result : Draft} {query : Query} {logged : Bool}

/-- A build succeeds when the text is short enough, and then comes to its
changes. -/
theorem build_eq_ok_iff :
    draft.build query logged = .ok result ↔
      query.rawText.length ≤ draft.settings.maxLength.toNat ∧
        (draft.announced logged).absorb query = result := by
  rw [build, ← Nat.not_lt]
  split
  · next hlong => simp [hlong]
  · next hshort => simp [hshort]

/-- A text that is short enough is accepted. -/
theorem build_eq_absorb (hshort : query.rawText.length ≤ draft.settings.maxLength.toNat) :
    draft.build query false = .ok (draft.absorb query) :=
  build_eq_ok_iff.mpr ⟨hshort, rfl⟩

/-- The announcement of a build changes nothing about it but a name. -/
theorem unnamed_absorb (draft : Draft) (query : Query) (logged : Bool) :
    ((draft.announced logged).absorb query).unnamed = (draft.absorb query).unnamed := by
  have hsettings : (draft.announced logged).settings = draft.settings := by
    cases logged <;> rfl
  rw [absorb, absorb, hsettings]
  exact unnamed_foldl (unnamed_announced draft logged) _

/-- A build that is refused leaves the draft alone. -/
theorem run_build (draft : Draft) (query : Query) (logged : Bool) :
    Step.run draft (.build query logged) =
      if draft.settings.maxLength.toNat < query.rawText.length then
        (draft, .refused (.tooLong query.rawText.length draft.settings.maxLength.toNat))
      else ((draft.announced logged).absorb query, .done) := by
  by_cases hlong : draft.settings.maxLength.toNat < query.rawText.length
  · simp [Step.run, build, hlong]
  · simp [Step.run, build, hlong]

end Builds

section Runs

theorem runSteps_cons (draft : Draft) (step : Step) (rest : List Step) :
    runSteps draft (step :: rest) =
      ((runSteps (step.run draft).1 rest).1,
        (step.run draft).2 :: (runSteps (step.run draft).1 rest).2) := rfl

/-- A step comes to its changes. -/
theorem unnamed_run (draft : Draft) (step : Step) :
    (step.run draft).1.unnamed =
      (((step.changes draft.settings).foldl apply draft).withSettings
        (step.settings draft.settings)).unnamed := by
  cases step with
  | change c =>
      have hsettings : (draft.apply c).settings = draft.settings := settings_apply draft c
      exact congrArg unnamed (withSettings_eq hsettings).symm
  | build query logged =>
      rw [run_build]
      simp only [Step.changes, Step.settings]
      split
      · exact congrArg unnamed (withSettings_eq rfl).symm
      · have hsettings : (draft.absorb query).settings = draft.settings :=
          settings_foldl_apply _ draft
        rw [unnamed_absorb, ← absorb, withSettings_eq hsettings]
  | rebind settings => rfl
  | read what =>
      exact (unnamed_leave draft what).trans (congrArg unnamed (withSettings_eq rfl).symm)

theorem settings_run (draft : Draft) (step : Step) :
    (step.run draft).1.settings = step.settings draft.settings := by
  have hsettings := congrArg Draft.settings (unnamed_run draft step)
  rwa [settings_unnamed, settings_unnamed, settings_withSettings] at hsettings

/-- A run comes to its history. -/
theorem unnamed_runSteps (draft : Draft) (steps : List Step) :
    (runSteps draft steps).1.unnamed =
      (((history draft.settings steps).foldl apply draft).withSettings
        (settingsAfter draft.settings steps)).unnamed := by
  induction steps generalizing draft with
  | nil => rfl
  | cons step rest ih =>
      have hfold := unnamed_foldl (unnamed_run draft step)
        (history (step.settings draft.settings) rest)
      rw [foldl_withSettings] at hfold
      have hrest := ih (step.run draft).1
      rw [settings_run] at hrest
      rw [history, List.foldl_append]
      exact hrest.trans
        (congrArg (withSettings · (settingsAfter (step.settings draft.settings) rest)) hfold)

theorem settings_runSteps (draft : Draft) (steps : List Step) :
    (runSteps draft steps).1.settings = settingsAfter draft.settings steps := by
  have hsettings := congrArg Draft.settings (unnamed_runSteps draft steps)
  rwa [settings_unnamed, settings_unnamed, settings_withSettings] at hsettings

end Runs

end Draft

end SearchCompiler
