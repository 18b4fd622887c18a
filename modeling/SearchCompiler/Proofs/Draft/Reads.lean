import SearchCompiler.Proofs.Draft.Merge

/-!
Reads within a run. A read leaves a draft as it is, except that a profile name
that is used for the first time is chosen then and kept, also when the draft
moves to other settings afterwards. Which names are used is up to the rescore
builders, to those who ask for a name outright, and to those who have the
announcements of builds recorded.

So reads cannot be told from the answers to other steps but by these names:
leaving some of them out changes no answer that needs no profile name, and of
the others only those for which the first use of the name moves to settings
under which another one is chosen.
-/

namespace SearchCompiler

/-- Whether a question fixes the name of a kind of profile in the draft. -/
def NameQuestion.fixes (kind : ProfileKind) (question : NameQuestion) : Bool :=
  question.kind == kind && question.copy.isNone

/-- The questions that come up when a plan is followed. -/
def RescorePlan.questions : RescorePlan → Draft → List NameQuestion
  | .done _, _ => []
  | .ask question next, draft =>
      question :: (next (draft.nameFor question)).questions (draft.settle question)

/-- The questions that a read asks. -/
def Read.questions (draft : Draft) : Read → List NameQuestion
  | .rescore builder | .request _ builder => (builder.plan draft.unnamed).questions draft
  | .rescoreProfile => [{ kind := .rescore }]
  | .fulltextProfile => [{ kind := .fulltext }]
  | .query | .highlight _ | .suggestion | .searchType | .usesFeature _ => []

namespace Step

/-- The questions that a step asks. A build asks for a name when it goes through
and its announcement is recorded. -/
def questions (draft : Draft) : Step → List NameQuestion
  | .read what => what.questions draft
  | .build query logged =>
      if draft.settings.maxLength.toNat < query.rawText.length then []
      else if logged then [{ kind := .fulltext }] else []
  | .change _ | .rebind _ => []

/-- Whether a step uses the name of a kind of profile of the draft itself. -/
def fixes (kind : ProfileKind) (draft : Draft) (step : Step) : Bool :=
  (step.questions draft).any (·.fixes kind)

/-- The name that a step sets for a kind of profile. -/
def sets? (kind : ProfileKind) : Step → Option String
  | .change (.setRescoreProfile name) => if kind = .rescore then some name else none
  | .change (.setFulltextProfile name) => if kind = .fulltext then some name else none
  | _ => none

end Step

/-- The name that a run sets last. -/
def lastSet (kind : ProfileKind) (steps : List Step) : Option String :=
  (steps.filterMap (Step.sets? kind)).getLast?

/-- The settings under which a name is first used in a run, if it is. -/
def firstUse (kind : ProfileKind) (draft : Draft) : List Step → Option Settings
  | [] => none
  | step :: rest =>
      if step.fixes kind draft then some draft.settings
      else firstUse kind (step.run draft).1 rest

/-- What is left of a run when some of its reads are left out. -/
inductive Thins : List Step → List Step → Prop
  | nil : Thins [] []
  | keep (step : Step) {steps kept : List Step} :
      Thins steps kept → Thins (step :: steps) (step :: kept)
  | drop (what : Read) {steps kept : List Step} :
      Thins steps kept → Thins (.read what :: steps) kept

namespace Draft

/-- The name that is set for a kind of profile, or was chosen before. -/
def kept (draft : Draft) : ProfileKind → Option String
  | .rescore => draft.rescoreProfile
  | .fulltext => draft.fulltextProfile

/-- The name that the service chooses under given settings. -/
def choiceUnder (draft : Draft) (kind : ProfileKind) (settings : Settings) : String :=
  draft.profiles.choose kind settings.profileContext settings.profileParams

/-- The settings under which the name that a question is about is chosen, if it was not
set: those of its first use in a run, or else those of the copy that is asked, or else
those after the run. -/
def settingsOfUse (draft : Draft) (question : NameQuestion) (steps : List Step) : Settings :=
  (firstUse question.kind draft steps).getD
    (question.copy.getD (settingsAfter draft.settings steps))

/-- The answer to a question after a run: the name set last, or else the one kept from
before the run, or else the choice of the service. -/
def nameAfter (draft : Draft) (question : NameQuestion) (steps : List Step) : String :=
  ((lastSet question.kind steps).or (draft.kept question.kind)).getD
    (draft.choiceUnder question.kind (draft.settingsOfUse question steps))

section Questions

variable (draft : Draft) (kind : ProfileKind)

theorem nameFor_eq (question : NameQuestion) :
    draft.nameFor question = (draft.kept question.kind).getD
      (draft.choiceUnder question.kind (question.copy.getD draft.settings)) := by
  obtain ⟨kind, copy⟩ := question
  cases copy <;> cases kind <;> rfl

theorem choiceUnder_of_unnamed {d e : Draft} (h : d.unnamed = e.unnamed) (settings : Settings) :
    d.choiceUnder kind settings = e.choiceUnder kind settings := by
  have hchoice := congrArg (choiceUnder · kind settings) h
  exact hchoice

/-- A question about the draft fixes the name, one about a copy does not. -/
theorem kept_settle (question : NameQuestion) :
    (draft.settle question).kept kind = (draft.kept kind).or
      (if question.fixes kind then some (draft.choiceUnder kind draft.settings) else none) := by
  obtain ⟨asked, copy⟩ := question
  cases copy with
  | some settings => simp [settle, NameQuestion.fixes]
  | none =>
      have hfix : (draft.fixProfile asked).kept kind =
          if asked = kind then
            some ((draft.kept kind).getD (draft.choiceUnder kind draft.settings))
          else draft.kept kind := by
        cases asked <;> cases kind <;> rfl
      change (draft.fixProfile asked).kept kind = _
      rw [hfix]
      by_cases heq : asked = kind
      · cases draft.kept kind <;> simp [NameQuestion.fixes, heq]
      · simp [NameQuestion.fixes, heq]

/-- After a question the same name answers it again, and other names are as before. -/
theorem nameFor_settle (question other : NameQuestion) :
    (draft.settle question).nameFor other =
      if question.fixes other.kind then draft.nameFor question else draft.nameFor other := by
  have hunnamed := unnamed_settle draft question
  rw [nameFor_eq, nameFor_eq, nameFor_eq, kept_settle, settings_of_unnamed hunnamed,
    choiceUnder_of_unnamed _ hunnamed]
  obtain ⟨asked, copy⟩ := question
  by_cases hfixes : NameQuestion.fixes other.kind ⟨asked, copy⟩
  · obtain ⟨rfl, rfl⟩ : asked = other.kind ∧ copy = none := by
      simpa [NameQuestion.fixes] using hfixes
    rw [if_pos hfixes, if_pos hfixes]
    cases draft.kept other.kind <;> rfl
  · rw [if_neg hfixes, if_neg hfixes, Option.or_none]

/-- A plan keeps the names that it asks for. -/
theorem kept_follow (plan : RescorePlan) :
    (plan.follow draft).2.kept kind = (draft.kept kind).or
      (if (plan.questions draft).any (·.fixes kind) then
        some (draft.choiceUnder kind draft.settings)
      else none) := by
  induction plan generalizing draft with
  | done chain => exact Option.or_none.symm
  | ask question next ih =>
      have hunnamed := unnamed_settle draft question
      rw [RescorePlan.follow, RescorePlan.questions, ih, settings_of_unnamed hunnamed,
        choiceUnder_of_unnamed _ hunnamed, kept_settle, List.any_cons, Option.or_assoc]
      cases question.fixes kind <;> simp

end Questions

section Names

variable (draft : Draft) (kind : ProfileKind)

theorem kept_absorb (query : Query) : (draft.absorb query).kept kind = draft.kept kind := by
  rw [absorb_eq]
  cases kind <;> rfl

/-- A step keeps the name that it sets, or else the one kept before, or else the one it
uses. -/
theorem kept_run (step : Step) :
    (step.run draft).1.kept kind = (step.sets? kind).or ((draft.kept kind).or
      (if step.fixes kind draft then some (draft.choiceUnder kind draft.settings) else none)) := by
  -- Who asks for one name only follows a plan of one question.
  have hasked (question : NameQuestion) :=
    kept_follow draft kind (.ask question fun _ => .done [])
  cases step with
  | change c =>
      change _ = (Step.sets? kind (.change c)).or ((draft.kept kind).or none)
      rw [Option.or_none]
      cases c <;> cases kind <;> rfl
  | build query logged =>
      rw [run_build, Step.fixes, Step.questions]
      split
      · exact Option.or_none.symm
      · dsimp only
        rw [kept_absorb]
        cases logged with
        | false => exact Option.or_none.symm
        | true => exact hasked { kind := .fulltext }
  | rebind settings => cases kind <;> exact Option.or_none.symm
  | read what =>
      cases what with
      | rescore | request => exact kept_follow draft kind _
      | rescoreProfile => exact hasked { kind := .rescore }
      | fulltextProfile => exact hasked { kind := .fulltext }
      | _ => exact Option.or_none.symm

theorem profiles_run (step : Step) : (step.run draft).1.profiles = draft.profiles := by
  have hrun := congrArg profiles (unnamed_run draft step)
  exact hrun.trans (profiles_foldl_apply _ draft)

theorem profiles_runSteps (steps : List Step) :
    (runSteps draft steps).1.profiles = draft.profiles := by
  have hrun := congrArg profiles (unnamed_runSteps draft steps)
  exact hrun.trans (profiles_foldl_apply _ draft)

/-- The name kept after a run: the one set last, or else the one kept before, or else the
choice at the first use. -/
theorem kept_runSteps (steps : List Step) :
    (runSteps draft steps).1.kept kind = (lastSet kind steps).or ((draft.kept kind).or
      ((firstUse kind draft steps).map (draft.choiceUnder kind))) := by
  induction steps generalizing draft with
  | nil => exact Option.or_none.symm
  | cons step rest ih =>
      have hlast : lastSet kind (step :: rest) = (lastSet kind rest).or (step.sets? kind) := by
        unfold lastSet
        cases hset : step.sets? kind with
        | none => simp [hset]
        | some name => simp [hset, List.getLast?_cons]
      have hchoice : (step.run draft).1.choiceUnder kind = draft.choiceUnder kind := by
        funext settings
        rw [choiceUnder, profiles_run, choiceUnder]
      refine (ih (step.run draft).1).trans ?_
      rw [kept_run, hchoice, hlast, firstUse]
      simp only [Option.or_assoc]
      cases step.fixes kind draft <;> simp

/-- The answer to a question after every run. -/
theorem nameFor_runSteps (question : NameQuestion) (steps : List Step) :
    (runSteps draft steps).1.nameFor question = draft.nameAfter question steps := by
  have hchoice (settings : Settings) :
      (runSteps draft steps).1.choiceUnder question.kind settings =
        draft.choiceUnder question.kind settings := by
    rw [choiceUnder, profiles_runSteps, choiceUnder]
  rw [nameFor_eq, kept_runSteps, hchoice, settings_runSteps, nameAfter, settingsOfUse]
  cases lastSet question.kind steps <;> cases draft.kept question.kind <;>
    cases firstUse question.kind draft steps <;> rfl

end Names

section Alike

variable {d e : Draft}

/-- The chain of a plan depends on the answers to its questions alone. -/
theorem follow_of_unnamed (plan : RescorePlan) (h : d.unnamed = e.unnamed)
    (hname : ∀ question ∈ plan.questions d, d.nameFor question = e.nameFor question) :
    (plan.follow d).1 = (plan.follow e).1 := by
  induction plan generalizing d e with
  | done chain => rfl
  | ask question next ih =>
      have hfirst := hname question List.mem_cons_self
      rw [RescorePlan.follow, RescorePlan.follow, ← hfirst]
      refine ih _ ?_ fun other hother => ?_
      · rw [unnamed_settle, unnamed_settle, h]
      · have hlater := hname other (List.mem_cons_of_mem question hother)
        rw [nameFor_settle, nameFor_settle, hfirst, hlater]

theorem rescore_of_unnamed (builder : RescoreBuilder) (h : d.unnamed = e.unnamed)
    (hname : ∀ question ∈ (builder.plan d.unnamed).questions d,
      d.nameFor question = e.nameFor question) : d.rescore builder = e.rescore builder := by
  rw [rescore, rescore, rescoring, rescoring, ← h]
  exact follow_of_unnamed (builder.plan d.unnamed) h hname

/-- Drafts that differ in the names of profiles at most answer a read alike when its
questions have the same answers. -/
theorem answer_of_unnamed (what : Read) (h : d.unnamed = e.unnamed)
    (hname : ∀ question ∈ what.questions d, d.nameFor question = e.nameFor question) :
    what.answer d = what.answer e := by
  have hpart {α : Type} (part : Draft → α) (hframe : ∀ d, part d = part d.unnamed) :
      part d = part e := by rw [hframe d, h, ← hframe]
  cases what with
  | rescore builder => exact congrArg Answer.rescore (rescore_of_unnamed builder h hname)
  | request highlighter builder =>
      have hchain := rescore_of_unnamed builder h hname
      have hquery : d.query = e.query := hpart query fun _ => rfl
      have hhighlight : d.highlight highlighter = e.highlight highlighter :=
        hpart (highlight · highlighter) fun _ => rfl
      have haggregations : d.aggregations = e.aggregations := hpart aggregations fun _ => rfl
      have hsuggestion : d.suggestion = e.suggestion := hpart suggestion fun _ => rfl
      simp only [Read.answer, request, hchain, hquery, hhighlight, haggregations, hsuggestion]
  | rescoreProfile => exact congrArg Answer.name (hname _ List.mem_cons_self)
  | fulltextProfile => exact congrArg Answer.name (hname _ List.mem_cons_self)
  | query => exact hpart (Read.query.answer ·) fun _ => rfl
  | highlight highlighter => exact hpart ((Read.highlight highlighter).answer ·) fun _ => rfl
  | suggestion => exact hpart (Read.suggestion.answer ·) fun _ => rfl
  | searchType => exact hpart (Read.searchType.answer ·) fun _ => rfl
  | usesFeature name => exact hpart ((Read.usesFeature name).answer ·) fun _ => rfl

end Alike

section Thinned

variable {steps rest : List Step} (settings : Settings)

theorem history_of_thins (hthins : Thins steps rest) :
    history settings steps = history settings rest := by
  induction hthins generalizing settings with
  | nil => rfl
  | keep step _ ih => rw [history, history, ih]
  | drop what _ ih => exact ih settings

theorem settingsAfter_of_thins (hthins : Thins steps rest) :
    settingsAfter settings steps = settingsAfter settings rest := by
  induction hthins generalizing settings with
  | nil => rfl
  | keep step _ ih => exact ih (step.settings settings)
  | drop what _ ih => exact ih settings

/-- Without some of its reads a run comes to the same draft, up to the names of profiles. -/
theorem unnamed_of_thins (draft : Draft) (hthins : Thins steps rest) :
    (runSteps draft steps).1.unnamed = (runSteps draft rest).1.unnamed := by
  rw [unnamed_runSteps, unnamed_runSteps, history_of_thins _ hthins,
    settingsAfter_of_thins _ hthins]

theorem lastSet_of_thins (kind : ProfileKind) (hthins : Thins steps rest) :
    lastSet kind steps = lastSet kind rest := by
  have hsets : steps.filterMap (Step.sets? kind) = rest.filterMap (Step.sets? kind) := by
    induction hthins with
    | nil => rfl
    | keep step _ ih => rw [List.filterMap_cons, List.filterMap_cons, ih]
    | drop what _ ih => exact ih
  rw [lastSet, lastSet, hsets]

end Thinned

/-- Reads are unobservable but for the moment at which a profile name is chosen.
After every run of steps, the answer to a question for a name is the name set last,
or else the choice under the settings at its first use. Leaving out some of the
reads changes the answer to no later step, unless that is a read itself and asks for
the name of a profile that was never set, and for which the service makes another
choice under the settings of its first use in the shorter run than under those of
its first use in the longer one. -/
theorem answer_of_thins (draft : Draft) (steps : List Step) :
    (Step.run (runSteps draft steps).1 (.read .rescoreProfile)).2 =
        .name (draft.nameAfter { kind := .rescore } steps) ∧
    (Step.run (runSteps draft steps).1 (.read .fulltextProfile)).2 =
        .name (draft.nameAfter { kind := .fulltext } steps) ∧
    ∀ rest, Thins steps rest → ∀ step : Step,
      (∀ what, step = .read what → ∀ question ∈ what.questions (runSteps draft steps).1,
        lastSet question.kind steps = none → draft.kept question.kind = none →
        draft.choiceUnder question.kind (draft.settingsOfUse question steps) =
          draft.choiceUnder question.kind (draft.settingsOfUse question rest)) →
      (step.run (runSteps draft steps).1).2 = (step.run (runSteps draft rest).1).2 := by
  refine ⟨congrArg Answer.name (nameFor_runSteps draft { kind := .rescore } steps),
    congrArg Answer.name (nameFor_runSteps draft { kind := .fulltext } steps), ?_⟩
  intro rest hthins step hchoice
  have hunnamed := unnamed_of_thins draft hthins
  cases step with
  | change c => rfl
  | rebind settings => rfl
  | build query logged =>
      rw [run_build, run_build, settings_of_unnamed hunnamed]
      split <;> rfl
  | read what =>
      refine answer_of_unnamed what hunnamed fun question hasked => ?_
      rw [nameFor_runSteps, nameFor_runSteps, nameAfter, nameAfter,
        ← lastSet_of_thins question.kind hthins]
      cases hset : lastSet question.kind steps with
      | some name => rfl
      | none =>
          cases hkept : draft.kept question.kind with
          | some name => rfl
          | none => exact hchoice what rfl question hasked hset hkept

/-- A service that chooses other profiles in another context. -/
def twoContexts : ProfileService :=
  ProfileTable.service
    { names := [((.rescore, "default"), "classic"), ((.rescore, "other"), "fancy"),
        ((.fulltext, "default"), "words"), ((.fulltext, "other"), "phrases")] }

/-- The rescore name is used early or late, but in the same context. The full-text name
is used by a build if its announcement is recorded, and not before it is read otherwise. -/
theorem answer_of_thins_sameContext :
    let steps : List Step := [.read .rescoreProfile, .rebind { namespaceField := "ns" }]
    let rest : List Step := [.rebind { namespaceField := "ns" }]
    let moved (logged : Bool) : List Step :=
      [.build redRose logged, .rebind { profileContext := "other" }]
    let answer (steps : List Step) (what : Read) : Answer :=
      (Step.run (runSteps (fresh {} twoContexts) steps).1 (.read what)).2
    Thins steps rest ∧ answer steps .rescoreProfile = answer rest .rescoreProfile ∧
      answer (moved true) .fulltextProfile = .name "words" ∧
      answer (moved false) .fulltextProfile = .name "phrases" := by
  intro steps rest moved answer
  have hthins : Thins steps rest := .drop _ (.keep _ .nil)
  refine ⟨hthins, (answer_of_thins (fresh {} twoContexts) steps).2.2 rest hthins _ ?_,
    (answer_of_thins (fresh {} twoContexts) (moved true)).2.1.trans ?_,
    (answer_of_thins (fresh {} twoContexts) (moved false)).2.1.trans ?_⟩
  · rintro _ ⟨⟩ question hasked _ _
    obtain rfl := List.mem_singleton.mp hasked
    rfl
  · rfl
  · rfl

/-- Another context tells whether the name was read before. -/
theorem not_answer_of_thins :
    ¬ ∀ (draft : Draft) (steps rest : List Step) (step : Step), Thins steps rest →
      (step.run (runSteps draft steps).1).2 = (step.run (runSteps draft rest).1).2 := by
  intro h
  have hsame := h (fresh {} twoContexts)
    [.read .rescoreProfile, .rebind { profileContext := "other" }]
    [.rebind { profileContext := "other" }] (.read .rescoreProfile) (.drop _ (.keep _ .nil))
  have hnames : "classic" = "fancy" := Answer.name.inj hsame
  exact absurd hnames (by decide)

end Draft

end SearchCompiler
