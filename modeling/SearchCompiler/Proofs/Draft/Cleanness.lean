import SearchCompiler.Proofs.Draft.Merge

/-!
What the dirty flag tells. Once set it stays, and it is set by the changes that
are not harmless and by builds that go through, so after a run it is set
exactly if there was such a step. A draft that is still clean holds nothing
beyond what its harmless changes put there and the profile names that reads
fixed, and none of this shows in the request: there is no suggester for the
prefixes and nothing for any rescore profile to score with.
-/

namespace SearchCompiler

/-- A step that makes a draft dirty: a change of any but three kinds, or a
build that goes through. -/
inductive Step.Dirties (draft : Draft) : Step → Prop
  | change {c : Change} (htext : ∀ text, c ≠ .addSuggestPrefix text)
      (hterm : ∀ term, c ≠ .setRawTerm term) (hwarning : ∀ warning, c ≠ .addWarning warning) :
      Dirties draft (.change c)
  | build {query : Query} {logged : Bool} {built : Draft}
      (hbuilt : draft.build query logged = .ok built) : Dirties draft (.build query logged)

/-- A stage without a phrase and without scoring functions has nothing to score
with, so no profile comes to anything. -/
theorem RescoreProfile.chain_none_nil (profile : RescoreProfile) : profile.chain none [] = [] := by
  refine List.filterMap_eq_nil_iff.mpr fun stage _ => ?_
  have hquery : stage.query? none [] = none := by
    cases hkind : stage.kind <;> simp [RescoreStage.query?, hkind]
  rw [hquery, Option.map_none]

namespace Draft

section Flag

variable (draft : Draft)

theorem dirties_change_iff (c : Change) :
    (Step.change c).Dirties draft ↔ c.isHarmless = false := by
  constructor
  · rintro ⟨htext, hterm, hwarning⟩
    cases c with
    | addSuggestPrefix text => exact absurd rfl (htext text)
    | setRawTerm term => exact absurd rfl (hterm term)
    | addWarning warning => exact absurd rfl (hwarning warning)
    | _ => rfl
  · intro hharm
    refine .change ?_ ?_ ?_ <;> (rintro _ rfl; cases hharm)

/-- A step makes a draft dirty or leaves its flag alone. -/
theorem dirty_run_iff (step : Step) :
    (step.run draft).1.dirty = true ↔ draft.dirty = true ∨ step.Dirties draft := by
  cases step with
  | change c =>
      rw [dirties_change_iff]
      simp [Step.run, apply]
  | build query logged =>
      cases hbuild : draft.build query logged with
      | ok built =>
          have hbuilt : built.dirty = true := by
            rw [eq_absorb_of_build hbuild, absorb_eq]
          simp only [Step.run, hbuild]
          exact iff_of_true hbuilt (.inr (.build hbuild))
      | error error =>
          have hnever : ¬ (Step.build query logged).Dirties draft := by
            rintro ⟨⟩
            next hbuilt => cases hbuild.symm.trans hbuilt
          simp only [Step.run, hbuild]
          exact (or_iff_left hnever).symm
  | rebind settings =>
      have hnever : ¬ (Step.rebind settings).Dirties draft := by rintro ⟨⟩
      exact (or_iff_left hnever).symm
  | read what =>
      have hleave := congrArg dirty (unnamed_leave draft what)
      have hnever : ¬ (Step.read what).Dirties draft := by rintro ⟨⟩
      rw [or_iff_left hnever]
      exact iff_of_eq (congrArg (· = true) hleave)

/-- A run makes a draft dirty at one of its steps. -/
theorem dirty_runSteps_iff (steps : List Step) :
    (runSteps draft steps).1.dirty = true ↔ draft.dirty = true ∨
      ∃ before step after, steps = before ++ step :: after ∧
        step.Dirties (runSteps draft before).1 := by
  induction steps generalizing draft with
  | nil => simp [runSteps]
  | cons first rest ih =>
      refine (ih (first.run draft).1).trans ?_
      rw [dirty_run_iff, or_assoc]
      refine or_congr_right ?_
      constructor
      · rintro (hfirst | ⟨before, step, after, rfl, hstep⟩)
        · exact ⟨[], first, rest, rfl, hfirst⟩
        · exact ⟨first :: before, step, after, rfl, hstep⟩
      · rintro ⟨before, step, after, hsteps, hstep⟩
        cases before with
        | nil =>
            obtain ⟨rfl, rfl⟩ := List.cons.inj hsteps
            exact .inl hstep
        | cons head before =>
            obtain ⟨rfl, rfl⟩ := List.cons.inj hsteps
            exact .inr ⟨before, step, after, rfl, hstep⟩

end Flag

/-- The draft without what it can hold while it is clean. -/
def withoutHarmless (draft : Draft) : Draft :=
  { draft with
    suggestPrefixes := []
    rawTerm := none
    warnings := []
    rescoreProfile := none
    fulltextProfile := none }

/-- A step after which a draft is clean leaves all else as it was, but for the
settings. -/
theorem withoutHarmless_run (draft : Draft) (step : Step)
    (hclean : (step.run draft).1.dirty = false) :
    (step.run draft).1.withoutHarmless =
      draft.withoutHarmless.withSettings (step.settings draft.settings) := by
  have hdirties : ¬ step.Dirties draft := fun h =>
    Bool.false_ne_true (hclean.symm.trans ((dirty_run_iff draft step).mpr (.inr h)))
  cases step with
  | change c =>
      have hharmless : c.isHarmless = true := by
        rwa [dirties_change_iff, Bool.not_eq_false] at hdirties
      cases c with
      | addSuggestPrefix | setRawTerm | addWarning =>
          simp [Step.run, apply, change, Change.isHarmless, withoutHarmless, withSettings,
            Step.settings]
      | _ => cases hharmless
  | build query logged =>
      cases hbuild : draft.build query logged with
      | ok built => exact absurd (.build hbuild) hdirties
      | error error =>
          simp only [Step.run, hbuild]
          rfl
  | rebind settings => rfl
  | read what =>
      have hleave := congrArg withoutHarmless (unnamed_leave draft what)
      exact hleave

theorem withoutHarmless_runSteps (draft : Draft) (steps : List Step)
    (hclean : (runSteps draft steps).1.dirty = false) :
    (runSteps draft steps).1.withoutHarmless =
      draft.withoutHarmless.withSettings (runSteps draft steps).1.settings := by
  induction steps generalizing draft with
  | nil => rfl
  | cons step rest ih =>
      -- The flag is never reset, so the draft was clean after the first step.
      have hfirst : (step.run draft).1.dirty = false := by
        rw [← Bool.not_eq_true] at hclean ⊢
        exact fun h => hclean ((dirty_runSteps_iff (step.run draft).1 rest).mpr (.inl h))
      refine (ih (step.run draft).1 hclean).trans ?_
      rw [withoutHarmless_run draft step hfirst]
      rfl

/-- A request for everything: all documents match, and they are highlighted as
their kind wants it. -/
def requestForAll (highlighter : Highlighter) : Json :=
  .object <|
    (((highlighter.configure .empty).filter (!·.isEmpty)).map fun config =>
      ("highlight", Json.ofTable config)).toList ++ [("query", Expr.matchAll.toJson)]

/-- Harmless changes and fixed profile names do not show in a request. -/
theorem request_eq_requestForAll {draft : Draft} {settings : Settings}
    {profiles : ProfileService} (hempty : draft.withoutHarmless = fresh settings profiles)
    (highlighter : Highlighter) (rescoreProfiles : RescoreProfiles) :
    draft.request highlighter rescoreProfiles = requestForAll highlighter := by
  have hpart {α : Type} (part : Draft → α) (hframe : part draft = part draft.withoutHarmless) :
      part draft = part (fresh settings profiles) := hframe.trans (congrArg part hempty)
  have hquery : draft.query = .matchAll := hpart query rfl
  have hhighlight : draft.highlight highlighter =
      ((highlighter.configure .empty).filter (!·.isEmpty)).map fun config =>
        { config, query := none } := hpart (·.highlight highlighter) rfl
  have haggregations : draft.aggregations = [] := hpart aggregations rfl
  -- Without a suggester the prefixes count for nothing.
  have hsuggestion : draft.suggestion = none := by
    have hsuggest : draft.suggest = none := hpart suggest rfl
    rw [suggestion, hsuggest, Option.map_none]
  have hrescore : draft.rescore rescoreProfiles = [] := by
    have hphrase : draft.phraseRescoreQuery = none := hpart phraseRescoreQuery rfl
    have hfunctions : draft.scoreFunctions = [] := hpart scoreFunctions rfl
    rw [rescore_builder, hphrase, hfunctions]
    split
    · rfl
    · next profile _ => exact profile.chain_none_nil
  rw [request, hquery, hhighlight, haggregations, hsuggestion, hrescore, requestForAll]
  cases (highlighter.configure .empty).filter (!·.isEmpty) <;> rfl

/-- The dirty flag is exact and sound. After a run from a fresh draft it is set
exactly if a change of other than the three harmless kinds was among the steps,
or a build that went through; and while it is not set, the request is that of
every fresh draft. -/
theorem dirty_exact_and_sound (settings : Settings) (profiles : ProfileService)
    (steps : List Step) :
    let start := fresh settings profiles
    let draft := (runSteps start steps).1
    (draft.dirty = true ↔ ∃ before step after, steps = before ++ step :: after ∧
      step.Dirties (runSteps start before).1) ∧
    (draft.dirty = false → ∀ highlighter (rescoreProfiles : RescoreProfiles),
      ∀ settings' profiles', draft.request highlighter rescoreProfiles =
        (fresh settings' profiles').request highlighter rescoreProfiles) := by
  intro start draft
  constructor
  · rw [dirty_runSteps_iff]
    exact or_iff_right Bool.false_ne_true
  · intro hclean highlighter rescoreProfiles settings' profiles'
    have hempty : draft.withoutHarmless = fresh draft.settings profiles :=
      withoutHarmless_runSteps start steps hclean
    have hfresh : (fresh settings' profiles').withoutHarmless = fresh settings' profiles' := rfl
    rw [request_eq_requestForAll hempty, request_eq_requestForAll hfresh]

/-- A prefix, a name that is read, and a query that is refused for its length. -/
def cleanRun : List Step :=
  [.change (.addSuggestPrefix "rose"), .read .rescoreProfile, .rebind { maxLength := 4 },
    .build redRose, .change (.setRawTerm "red rose")]

/-- The draft holds the prefix and the name, but asks for everything. -/
theorem dirty_exact_and_sound_cleanRun :
    let draft := (runSteps (fresh {} (ProfileTable.service {})) cleanRun).1
    let profiles := ({} : RescoreProfiles).register "default" ⟨[{ kind := .phrase, window := 8 }]⟩
    draft.suggestPrefixes = ["rose"] ∧ draft.rescoreProfile = some "default" ∧
      draft.dirty = false ∧
      draft.request .plain profiles = .object [("query", .object [("match_all", .object [])])] := by
  intro draft profiles
  have hclean : draft.dirty = false := by decide +kernel
  refine ⟨by decide +kernel, by decide +kernel, hclean, ?_⟩
  rw [(dirty_exact_and_sound {} (ProfileTable.service {}) cleanRun).2 hclean .plain profiles {}
    (ProfileTable.service {})]
  exact request_eq_requestForAll rfl .plain profiles

end Draft

end SearchCompiler
