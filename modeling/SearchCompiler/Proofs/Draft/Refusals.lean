import SearchCompiler.Proofs.Draft.Merge

/-!
Queries that are refused. A build looks at the length of the text as it was
typed before it does anything, and the length it accepts is that of the settings
in force at that moment. A refused build leaves the draft as it was in every
part, so nothing that comes later can tell that it was tried: a run can be
thinned of its refused builds, and what is left ends in the same draft and gets
the same answers.
-/

namespace SearchCompiler

/-- A step that is a build, with the answer that it was refused. -/
def isRefusedBuild : Step × Answer → Bool
  | (.build _ _, .refused _) => true
  | _ => false

/-- The steps of a run with their answers, without the builds that were
refused. -/
def acceptedSteps (draft : Draft) (steps : List Step) : List (Step × Answer) :=
  (steps.zip (runSteps draft steps).2).filter (!isRefusedBuild ·)

namespace Draft

section Steps

variable (draft : Draft)

/-- A build is refused exactly when its text is too long, with its length and
the length that is accepted, and succeeds otherwise. -/
theorem answer_build_iff (query : Query) (logged : Bool) :
    let limit := draft.settings.maxLength.toNat
    (∀ error, (Step.run draft (.build query logged)).2 = .refused error ↔
      limit < query.rawText.length ∧ error = .tooLong query.rawText.length limit) ∧
    ((Step.run draft (.build query logged)).2 = .done ↔ query.rawText.length ≤ limit) := by
  intro limit
  rw [run_build]
  by_cases hlong : limit < query.rawText.length
  · rw [if_pos hlong]
    simp [hlong, limit, eq_comm]
  · rw [if_neg hlong]
    simp [hlong, Nat.not_lt.mp hlong]

/-- What is refused changes nothing. -/
theorem run_of_isRefusedBuild {step : Step} (h : isRefusedBuild (step, (step.run draft).2)) :
    (step.run draft).1 = draft := by
  cases step with
  | build query logged =>
      rw [run_build] at h ⊢
      split at h
      · next hlong => rw [if_pos hlong]
      · cases h
  | change | rebind | read => cases h

end Steps

section Runs

/-- Each step gets the answer of the draft that the steps before it lead to. -/
theorem getElem?_answers (draft : Draft) (steps : List Step) (i : Nat) :
    (runSteps draft steps).2[i]? =
      steps[i]?.map fun step => (step.run (runSteps draft (steps.take i)).1).2 := by
  induction steps generalizing draft i with
  | nil => rfl
  | cons step rest ih =>
      cases i with
      | zero => rfl
      | succ i => exact ih (step.run draft).1 i

theorem acceptedSteps_cons (draft : Draft) (step : Step) (rest : List Step) :
    acceptedSteps draft (step :: rest) =
      if isRefusedBuild (step, (step.run draft).2) then acceptedSteps (step.run draft).1 rest
      else (step, (step.run draft).2) :: acceptedSteps (step.run draft).1 rest := by
  rw [acceptedSteps, runSteps_cons, List.zip_cons_cons, List.filter_cons, acceptedSteps]
  cases isRefusedBuild (step, (step.run draft).2) <;> rfl

/-- The steps that were not refused come to the same draft and the same
answers. -/
theorem runSteps_acceptedSteps (draft : Draft) (steps : List Step) :
    runSteps draft ((acceptedSteps draft steps).map Prod.fst) =
      ((runSteps draft steps).1, (acceptedSteps draft steps).map Prod.snd) := by
  induction steps generalizing draft with
  | nil => rfl
  | cons step rest ih =>
      have hrest := ih (step.run draft).1
      rw [acceptedSteps_cons]
      split
      · next hrefused =>
          -- The draft is still the one from before, so the rest starts from it.
          have hsame := run_of_isRefusedBuild draft hrefused
          rw [hsame] at hrest
          rw [runSteps_cons, hsame, hrest]
      · rw [List.map_cons, List.map_cons, runSteps_cons, runSteps_cons, hrest]

end Runs

/-- Refused builds leave no trace. In every run, a build is refused exactly when
its text as it was typed has more characters than the settings in force accept,
and the refusal tells both numbers; all other builds succeed. Whether builds are
announced to anybody makes no difference to that. Without its
refused builds, the run ends in the same draft, and every step that is left gets
the answer that it had. -/
theorem refused_builds_leave_no_trace (draft : Draft) (steps : List Step) :
    (∀ i query logged, steps[i]? = some (.build query logged) →
      let answer := (runSteps draft steps).2[i]?
      let length := query.rawText.length
      let limit := (settingsAfter draft.settings (steps.take i)).maxLength.toNat
      (∀ error, answer = some (.refused error) ↔
        limit < length ∧ error = .tooLong length limit) ∧
      (answer = some .done ↔ length ≤ limit)) ∧
    runSteps draft ((acceptedSteps draft steps).map Prod.fst) =
      ((runSteps draft steps).1, (acceptedSteps draft steps).map Prod.snd) := by
  refine ⟨?_, runSteps_acceptedSteps draft steps⟩
  intro i query logged hstep answer length limit
  have hanswer : answer =
      some (Step.run (runSteps draft (steps.take i)).1 (.build query logged)).2 :=
    (getElem?_answers draft steps i).trans (by rw [hstep, Option.map_some])
  have hbuild := answer_build_iff (runSteps draft (steps.take i)).1 query logged
  rw [settings_runSteps] at hbuild
  rw [hanswer]
  simpa only [Option.some.injEq] using hbuild

/-- A query that goes through, and again under settings that refuse it. -/
def tightenedRun : List Step :=
  [.build redRose, .rebind { maxLength := 4 }, .build redRose, .read .searchType]

/-- Only the second build is refused, and the search type is read all the same. -/
theorem refused_builds_leave_no_trace_tightenedRun :
    let start := fresh {} (ProfileTable.service {})
    let rest : List Step := [.build redRose, .rebind { maxLength := 4 }, .read .searchType]
    (runSteps start tightenedRun).2[2]? = some (.refused (.tooLong 8 4)) ∧
      runSteps start rest =
        ((runSteps start tightenedRun).1, [.done, .done, .name "full_text"]) := by
  intro start rest
  obtain ⟨hanswers, hrest⟩ := refused_builds_leave_no_trace start tightenedRun
  refine ⟨((hanswers 2 redRose _ rfl).1 _).mpr ⟨by decide, rfl⟩, ?_⟩
  have haccepted : acceptedSteps start tightenedRun =
      rest.zip [.done, .done, .name "full_text"] := rfl
  rw [haccepted] at hrest
  exact hrest

end Draft

end SearchCompiler
