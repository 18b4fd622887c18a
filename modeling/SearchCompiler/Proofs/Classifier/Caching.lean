import SearchCompiler.Proofs.Classifier.Settlement

/-!
Remembered answers are right answers, and nobody is called on twice. What is kept while a
query is classified stays in step with what the classifiers come to, and with the log of
their turns: each judgment that is kept is the one its classifier settles on, those that
have judged are those whose judgments are kept, and the answers known are those for all of
their labels.

A question keeps this up. While it is answered, only classifiers are running that wait for
it, one for the other; so without circles its owner is not among them, and is called on
for the first time when its answers are not known. When the question is answered, the same
classifiers are running as before.
-/

namespace SearchCompiler

theorem Answers.get?_record (s : Answers) (labels asserted : List String) (label : String) :
    (s.record labels asserted).known.get? label =
      (s.known.get? label).or
        (if label ∈ labels then some (asserted.contains label) else none) := by
  let learn (known : Table Bool) (label : String) :=
    if (known.get? label).isSome then known
    else known.insert label (asserted.contains label)
  change (labels.foldl learn s.known).get? label = _
  have hlearn (known : Table Bool) (other : String) :
      (learn known other).get? label =
        (known.get? label).or (if label = other then some (asserted.contains label) else none) := by
    unfold learn
    split
    · next hknown =>
        split
        · next heq =>
            subst heq
            rw [Option.or_of_isSome hknown]
        · rw [Option.or_none]
    · next hunknown =>
        rw [Table.get?_insert]
        split
        · next heq =>
            subst heq
            rw [Option.not_isSome_iff_eq_none.mp hunknown, Option.none_or]
        · rw [Option.or_none]
  generalize s.known = known
  induction labels generalizing known with
  | nil => simp
  | cons other rest ih =>
      rw [List.foldl_cons, ih, hlearn, Option.or_assoc]
      congr 1
      by_cases heq : label = other
      · simp [heq]
      · simp [heq]

namespace Answers

/-- A classifier that was called on and has not come to a judgment yet. -/
def Running (s : Answers) (i : Nat) : Prop :=
  .call i ∈ s.log ∧ .done i ∉ s.log

theorem running_note_call {s : Answers} {i j : Nat} :
    (s.note (.call i)).Running j ↔ (.call j ∈ s.log ∨ j = i) ∧ .done j ∉ s.log := by
  simp [Running, note]

theorem running_note_done {s : Answers} {i j : Nat} :
    (s.note (.done i)).Running j ↔ s.Running j ∧ j ≠ i := by
  simp [Running, note, and_assoc]

/-- Judgments are kept, and the same classifiers are running. -/
structure Continues (s t : Answers) : Prop where
  kept : ∀ entry ∈ s.judged, entry ∈ t.judged
  running : ∀ i, t.Running i ↔ s.Running i

namespace Continues

variable {s t u : Answers}

theorem refl (s : Answers) : Continues s s :=
  ⟨fun _ h => h, fun _ => Iff.rfl⟩

theorem trans (hst : Continues s t) (htu : Continues t u) : Continues s u where
  kept entry h := htu.kept entry (hst.kept entry h)
  running i := (htu.running i).trans (hst.running i)

end Continues

end Answers

section Invariant

variable (registry : Registry) (query : Query)

/-- What is remembered is what the classifiers that have judged come to, and each of them
was called on once. -/
structure Answers.Sound (s : Answers) : Prop where
  settled : ∀ i asserted, (i, asserted) ∈ s.judged →
    ∃ classifier, registry.classifiers[i]? = some classifier ∧
      registry.Settles query (classifier.judge query) asserted
  known : ∀ label member, s.known.get? label = some member ↔
    ∃ owner asserted, registry.owner? label = some owner ∧ (owner, asserted) ∈ s.judged ∧
      member = asserted.contains label
  done : ∀ i, .done i ∈ s.log ↔ ∃ asserted, (i, asserted) ∈ s.judged
  called : ∀ i, .done i ∈ s.log → .call i ∈ s.log
  once : ∀ i, s.log.count (.call i) ≤ 1

theorem Answers.sound_empty : Answers.Sound registry query {} where
  settled := by simp
  known := by simp [Table.get?_empty]
  done := by simp
  called := by simp
  once := by simp

end Invariant

variable {registry : Registry} {query : Query}

namespace Answers.Sound

variable {s : Answers} {i : Nat}

/-- Who has no judgment kept and is not running was never called on. -/
theorem not_called (hs : s.Sound registry query) (hunjudged : ∀ labels, (i, labels) ∉ s.judged)
    (hidle : ¬ s.Running i) : .call i ∉ s.log := by
  intro hcall
  refine hidle ⟨hcall, fun hdone => ?_⟩
  obtain ⟨labels, hmem⟩ := (hs.done i).mp hdone
  exact hunjudged labels hmem

/-- A first call. -/
theorem call (hs : s.Sound registry query) (hfirst : .call i ∉ s.log) :
    (s.note (.call i)).Sound registry query where
  settled := hs.settled
  known := hs.known
  done j := by
    change Turn.done j ∈ s.log ++ [Turn.call i] ↔ ∃ asserted, (j, asserted) ∈ s.judged
    rw [← hs.done j]
    simp
  called j hdone := by
    have hbefore : .done j ∈ s.log := by simpa [note] using hdone
    exact List.mem_append_left _ (hs.called j hbefore)
  once j := by
    change (s.log ++ [Turn.call i]).count (Turn.call j) ≤ 1
    rw [List.count_append]
    by_cases heq : j = i
    · subst heq
      rw [List.count_eq_zero_of_not_mem hfirst, List.count_singleton_self, Nat.zero_add]
    · have hother : [Turn.call i].count (.call j) = 0 := by simp [Ne.symm heq]
      rw [hother]
      exact hs.once j

/-- What is remembered stays right when a classifier that is running judges rightly. -/
theorem judge (hs : s.Sound registry query) {classifier : Classifier} {asserted : List String}
    (hclassifier : registry.classifiers[i]? = some classifier) (hrunning : s.Running i)
    (hsettles : registry.Settles query (classifier.judge query) asserted) :
    (((s.note (.done i)).keep i asserted).record classifier.labels asserted).Sound registry
      query := by
  have hunjudged (labels : List String) : (i, labels) ∉ s.judged :=
    fun hmem => hrunning.2 ((hs.done i).mpr ⟨labels, hmem⟩)
  constructor
  · intro j labels hmem
    rcases List.mem_append.mp hmem with hmem | hmem
    · exact hs.settled j labels hmem
    · obtain ⟨rfl, rfl⟩ := Prod.mk.inj (List.mem_singleton.mp hmem)
      exact ⟨classifier, hclassifier, hsettles⟩
  · intro label member
    change (Answers.record _ _ _).known.get? label = _ ↔
      ∃ owner labels, _ ∧ (owner, labels) ∈ s.judged ++ [(i, asserted)] ∧ _
    rw [Answers.get?_record, Option.or_eq_some_iff]
    constructor
    · rintro (hknown | ⟨_, hnew⟩)
      · obtain ⟨owner, labels, howner, hmem, rfl⟩ := (hs.known label member).mp hknown
        exact ⟨owner, labels, howner, List.mem_append_left _ hmem, rfl⟩
      · obtain ⟨hlabel, hmember⟩ := Option.ite_none_right_eq_some.mp hnew
        exact ⟨i, asserted, Registry.owner?_eq_some hclassifier hlabel,
          List.mem_append_right _ (List.mem_singleton_self _), (Option.some.inj hmember).symm⟩
    · rintro ⟨owner, labels, howner, hmem, rfl⟩
      rcases List.mem_append.mp hmem with hmem | hmem
      · exact .inl ((hs.known label _).mpr ⟨owner, labels, howner, hmem, rfl⟩)
      · obtain ⟨rfl, rfl⟩ := Prod.mk.inj (List.mem_singleton.mp hmem)
        obtain ⟨_, hclassifier', hlabel⟩ := Registry.owner?_spec howner
        obtain rfl := Option.some.inj (hclassifier.symm.trans hclassifier')
        refine .inr ⟨?_, by rw [if_pos hlabel]⟩
        rw [Option.eq_none_iff_forall_ne_some]
        intro member hknown
        obtain ⟨other, labels, hother, hmem, _⟩ := (hs.known label member).mp hknown
        obtain rfl := Option.some.inj (howner.symm.trans hother)
        exact hunjudged labels hmem
  · intro j
    change Turn.done j ∈ s.log ++ [Turn.done i] ↔ ∃ labels, (j, labels) ∈ s.judged ++ [(i, asserted)]
    simp only [List.mem_append, List.mem_singleton, Turn.done.injEq, Prod.mk.injEq, hs.done,
      exists_or, exists_and_left, exists_eq, and_true]
  · intro j hdone
    rcases List.mem_append.mp hdone with hdone | hdone
    · exact List.mem_append_left _ (hs.called j hdone)
    · obtain rfl := Turn.done.inj (List.mem_singleton.mp hdone)
      exact List.mem_append_left _ hrunning.1
  · intro j
    change (s.log ++ [Turn.done i]).count (Turn.call j) ≤ 1
    rw [List.count_append, List.count_singleton]
    exact hs.once j

end Answers.Sound

section Answering

variable (registry query)

/-- A classifier is judging: what is remembered is right, and whoever is running waits for
it or is it. -/
structure Judging (i : Nat) (s : Answers) : Prop where
  sound : s.Sound registry query
  awaited : ∀ j, s.Running j → Relation.ReflTransGen (registry.Asks query) j i

/-- A question may be put: what is remembered is right, there is enough fuel for the
questions that it leads to, and whoever is running waits for the owner of the label. -/
structure MayPut (fuel : Nat) (label : String) (s : Answers) : Prop where
  sound : s.Sound registry query
  fuel : ∀ owner, registry.owner? label = some owner → registry.depth query owner < fuel
  awaited : ∀ owner, registry.owner? label = some owner →
    ∀ i, s.Running i → Relation.TransGen (registry.Asks query) i owner

/-- A question was answered well: rightly, with what is remembered still right, the same
classifiers running as before, and the judgment of the owner kept. -/
structure Answered (label : String) (s : Answers)
    (result : Except QueryError Bool × Answers) : Prop where
  reply : registry.Replies query label result.1
  sound : result.2.Sound registry query
  continues : s.Continues result.2
  judged : ∀ owner, registry.owner? label = some owner →
    ∃ asserted, (owner, asserted) ∈ result.2.judged

variable {registry query}

/-- A classifier that is judging may put its questions. -/
theorem Judging.mayPut (hacyclic : registry.Acyclic query) {i fuel : Nat} {label : String}
    {s : Answers} (h : Judging registry query i s)
    (hasks : ∀ j, registry.owner? label = some j → registry.Asks query i j)
    (hfuel : registry.depth query i < fuel + 1) : MayPut registry query fuel label s where
  sound := h.sound
  fuel := Registry.depth_lt_of_question hacyclic hasks hfuel
  awaited owner howner j hrunning := .tail' (h.awaited j hrunning) (hasks owner howner)

/-- A classifier that was answered well goes on judging. -/
theorem Judging.after_answer {i : Nat} {label : String} {s : Answers}
    {result : Except QueryError Bool × Answers} (h : Judging registry query i s)
    (hanswered : Answered registry query label s result) : Judging registry query i result.2 where
  sound := hanswered.sound
  awaited j hrunning := h.awaited j ((hanswered.continues.running j).mp hrunning)

/-- The owner of a label about which nothing is known may be called on: it is called on for
the first time. -/
theorem MayPut.call (hacyclic : registry.Acyclic query) {fuel owner : Nat} {label : String}
    {s : Answers} (h : MayPut registry query fuel label s)
    (howner : registry.owner? label = some owner) (hunknown : s.known.get? label = none) :
    .call owner ∉ s.log ∧ .done owner ∉ s.log ∧
      Judging registry query owner (s.note (.call owner)) := by
  have hunjudged (labels : List String) : (owner, labels) ∉ s.judged := by
    intro hmem
    have hknown := (h.sound.known label _).mpr ⟨owner, labels, howner, hmem, rfl⟩
    exact Option.some_ne_none _ (hknown.symm.trans hunknown)
  -- Otherwise the owner would wait for itself.
  have hidle : ¬ s.Running owner :=
    fun hrunning => hacyclic owner (h.awaited owner howner owner hrunning)
  have hfirst := h.sound.not_called hunjudged hidle
  refine ⟨hfirst, fun hdone => hfirst (h.sound.called owner hdone), h.sound.call hfirst, ?_⟩
  intro i hrunning
  obtain ⟨hcall | rfl, hdone⟩ := Answers.running_note_call.mp hrunning
  · exact (h.awaited owner howner i ⟨hcall, hdone⟩).to_reflTransGen
  · exact .refl

/-- A judgment settles when its questions are answered well. -/
theorem follow_sound {i : Nat} {classifier : Classifier}
    (hclassifier : registry.classifiers[i]? = some classifier)
    (answer : String → Answers → Except QueryError Bool × Answers)
    (hanswer : ∀ label s, Judging registry query i s →
      (∀ j, registry.owner? label = some j → registry.Asks query i j) →
      Answered registry query label s (answer label s))
    (judgment : Judgment) (s : Answers) (hs : Judging registry query i s)
    (hreach : registry.Reaches query (classifier.judge query) judgment) :
    registry.Settles query judgment (judgment.follow answer s).1 ∧
      (judgment.follow answer s).2.Sound registry query ∧
      s.Continues (judgment.follow answer s).2 := by
  induction judgment generalizing s with
  | assert labels => exact ⟨.assert labels, hs.sound, .refl s⟩
  | ask label next ih =>
      have hanswered := hanswer label s hs
        fun j howner => ⟨classifier, label, next, hclassifier, hreach, howner⟩
      obtain ⟨hsettles, hsound, hcontinues⟩ := ih (answer label s).1 (answer label s).2
        (hs.after_answer hanswered) (hreach.ask hanswered.reply)
      exact ⟨hsettles.ask hanswered.reply, hsound, hanswered.continues.trans hcontinues⟩

/-- What is known is a good answer. -/
theorem answered_of_known {label : String} {member : Bool} {s : Answers}
    (hs : s.Sound registry query) (hknown : s.known.get? label = some member) :
    Answered registry query label s (.ok member, s) := by
  obtain ⟨owner, asserted, howner, hmem, rfl⟩ := (hs.known label member).mp hknown
  obtain ⟨classifier, hclassifier, hsettles⟩ := hs.settled owner asserted hmem
  refine ⟨.owned howner hclassifier hsettles, hs, .refl s, ?_⟩
  intro other hother
  obtain rfl := Option.some.inj (howner.symm.trans hother)
  exact ⟨asserted, hmem⟩

/-- So is the refusal of a label that nobody owns. -/
theorem answered_of_unowned {label : String} {s : Answers} (hs : s.Sound registry query)
    (hnone : registry.owner? label = none) :
    Answered registry query label s (.error (.unknownClass label), s) where
  reply := .unowned hnone
  sound := hs
  continues := .refl s
  judged := by simp [hnone]

/-- A question is answered well when it calls on the owner of its label for the first time,
and the owner judges rightly. -/
theorem answered_of_judgment {label : String} {owner : Nat} {classifier : Classifier}
    {asserted : List String} {s t : Answers} (howner : registry.owner? label = some owner)
    (hclassifier : registry.classifiers[owner]? = some classifier)
    (hfirst : .call owner ∉ s.log) (hundone : .done owner ∉ s.log)
    (hsettles : registry.Settles query (classifier.judge query) asserted)
    (ht : t.Sound registry query) (hcontinues : (s.note (.call owner)).Continues t) :
    let u := ((t.note (.done owner)).keep owner asserted).record classifier.labels asserted
    u.known.get? label = some (asserted.contains label) ∧
      Answered registry query label s (.ok (asserted.contains label), u) := by
  intro u
  have hrunning : t.Running owner :=
    (hcontinues.running owner).mpr (Answers.running_note_call.mpr ⟨.inr rfl, hundone⟩)
  have hu : u.Sound registry query := ht.judge hclassifier hrunning hsettles
  have hmem : (owner, asserted) ∈ u.judged :=
    List.mem_append_right _ (List.mem_singleton_self _)
  have hknown : u.known.get? label = some (asserted.contains label) :=
    (hu.known label _).mpr ⟨owner, asserted, howner, hmem, rfl⟩
  have hrecalled := answered_of_known hu hknown
  refine ⟨hknown, hrecalled.reply, hu, ⟨?_, ?_⟩, hrecalled.judged⟩
  · intro entry hentry
    exact List.mem_append_left _ (hcontinues.kept entry hentry)
  · intro i
    change (t.note (.done owner)).Running i ↔ s.Running i
    rw [Answers.running_note_done, hcontinues.running, Answers.running_note_call]
    constructor
    · rintro ⟨⟨hcall, hdone⟩, hne⟩
      exact ⟨hcall.resolve_right hne, hdone⟩
    · rintro ⟨hcall, hdone⟩
      exact ⟨⟨.inl hcall, hdone⟩, fun heq => hfirst (heq ▸ hcall)⟩

/-- Every question that may be put is answered well. -/
theorem answer_sound (hacyclic : registry.Acyclic query) (fuel : Nat) (label : String)
    (s : Answers) (h : MayPut registry query fuel label s) :
    Answered registry query label s (registry.answer query fuel label s) := by
  induction fuel generalizing label s with
  | zero =>
      have hnone : registry.owner? label = none := by
        rw [Option.eq_none_iff_forall_ne_some]
        intro owner howner
        exact Nat.not_lt_zero _ (h.fuel owner howner)
      exact answered_of_unowned h.sound hnone
  | succ fuel ih =>
      cases hknown : s.known.get? label with
      | some member =>
          simp only [Registry.answer, hknown]
          exact answered_of_known h.sound hknown
      | none =>
          cases howner : registry.owner? label with
          | none =>
              simp only [Registry.answer, hknown, howner]
              exact answered_of_unowned h.sound howner
          | some owner =>
              obtain ⟨classifier, hclassifier, _⟩ := Registry.owner?_spec howner
              obtain ⟨hfirst, hundone, hjudging⟩ := h.call hacyclic howner hknown
              have hlookup : s.judged.lookup owner = none := by
                rw [List.lookup_eq_none_iff]
                rintro ⟨other, labels⟩ hmem
                refine bne_iff_ne.mpr fun heq => hundone ((h.sound.done owner).mpr ⟨labels, ?_⟩)
                exact heq ▸ hmem
              have hinner (other : String) (t : Answers) (ht : Judging registry query owner t)
                  (hasks : ∀ j, registry.owner? other = some j → registry.Asks query owner j) :=
                ih other t (ht.mayPut hacyclic hasks (h.fuel owner howner))
              obtain ⟨hsettles, ht, hcontinues⟩ := follow_sound hclassifier _ hinner
                (classifier.judge query) _ hjudging .start
              obtain ⟨hmember, hanswered⟩ := answered_of_judgment howner hclassifier hfirst
                hundone hsettles ht hcontinues
              simp only [Registry.answer, Classifier.consult, hknown, howner, hclassifier, hlookup]
              rw [hmember]
              exact hanswered

end Answering

/-- The questions put while a judgment is followed, each with what is
remembered when it is put. -/
inductive Judgment.Puts (answer : String → Answers → Except QueryError Bool × Answers) :
    Judgment → Answers → String → Answers → Prop
  | now (label : String) (next : Except QueryError Bool → Judgment) (s : Answers) :
      Puts answer (.ask label next) s label s
  | later {label other : String} {next : Except QueryError Bool → Judgment} {s t : Answers} :
      Puts answer (next (answer label s).1) (answer label s).2 other t →
        Puts answer (.ask label next) s other t

/-- The questions put while a question is answered, among them the question
itself and those of classifiers that judge on behalf of others. -/
inductive Registry.Puts (registry : Registry) (query : Query) :
    Nat → String → Answers → String → Answers → Prop
  | now (fuel : Nat) (label : String) (s : Answers) : Puts registry query fuel label s label s
  | nested {fuel : Nat} {label other last : String} {s t u : Answers} {owner : Nat}
      {classifier : Classifier} :
      s.known.get? label = none → registry.owner? label = some owner →
        registry.classifiers[owner]? = some classifier → s.judged.lookup owner = none →
        (classifier.judge query).Puts (registry.answer query fuel) (s.note (.call owner)) other t →
        Puts registry query fuel other t last u → Puts registry query (fuel + 1) label s last u

section Moments

theorem puts_sound {i : Nat} {classifier : Classifier}
    (hclassifier : registry.classifiers[i]? = some classifier)
    {answer : String → Answers → Except QueryError Bool × Answers}
    (hanswer : ∀ label s, Judging registry query i s →
      (∀ j, registry.owner? label = some j → registry.Asks query i j) →
      Answered registry query label s (answer label s))
    {judgment : Judgment} {s t : Answers} {label : String}
    (hputs : judgment.Puts answer s label t) (hs : Judging registry query i s)
    (hreach : registry.Reaches query (classifier.judge query) judgment) :
    Judging registry query i t ∧
      ∀ j, registry.owner? label = some j → registry.Asks query i j := by
  induction hputs with
  | now label next s =>
      exact ⟨hs, fun j howner => ⟨classifier, label, next, hclassifier, hreach, howner⟩⟩
  | @later label _ next s _ _ ih =>
      have hanswered := hanswer label s hs
        fun j howner => ⟨classifier, label, next, hclassifier, hreach, howner⟩
      exact ih (hs.after_answer hanswered) (hreach.ask hanswered.reply)

/-- What is remembered is right also while classifiers are still judging,
whenever one of them puts a question. -/
theorem sound_of_puts (hacyclic : registry.Acyclic query) {fuel : Nat} {label last : String}
    {s u : Answers} (hputs : registry.Puts query fuel label s last u)
    (h : MayPut registry query fuel label s) : u.Sound registry query := by
  induction hputs with
  | now => exact h.sound
  | @nested fuel _ _ _ _ _ _ owner classifier hunknown howner hclassifier _ hputs _ ih =>
      have hbound := h.fuel owner howner
      have hinner (other : String) (t : Answers) (ht : Judging registry query owner t)
          (hasks : ∀ j, registry.owner? other = some j → registry.Asks query owner j) :=
        answer_sound hacyclic fuel other t (ht.mayPut hacyclic hasks hbound)
      obtain ⟨_, _, hjudging⟩ := h.call hacyclic howner hunknown
      obtain ⟨ht, hasks⟩ := puts_sound hclassifier hinner hputs hjudging .start
      exact ih (ht.mayPut hacyclic hasks hbound)

end Moments

end SearchCompiler
