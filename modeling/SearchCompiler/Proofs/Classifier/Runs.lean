import SearchCompiler.Proofs.Classifier.Caching
import SearchCompiler.Proofs.Classifier.Strays

/-!
Classification over a whole run of calls. The answers are right whatever was
called before, no classifier is called on twice, and the classes shown are at
every moment those of the classifiers that have judged. Between two calls no
classifier is running, so there any question may be put.
-/

namespace SearchCompiler

/-- A call on a classification. -/
inductive Call where
  | ask (label : String)
  | preload
  | toJson
deriving DecidableEq, Repr

namespace Classification

/-- The classification after a call. -/
def call (c : Classification) : Call → Classification
  | .ask label => (c.ask label).2
  | .preload => c.preload.2
  | .toJson => c

/-- The classification after a run of calls. -/
def run (c : Classification) (calls : List Call) : Classification :=
  calls.foldl call c

/-- The classes that are listed when the query is shown. -/
def shownClasses (c : Classification) : List (String × Json) :=
  match c.toJson with
  | .object entries =>
      match entries.lookup "queryClasses" with
      | some (.object classes) => classes
      | _ => []
  | _ => []

theorem shownClasses_eq (c : Classification) :
    c.shownClasses = c.answers.known.entries.map fun (label, member) => (label, .bool member) := by
  have hentry (shown : Bool) (name : String) (value : Json) :
      (if shown then [(name, value)] else []).lookup "queryClasses" =
        if shown ∧ "queryClasses" = name then some value else none := by
    cases shown
    · rfl
    · rw [if_pos rfl, lookup_cons_eq]
      simp
  rw [shownClasses, toJson]
  simp only [List.lookup_append, hentry, lookup_cons_eq]
  cases hempty : c.answers.known.isEmpty with
  | true =>
      have hnone : c.answers.known.entries = [] := List.isEmpty_iff.mp hempty
      simp [hnone]
  | false => simp

end Classification

section Replies

variable {registry : Registry} {query : Query} {label : String}
  {reply other : Except QueryError Bool}

/-- A question has one right answer. -/
theorem Registry.Replies.unique (h : registry.Replies query label reply)
    (hother : registry.Replies query label other) : reply = other := by
  cases h with
  | unowned hnone =>
      cases hother with
      | unowned => rfl
      | owned howner => cases hnone.symm.trans howner
  | owned howner hclassifier hsettles =>
      cases hother with
      | unowned hnone => cases hnone.symm.trans howner
      | owned howner' hclassifier' hsettles' =>
          obtain rfl := Option.some.inj (howner.symm.trans howner')
          obtain rfl := Option.some.inj (hclassifier.symm.trans hclassifier')
          rw [hsettles.unique hsettles']

theorem Registry.Replies.exists_ok (h : registry.Replies query label reply) {owner : Nat}
    (howner : registry.owner? label = some owner) : ∃ member, reply = .ok member := by
  cases h with
  | unowned hnone => cases hnone.symm.trans howner
  | owned => exact ⟨_, rfl⟩

/-- Once a classifier has judged, all of its labels are known. -/
theorem Answers.Sound.known_of_judged {s : Answers} (hs : s.Sound registry query) {i : Nat}
    {classifier : Classifier} {asserted : List String}
    (hclassifier : registry.classifiers[i]? = some classifier) (hlabel : label ∈ classifier.labels)
    (hmem : (i, asserted) ∈ s.judged) : s.known.get? label = some (asserted.contains label) :=
  (hs.known label _).mpr
    ⟨i, asserted, Registry.owner?_eq_some hclassifier hlabel, hmem, rfl⟩

end Replies

section Rest

variable (registry : Registry) (query : Query)

/-- Between two calls: what is remembered is right, and no classifier is running. -/
structure Answers.AtRest (s : Answers) : Prop where
  sound : s.Sound registry query
  idle : ∀ i, ¬ s.Running i

theorem Answers.atRest_empty : Answers.AtRest registry query {} where
  sound := Answers.sound_empty registry query
  idle i hrunning := by simp [Answers.Running] at hrunning

variable {registry query} {s : Answers} {label : String}

/-- Between two calls any question may be put. -/
theorem Answers.AtRest.mayPut (hs : s.AtRest registry query) (label : String) :
    MayPut registry query (registry.classifiers.length + 1) label s where
  sound := hs.sound
  fuel owner _ := Registry.depth_lt owner
  awaited _ _ i hrunning := absurd hrunning (hs.idle i)

theorem Answered.atRest {result : Except QueryError Bool × Answers}
    (h : Answered registry query label s result) (hs : s.AtRest registry query) :
    result.2.AtRest registry query where
  sound := h.sound
  idle i hrunning := hs.idle i ((h.continues.running i).mp hrunning)

/-- When no classifier is running, each has judged that was called on. -/
theorem Answers.AtRest.done_iff (hs : s.AtRest registry query) (i : Nat) :
    .done i ∈ s.log ↔ .call i ∈ s.log := by
  refine ⟨hs.sound.called i, fun hcall => ?_⟩
  by_contra hdone
  exact hs.idle i ⟨hcall, hdone⟩

end Rest

namespace Classification

section Steps

variable {c : Classification} (hacyclic : c.registry.Acyclic c.query)
  (hs : c.answers.AtRest c.registry c.query)

include hacyclic hs

theorem ask_answered (label : String) :
    Answered c.registry c.query label c.answers ((c.ask label).1, (c.ask label).2.answers) :=
  answer_sound hacyclic _ label _ (hs.mayPut label)

/-- A question about an owned label is answered by what its owner comes to. -/
theorem ask_of_owned {i : Nat} {classifier : Classifier} {label : String} {asserted : List String}
    (hclassifier : c.registry.classifiers[i]? = some classifier)
    (hlabel : label ∈ classifier.labels)
    (hsettles : c.registry.Settles c.query (classifier.judge c.query) asserted) :
    (c.ask label).1 = .ok (asserted.contains label) := by
  have hreply := (ask_answered hacyclic hs label).reply
  exact hreply.unique (.owned (Registry.owner?_eq_some hclassifier hlabel) hclassifier hsettles)

theorem ask_of_unowned {label : String}
    (hunowned : ∀ classifier ∈ c.registry.classifiers, label ∉ classifier.labels) :
    (c.ask label).1 = .error (.unknownClass label) := by
  have hreply := (ask_answered hacyclic hs label).reply
  exact hreply.unique (.unowned (Registry.owner?_eq_none hunowned))

/-- Asking about first labels goes through and makes all labels of their
classifiers known. -/
theorem askFirsts_atRest (classifiers : List Classifier)
    (hin : ∀ classifier ∈ classifiers, classifier ∈ c.registry.classifiers) :
    ∃ t, c.askFirsts classifiers = (.ok (), { c with answers := t }) ∧
      t.AtRest c.registry c.query ∧ (∀ entry ∈ c.answers.judged, entry ∈ t.judged) ∧
      ∀ classifier ∈ classifiers, ∀ label ∈ classifier.labels, (t.known.get? label).isSome := by
  induction classifiers generalizing c with
  | nil => exact ⟨c.answers, rfl, hs, fun _ h => h, by simp⟩
  | cons classifier rest ih =>
      have hrest := fun other hmem => hin other (List.mem_cons_of_mem classifier hmem)
      cases hlabels : classifier.labels with
      | nil =>
          obtain ⟨t, heq, ht, hkept, hknown⟩ := ih hacyclic hs hrest
          refine ⟨t, ?_, ht, hkept, ?_⟩
          · rw [askFirsts]
            simp only [hlabels]
            exact heq
          · intro other hmem
            rcases List.mem_cons.mp hmem with rfl | hmem
            · simp [hlabels]
            · exact hknown other hmem
      | cons first more =>
          have hanswered := ask_answered hacyclic hs first
          have hfirst : first ∈ classifier.labels := hlabels ▸ List.mem_cons_self
          obtain ⟨i, hi⟩ := List.mem_iff_getElem?.mp (hin classifier List.mem_cons_self)
          have howner := Registry.owner?_eq_some hi hfirst
          obtain ⟨member, hreply⟩ := hanswered.reply.exists_ok howner
          obtain ⟨t, heq, ht, hkept, hknown⟩ :=
            @ih (c.ask first).2 hacyclic (hanswered.atRest hs) hrest
          refine ⟨t, ?_, ht, fun entry h => hkept entry (hanswered.continues.kept entry h), ?_⟩
          · rw [askFirsts]
            have hask : c.ask first = (.ok member, (c.ask first).2) := Prod.ext hreply rfl
            simp only [hlabels]
            rw [hask]
            exact heq
          · intro other hmem label hlabel
            rcases List.mem_cons.mp hmem with rfl | hmem
            · obtain ⟨asserted, hjudged⟩ := hanswered.judged i howner
              rw [ht.sound.known_of_judged hi hlabel (hkept _ hjudged)]
              rfl
            · exact hknown other hmem label hlabel

theorem preload_atRest :
    ∃ t, c.preload = (.ok (), { c with answers := t }) ∧ t.AtRest c.registry c.query ∧
      ∀ classifier ∈ c.registry.classifiers, ∀ label ∈ classifier.labels,
        (t.known.get? label).isSome := by
  obtain ⟨t, heq, ht, _, hknown⟩ :=
    askFirsts_atRest hacyclic hs c.registry.classifiers fun _ hmem => hmem
  exact ⟨t, heq, ht, hknown⟩

/-- After a call what is remembered is right, and no classifier is running. -/
theorem call_atRest (call : Call) :
    ∃ t, c.call call = { c with answers := t } ∧ t.AtRest c.registry c.query := by
  cases call with
  | ask label => exact ⟨_, rfl, (ask_answered hacyclic hs label).atRest hs⟩
  | preload =>
      obtain ⟨t, heq, ht, _⟩ := preload_atRest hacyclic hs
      exact ⟨t, congrArg Prod.snd heq, ht⟩
  | toJson => exact ⟨c.answers, rfl, hs⟩

theorem run_atRest (calls : List Call) :
    ∃ t, c.run calls = { c with answers := t } ∧ t.AtRest c.registry c.query := by
  induction calls generalizing c with
  | nil => exact ⟨c.answers, rfl, hs⟩
  | cons call rest ih =>
      obtain ⟨t, heq, ht⟩ := call_atRest hacyclic hs call
      obtain ⟨u, hrun, hu⟩ := @ih { c with answers := t } hacyclic ht
      exact ⟨u, by rw [run, List.foldl_cons, heq]; exact hrun, hu⟩

end Steps

section Knowing

variable {c : Classification}
  (hknown : ∀ classifier ∈ c.registry.classifiers, ∀ label ∈ classifier.labels,
    (c.answers.known.get? label).isSome)

include hknown

/-- When the labels of all classifiers are known, a question changes nothing. -/
theorem ask_of_known (label : String) : (c.ask label).2 = c := by
  have hanswer : (c.registry.answer c.query (c.registry.classifiers.length + 1) label
      c.answers).2 = c.answers := by
    cases hlabel : c.answers.known.get? label with
    | some member => simp only [Registry.answer, hlabel]
    | none =>
        have hnone : c.registry.owner? label = none := by
          refine Registry.owner?_eq_none fun classifier hclassifier hmem => ?_
          have hsome := hknown classifier hclassifier label hmem
          rw [hlabel] at hsome
          cases hsome
        simp only [Registry.answer, hlabel, hnone]
  exact congrArg (fun answers => { c with answers }) hanswer

theorem askFirsts_of_known (classifiers : List Classifier) : (c.askFirsts classifiers).2 = c := by
  induction classifiers with
  | nil => rfl
  | cons classifier rest ih =>
      rw [askFirsts]
      split
      · exact ih
      · next label _ _ =>
          have hask := ask_of_known hknown label
          split
          · next heq =>
              rw [heq] at hask
              obtain rfl := hask
              exact ih
          · next heq =>
              rw [heq] at hask
              exact hask

theorem run_of_known (calls : List Call) : c.run calls = c := by
  induction calls with
  | nil => rfl
  | cons call rest ih =>
      have hcall : c.call call = c := by
        cases call with
        | ask label => exact ask_of_known hknown label
        | preload => exact askFirsts_of_known hknown c.registry.classifiers
        | toJson => rfl
      rw [run, List.foldl_cons, hcall]
      exact ih

end Knowing

/-- No classifier was called on twice, and the classes shown are all labels of
those that have judged, each with the verdict of its owner. -/
structure Exact (asserted : Nat → List String) (c : Classification) : Prop where
  once : ∀ i, c.judgments i ≤ 1
  shown : ∀ label value, (label, value) ∈ c.shownClasses ↔
    ∃ i classifier, c.registry.classifiers[i]? = some classifier ∧ label ∈ classifier.labels ∧
      c.HasJudged i ∧ value = .bool ((asserted i).contains label)

theorem exact_of_sound {c : Classification} {asserted : Nat → List String}
    (hasserted : ∀ i classifier, c.registry.classifiers[i]? = some classifier →
      c.registry.Settles c.query (classifier.judge c.query) (asserted i))
    (hs : c.answers.Sound c.registry c.query) : c.Exact asserted where
  once := hs.once
  shown := by
    intro label value
    have hverdict (i : Nat) (labels : List String) (hmem : (i, labels) ∈ c.answers.judged) :
        labels = asserted i := by
      obtain ⟨classifier, hclassifier, hsettles⟩ := hs.settled i labels hmem
      exact hsettles.unique (hasserted i classifier hclassifier)
    rw [shownClasses_eq, List.mem_map]
    constructor
    · rintro ⟨⟨_, member⟩, hmem, heq⟩
      obtain ⟨rfl, rfl⟩ := Prod.mk.inj heq
      obtain ⟨i, labels, howner, hjudged, rfl⟩ :=
        (hs.known _ member).mp ((Table.mem_entries_iff _ _ _).mp hmem)
      obtain ⟨classifier, hclassifier, hlabel⟩ := Registry.owner?_spec howner
      refine ⟨i, classifier, hclassifier, hlabel, (hs.done i).mpr ⟨labels, hjudged⟩, ?_⟩
      rw [hverdict i labels hjudged]
    · rintro ⟨i, classifier, hclassifier, hlabel, hdone, rfl⟩
      obtain ⟨labels, hjudged⟩ := (hs.done i).mp hdone
      have hknown := hs.known_of_judged hclassifier hlabel hjudged
      rw [hverdict i labels hjudged] at hknown
      exact ⟨_, (Table.mem_entries_iff _ _ _).mpr hknown, rfl⟩

/-- Between two calls a classifier has judged when it was called on once. -/
theorem hasJudged_iff {c : Classification} (hs : c.answers.AtRest c.registry c.query) (i : Nat) :
    c.HasJudged i ↔ c.judgments i = 1 := by
  have hatMost := hs.sound.once i
  rw [HasJudged, hs.done_iff, ← List.count_pos_iff, judgments]
  omega

/-- A classifier has judged when one of its labels is known. -/
theorem hasJudged_of_known {c : Classification} (hs : c.answers.Sound c.registry c.query) {i : Nat}
    {classifier : Classifier} {label : String}
    (hclassifier : c.registry.classifiers[i]? = some classifier)
    (hlabel : label ∈ classifier.labels) (hknown : (c.answers.known.get? label).isSome) :
    c.HasJudged i := by
  obtain ⟨member, hmember⟩ := Option.isSome_iff_exists.mp hknown
  obtain ⟨owner, labels, howner, hjudged, _⟩ := (hs.known label member).mp hmember
  obtain rfl := Option.some.inj
    (howner.symm.trans (Registry.owner?_eq_some hclassifier hlabel))
  exact (hs.done owner).mpr ⟨labels, hjudged⟩

/-- Answers do not depend on strays, whatever was called before. -/
theorem ask_withoutStrays {registry : Registry} {query : Query}
    (hacyclic : registry.Acyclic query) (calls : List Call) (label : String) :
    ((run { query, registry := registry.withoutStrays } calls).ask label).1 =
      ((run { query, registry } calls).ask label).1 := by
  have hkept := Registry.acyclic_withoutStrays hacyclic
  obtain ⟨s, hrun, hs⟩ :=
    @run_atRest { query, registry } hacyclic (Answers.atRest_empty registry query) calls
  obtain ⟨t, hrunKept, ht⟩ := @run_atRest { query, registry := registry.withoutStrays } hkept
    (Answers.atRest_empty registry.withoutStrays query) calls
  have hreply := (@ask_answered { query, registry, answers := s } hacyclic hs label).reply
  have hreplyKept := (@ask_answered { query, registry := registry.withoutStrays, answers := t }
    hkept ht label).reply
  rw [hrun, hrunKept]
  exact (Registry.replies_of_withoutStrays hreplyKept).unique hreply

/-- Classification without circles of questions is lazy and sure. Whatever was
called before, a question about an owned label is answered by what its owner
comes to, strays of other classifiers not counting, and one about any other
label is refused. At every moment, also when a classifier that judges puts a
question, no classifier has been called on twice and the classes shown are
exactly the labels of those that have judged; between two calls these are the
classifiers that were called on. Preloading goes through, lets every
classifier with labels judge, and leaves nothing to be done for later calls,
which call on nobody. -/
theorem run_of_acyclic (registry : Registry) (query : Query)
    (hacyclic : registry.Acyclic query) :
    ∃ asserted : Nat → List String,
      (∀ i classifier, registry.classifiers[i]? = some classifier →
        registry.Settles query (classifier.judge query) (asserted i)) ∧
      ∀ calls : List Call,
        let c := run { query, registry } calls
        (∀ i classifier label, registry.classifiers[i]? = some classifier →
          label ∈ classifier.labels → (c.ask label).1 = .ok ((asserted i).contains label)) ∧
        (∀ label, (∀ classifier ∈ registry.classifiers, label ∉ classifier.labels) →
          (c.ask label).1 = .error (.unknownClass label)) ∧
        (∀ label, ((run { query, registry := registry.withoutStrays } calls).ask label).1 =
          (c.ask label).1) ∧
        Exact asserted c ∧
        (∀ i, c.HasJudged i ↔ c.judgments i = 1) ∧
        (∀ label other answers,
          registry.Puts query (registry.classifiers.length + 1) label c.answers other answers →
          Exact asserted { c with answers }) ∧
        c.preload.1 = .ok () ∧
        (∀ i classifier, registry.classifiers[i]? = some classifier → classifier.labels ≠ [] →
          c.preload.2.judgments i = 1 ∧ c.preload.2.HasJudged i) ∧
        Exact asserted c.preload.2 ∧
        ∀ later, c.preload.2.run later = c.preload.2 := by
  obtain ⟨asserted, hasserted⟩ := Registry.exists_verdicts hacyclic
  refine ⟨asserted, hasserted, ?_⟩
  intro calls c
  have hstrays (label : String) :
      ((run { query, registry := registry.withoutStrays } calls).ask label).1 =
        (c.ask label).1 := ask_withoutStrays hacyclic calls label
  obtain ⟨s, hrun, hs⟩ : ∃ s, c = { query, registry, answers := s } ∧ s.AtRest registry query :=
    @run_atRest { query, registry } hacyclic (Answers.atRest_empty registry query) calls
  clear_value c
  subst hrun
  obtain ⟨t, hpreload, ht, hknown⟩ :=
    @preload_atRest { query, registry, answers := s } hacyclic hs
  rw [hpreload]
  refine ⟨?_, ?_, hstrays, exact_of_sound hasserted hs.sound, hasJudged_iff hs, ?_, rfl, ?_,
    exact_of_sound hasserted ht.sound, run_of_known hknown⟩
  · intro i classifier label hclassifier hlabel
    exact ask_of_owned hacyclic hs hclassifier hlabel (hasserted i classifier hclassifier)
  · intro label hunowned
    exact ask_of_unowned hacyclic hs hunowned
  · intro label other answers hputs
    exact exact_of_sound hasserted (sound_of_puts hacyclic hputs (hs.mayPut label))
  · intro i classifier hclassifier hlabels
    obtain ⟨label, hlabel⟩ := List.exists_mem_of_ne_nil _ hlabels
    have hlabelKnown := hknown classifier (List.mem_of_getElem? hclassifier) label hlabel
    have hjudged := @hasJudged_of_known { query, registry, answers := t } ht.sound i classifier
      label hclassifier hlabel hlabelKnown
    exact ⟨(hasJudged_iff ht i).mp hjudged, hjudged⟩

/-- A classifier that asks nobody. -/
def plants : Classifier where
  labels := ["plant", "stone"]
  judge := fun _ => .assert ["plant"]

/-- A classifier that asks about a label of the other, and asserts a stray. -/
def greens : Classifier where
  labels := ["green"]
  judge := fun _ => .ask "plant" fun
    | .ok true => .assert ["green", "stone"]
    | _ => .assert []

def plantsAndGreens : Registry :=
  ⟨((Roster.register {} plants).2.register greens).2,
    (Roster.agrees_empty.register plants).register greens⟩

/-- A query of one word. -/
def oneWord : Query where
  root := .words ⟨0, 4⟩ "moss"
  text := "moss"
  rawText := "moss"
  cleanups := []
  warnings := []
  namespaces := .unspecified
  changed := fun h => absurd rfl h

theorem run_of_acyclic_plantsAndGreens :
    plantsAndGreens.Acyclic oneWord ∧
      ∀ calls, let c := run { query := oneWord, registry := plantsAndGreens } calls
        (c.ask "green").1 = .ok true ∧ (c.ask "stone").1 = .ok false ∧
          (∀ i, c.judgments i ≤ 1) ∧
          ∀ later, (c.preload.2.run later).judgments 0 = 1 ∧
            (c.preload.2.run later).judgments 1 = 1 := by
  have hacyclic : plantsAndGreens.Acyclic oneWord := by
    refine Registry.acyclic_of_mentions fun i j classifier label hclassifier hmentions howner => ?_
    match i with
    | 0 =>
        obtain rfl := Option.some.inj hclassifier
        cases hmentions
    | 1 =>
        obtain rfl := Option.some.inj hclassifier
        cases hmentions with
        | here =>
            obtain rfl := Option.some.inj howner
            exact Nat.zero_lt_one
        | later _ _ reply hlater =>
            revert hlater
            simp only
            split <;> exact fun hlater => nomatch hlater
    | _ + 2 => cases hclassifier
  obtain ⟨asserted, hasserted, hrun⟩ := run_of_acyclic plantsAndGreens oneWord hacyclic
  have hplants : plantsAndGreens.Settles oneWord (plants.judge oneWord) ["plant"] := .assert _
  have hgreens : plantsAndGreens.Settles oneWord (greens.judge oneWord) ["green", "stone"] :=
    .owned rfl rfl hplants (.assert _)
  have hfirst : asserted 0 = ["plant"] := (hasserted 0 plants rfl).unique hplants
  have hsecond : asserted 1 = ["green", "stone"] := (hasserted 1 greens rfl).unique hgreens
  refine ⟨hacyclic, fun calls => ?_⟩
  obtain ⟨howned, _, _, hexact, _, _, _, hpreload, _, hlater⟩ := hrun calls
  refine ⟨?_, ?_, hexact.once, fun later => ?_⟩
  · rw [howned 1 greens "green" rfl (by decide), hsecond]
    rfl
  · rw [howned 0 plants "stone" rfl (by decide), hfirst]
    rfl
  · rw [hlater later]
    exact ⟨(hpreload 0 plants rfl (by decide)).1, (hpreload 1 greens rfl (by decide)).1⟩

end Classification

end SearchCompiler
