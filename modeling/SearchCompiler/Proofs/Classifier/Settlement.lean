import Mathlib.Data.Finset.Card
import Mathlib.Data.Finset.Range
import Mathlib.Logic.Relation
import SearchCompiler.Classifier.Membership

/-!
What classifiers come to, apart from how it is found out. A judgment is
settled when each of its questions gets the right answer, and the right answer
is what the owner of the label comes to itself. Nothing is kept between two
questions here, so the same classifier may be consulted many times.

A circle of questions leaves the classifiers in it unsettled. Without one,
questions lead to classifiers from which fewer others are reached, so every
classifier settles, and on one list of labels only.
-/

namespace SearchCompiler

namespace Registry

section Owners

variable {registry : Registry} {label : String} {owner : Nat} {classifier : Classifier}

theorem owner?_spec (h : registry.owner? label = some owner) :
    ∃ classifier, registry.classifiers[owner]? = some classifier ∧ label ∈ classifier.labels :=
  (registry.agrees label owner).mp h

theorem owner?_eq_none (h : ∀ classifier ∈ registry.classifiers, label ∉ classifier.labels) :
    registry.owner? label = none := by
  rw [Option.eq_none_iff_forall_ne_some]
  intro owner howner
  obtain ⟨classifier, hclassifier, hlabel⟩ := owner?_spec howner
  exact h classifier (List.mem_of_getElem? hclassifier) hlabel

/-- No two classifiers own the same label. -/
theorem owner?_eq_some (hclassifier : registry.classifiers[owner]? = some classifier)
    (hlabel : label ∈ classifier.labels) : registry.owner? label = some owner :=
  (registry.agrees label owner).mpr ⟨classifier, hclassifier, hlabel⟩

end Owners

section Settling

variable (registry : Registry) (query : Query)

/-- What a judgment comes to when all of its questions are answered rightly. -/
inductive Settles : Judgment → List String → Prop
  | assert (labels : List String) : Settles (.assert labels) labels
  | unowned {label : String} {next : Except QueryError Bool → Judgment} {labels : List String} :
      registry.owner? label = none →
        Settles (next (.error (.unknownClass label))) labels → Settles (.ask label next) labels
  | owned {label : String} {next : Except QueryError Bool → Judgment} {labels : List String}
      {owner : Nat} {classifier : Classifier} {asserted : List String} :
      registry.owner? label = some owner → registry.classifiers[owner]? = some classifier →
        Settles (classifier.judge query) asserted →
        Settles (next (.ok (asserted.contains label))) labels → Settles (.ask label next) labels

/-- The right answer about a label: that nobody owns it, or whether it is one
of those that its owner comes to. -/
inductive Replies (label : String) : Except QueryError Bool → Prop
  | unowned : registry.owner? label = none → Replies label (.error (.unknownClass label))
  | owned {owner : Nat} {classifier : Classifier} {asserted : List String} :
      registry.owner? label = some owner → registry.classifiers[owner]? = some classifier →
        Settles registry query (classifier.judge query) asserted →
        Replies label (.ok (asserted.contains label))

/-- How far a judgment gets with right answers. -/
inductive Reaches (start : Judgment) : Judgment → Prop
  | start : Reaches start start
  | ask {label : String} {next : Except QueryError Bool → Judgment}
      {reply : Except QueryError Bool} :
      Reaches start (.ask label next) → Replies registry query label reply →
        Reaches start (next reply)

/-- A classifier that, getting right answers, comes to ask about a label that
a second one owns. -/
def Asks (i j : Nat) : Prop :=
  ∃ classifier label next, registry.classifiers[i]? = some classifier ∧
    Reaches registry query (classifier.judge query) (.ask label next) ∧
    registry.owner? label = some j

/-- No chain of questions leads back to where it started. -/
def Acyclic : Prop :=
  ∀ i, ¬ Relation.TransGen (registry.Asks query) i i

end Settling

variable {registry : Registry} {query : Query}

theorem Settles.ask {label : String} {next : Except QueryError Bool → Judgment}
    {reply : Except QueryError Bool} {labels : List String}
    (hreply : Replies registry query label reply)
    (hnext : Settles registry query (next reply) labels) :
    Settles registry query (.ask label next) labels := by
  cases hreply with
  | unowned hnone => exact .unowned hnone hnext
  | owned howner hclassifier hasserted => exact .owned howner hclassifier hasserted hnext

/-- A judgment settles on one list of labels. -/
theorem Settles.unique {judgment : Judgment} {labels others : List String}
    (h : Settles registry query judgment labels) (hother : Settles registry query judgment others) :
    labels = others := by
  induction h generalizing others with
  | assert labels =>
      cases hother
      rfl
  | unowned hnone _ ih =>
      cases hother with
      | unowned _ hnext => exact ih hnext
      | owned howner => cases hnone.symm.trans howner
  | owned howner hclassifier _ _ ihasserted ihnext =>
      cases hother with
      | unowned hnone => cases hnone.symm.trans howner
      | owned howner' hclassifier' hasserted' hnext' =>
          obtain rfl := Option.some.inj (howner.symm.trans howner')
          obtain rfl := Option.some.inj (hclassifier.symm.trans hclassifier')
          obtain rfl := ihasserted hasserted'
          exact ihnext hnext'

section Depth

open Classical in
/-- How many classifiers a chain of questions can lead to. -/
noncomputable def depth (registry : Registry) (query : Query) (i : Nat) : Nat :=
  ((Finset.range registry.classifiers.length).filter
    fun j => Relation.TransGen (registry.Asks query) i j).card

/-- A unit of fuel for each classifier and one for the last question are
enough to put any question. -/
theorem depth_lt (i : Nat) : registry.depth query i < registry.classifiers.length + 1 := by
  classical
  have hfilter := Finset.card_filter_le (Finset.range registry.classifiers.length)
    fun j => Relation.TransGen (registry.Asks query) i j
  rw [Finset.card_range] at hfilter
  rw [depth]
  omega

/-- A question leads to a classifier from which fewer others are reached. -/
theorem depth_lt_of_asks (hacyclic : registry.Acyclic query) {i j : Nat}
    (hasks : registry.Asks query i j) : registry.depth query j < registry.depth query i := by
  classical
  obtain ⟨_, _, _, _, _, howner⟩ := id hasks
  obtain ⟨_, hclassifier, _⟩ := owner?_spec howner
  obtain ⟨hlt, _⟩ := List.getElem?_eq_some_iff.mp hclassifier
  rw [depth, depth]
  refine Finset.card_lt_card ((Finset.ssubset_iff_of_subset ?_).mpr ⟨j, ?_, ?_⟩)
  · intro k hk
    obtain ⟨hrange, hchain⟩ := Finset.mem_filter.mp hk
    exact Finset.mem_filter.mpr ⟨hrange, .head hasks hchain⟩
  · exact Finset.mem_filter.mpr ⟨Finset.mem_range.mpr hlt, .single hasks⟩
  · intro hmem
    exact hacyclic j (Finset.mem_filter.mp hmem).2

/-- One unit of fuel is enough to put a question. -/
theorem depth_lt_of_question (hacyclic : registry.Acyclic query) {i fuel : Nat} {label : String}
    (hasks : ∀ j, registry.owner? label = some j → registry.Asks query i j)
    (hfuel : registry.depth query i < fuel + 1) (j : Nat)
    (howner : registry.owner? label = some j) : registry.depth query j < fuel := by
  have hdepth := depth_lt_of_asks hacyclic (hasks j howner)
  omega

end Depth

/-- Without circles of questions every classifier settles. -/
theorem exists_settles (hacyclic : registry.Acyclic query) (i : Nat) (classifier : Classifier)
    (hclassifier : registry.classifiers[i]? = some classifier) :
    ∃ labels, Settles registry query (classifier.judge query) labels := by
  induction hdepth : registry.depth query i using Nat.strong_induction_on
    generalizing i classifier with
  | _ depth ih =>
      have hreached (judgment : Judgment)
          (hreach : Reaches registry query (classifier.judge query) judgment) :
          ∃ labels, Settles registry query judgment labels := by
        induction judgment with
        | assert labels => exact ⟨labels, .assert labels⟩
        | ask label next ihnext =>
            have hreply : ∃ reply, Replies registry query label reply := by
              cases howner : registry.owner? label with
              | none => exact ⟨_, .unowned howner⟩
              | some owner =>
                  obtain ⟨other, hother, _⟩ := owner?_spec howner
                  have hasks : registry.Asks query i owner :=
                    ⟨classifier, label, next, hclassifier, hreach, howner⟩
                  obtain ⟨asserted, hasserted⟩ := ih _
                    (hdepth ▸ depth_lt_of_asks hacyclic hasks) owner other hother rfl
                  exact ⟨_, .owned howner hother hasserted⟩
            obtain ⟨reply, hreply⟩ := hreply
            obtain ⟨labels, hlabels⟩ := ihnext reply (.ask hreach hreply)
            exact ⟨labels, hlabels.ask hreply⟩
      exact hreached _ .start

/-- What each classifier comes to. -/
theorem exists_verdicts (hacyclic : registry.Acyclic query) :
    ∃ asserted : Nat → List String, ∀ i classifier, registry.classifiers[i]? = some classifier →
      Settles registry query (classifier.judge query) (asserted i) := by
  have hverdict (i : Nat) : ∃ labels, ∀ classifier,
      registry.classifiers[i]? = some classifier →
        Settles registry query (classifier.judge query) labels := by
    cases hclassifier : registry.classifiers[i]? with
    | none => exact ⟨[], by simp⟩
    | some classifier =>
        obtain ⟨labels, hlabels⟩ := exists_settles hacyclic i classifier hclassifier
        exact ⟨labels, fun _ heq => Option.some.inj heq ▸ hlabels⟩
  exact ⟨fun i => (hverdict i).choose, fun i => (hverdict i).choose_spec⟩

end Registry

/-- A judgment asks about a label somewhere, for some answers. -/
inductive Judgment.Mentions (label : String) : Judgment → Prop
  | here (next : Except QueryError Bool → Judgment) : Mentions label (.ask label next)
  | later (other : String) (next : Except QueryError Bool → Judgment)
      (reply : Except QueryError Bool) :
      Mentions label (next reply) → Mentions label (.ask other next)

namespace Registry

variable {registry : Registry} {query : Query}

theorem Reaches.mentions {start judgment : Judgment} {label : String}
    (h : Reaches registry query start judgment) (hmentions : judgment.Mentions label) :
    start.Mentions label := by
  induction h with
  | start => exact hmentions
  | @ask other next reply _ _ ih => exact ih (.later other next reply hmentions)

/-- There are no circles when classifiers only ever ask about labels of
classifiers that were registered before them. -/
theorem acyclic_of_mentions
    (h : ∀ i j classifier label, registry.classifiers[i]? = some classifier →
      (classifier.judge query).Mentions label → registry.owner? label = some j → j < i) :
    registry.Acyclic query := by
  have hbefore (i j : Nat) (hasks : registry.Asks query i j) : j < i := by
    obtain ⟨classifier, label, next, hclassifier, hreach, howner⟩ := hasks
    exact h i j classifier label hclassifier (hreach.mentions (.here next)) howner
  have hchain (i j : Nat) (hchain : Relation.TransGen (registry.Asks query) i j) : j < i := by
    induction hchain with
    | single hasks => exact hbefore _ _ hasks
    | tail _ hasks ih => exact (hbefore _ _ hasks).trans ih
  exact fun i hcycle => Nat.lt_irrefl i (hchain i i hcycle)

end Registry

end SearchCompiler
