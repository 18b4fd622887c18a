import SearchCompiler.Proofs.Draft.Agreement

/-!
The search type of a draft, read off the uses that were recorded. A record changes
weights in place, so the lead may pass from one feature to another and back; but
what is in force at the end is the last weight of each feature, and among equals
the feature that was used first.
-/

namespace SearchCompiler

/-- The weight that a feature was given last. -/
def weightInForce (uses : List (String × UInt64)) (name : String) : Option UInt64 :=
  uses.reverse.lookup name

/-- The feature is heavier than all that were used before it for the first time,
and as heavy as any that was first used later. -/
def Prevails (uses : List (String × UInt64)) (name : String) : Prop :=
  ∃ before after weight, (uses.map Prod.fst).eraseDups = before ++ name :: after ∧
    weightInForce uses name = some weight ∧
    (∀ other ∈ before, ∀ w ∈ weightInForce uses other, w < weight) ∧
    ∀ other ∈ after, ∀ w ∈ weightInForce uses other, w ≤ weight

section Record

variable (uses : List (String × UInt64))

theorem names_recordAll_nil :
    (recordAll [] uses).map Prod.fst = (uses.map Prod.fst).eraseDups := by
  rw [names_recordAll, List.map_nil, List.removeAll_nil, List.nil_append]

theorem lookup_recordAll_nil (name : String) :
    (recordAll [] uses).lookup name = weightInForce uses name := by
  rw [lookup_recordAll, List.lookup_nil, Option.or_none, weightInForce]

theorem nodup_recordAll_nil : ((recordAll [] uses).map Prod.fst).Nodup :=
  @nodup_recordAll [] List.nodup_nil uses

theorem mem_recordAll_nil {name : String} {weight : UInt64} :
    (name, weight) ∈ recordAll [] uses ↔ weightInForce uses name = some weight := by
  rw [mem_iff_lookup_eq_some (nodup_recordAll_nil uses), lookup_recordAll_nil]

/-- The heaviest entry of a record is that of the feature that prevails. -/
theorem heaviest_recordAll_iff {name : String} :
    (∃ weight, heaviest (recordAll [] uses) = some (name, weight)) ↔ Prevails uses name := by
  have hweight {entry : String × UInt64} (hentry : entry ∈ recordAll [] uses) :
      weightInForce uses entry.1 = some entry.2 :=
    (mem_recordAll_nil uses).mp hentry
  constructor
  · rintro ⟨weight, hheaviest⟩
    obtain ⟨before, after, hsplit, hbefore, hafter⟩ := heaviest_eq_some_iff.mp hheaviest
    refine ⟨before.map Prod.fst, after.map Prod.fst, weight, ?_, ?_, ?_, ?_⟩
    · rw [← names_recordAll_nil, hsplit, List.map_append, List.map_cons]
    · exact (mem_recordAll_nil uses).mp (by simp [hsplit])
    · intro other hother w hw
      obtain ⟨entry, hentry, rfl⟩ := List.mem_map.mp hother
      rw [hweight (by simp [hsplit, hentry])] at hw
      exact Option.some.inj hw ▸ hbefore entry hentry
    · intro other hother w hw
      obtain ⟨entry, hentry, rfl⟩ := List.mem_map.mp hother
      rw [hweight (by simp [hsplit, hentry])] at hw
      exact Option.some.inj hw ▸ hafter entry hentry
  · rintro ⟨names, others, weight, hnames, hforce, hlighter, hlight⟩
    -- where the names split, the record splits, for it lists them in this order
    rw [← names_recordAll_nil] at hnames
    obtain ⟨before, rest, hsplit, hbefore, hrest⟩ := List.map_eq_append_iff.mp hnames
    obtain ⟨heavy, after, rfl, rfl, hafter⟩ := List.map_eq_cons_iff.mp hrest
    have hheavy : heavy.2 = weight := by
      rw [hweight (by simp [hsplit])] at hforce
      exact Option.some.inj hforce
    refine ⟨heavy.2, heaviest_eq_some_iff.mpr ⟨before, after, hsplit, ?_, ?_⟩⟩
    · intro entry hentry
      rw [hheavy]
      exact hlighter entry.1 (hbefore ▸ List.mem_map_of_mem hentry) entry.2
        (hweight (by simp [hsplit, hentry]))
    · intro entry hentry
      rw [hheavy]
      exact hlight entry.1 (hafter ▸ List.mem_map_of_mem hentry) entry.2
        (hweight (by simp [hsplit, hentry]))

theorem heaviest_recordAll_eq_none_iff : heaviest (recordAll [] uses) = none ↔ uses = [] := by
  have hnames := names_recordAll_nil uses
  cases uses with
  | nil => exact iff_of_true rfl rfl
  | cons use rest =>
      refine iff_of_false ?_ (List.cons_ne_nil use rest)
      cases hrecord : recordAll [] (use :: rest) with
      | nil =>
          rw [hrecord, List.map_cons, List.eraseDups_cons] at hnames
          cases hnames
      | cons => exact Option.some_ne_none _

end Record

namespace Draft

/-- Recording uses in a draft is recording them in its list. -/
theorem featuresUsed_foldl_addFeature (uses : List (String × UInt64)) (draft : Draft) :
    ((uses.map fun use => Change.addFeature use.1 use.2).foldl apply draft).featuresUsed =
      recordAll draft.featuresUsed uses := by
  induction uses generalizing draft with
  | nil => rfl
  | cons use rest ih => exact ih _

/-- After any sequence of uses each feature is known once, at the place of its first
use and with the weight of its last one. The search type is the feature that prevails,
and full text when nothing was used. -/
theorem searchType_of_uses (settings : Settings) (profiles : ProfileService)
    (uses : List (String × UInt64)) :
    let draft := (uses.map fun use => Change.addFeature use.1 use.2).foldl apply
      (fresh settings profiles)
    draft.featureNames = (uses.map Prod.fst).eraseDups ∧
    draft.featureNames.Nodup ∧
    (∀ name weight, (name, weight) ∈ draft.featuresUsed ↔
      weightInForce uses name = some weight) ∧
    (∀ name, draft.usesFeature name ↔ name ∈ uses.map Prod.fst) ∧
    ∀ name, draft.searchType = name ↔
      (uses = [] ∧ name = "full_text") ∨ Prevails uses name := by
  intro draft
  have hused : draft.featuresUsed = recordAll [] uses := featuresUsed_foldl_addFeature uses _
  have hnames : draft.featureNames = (uses.map Prod.fst).eraseDups := by
    rw [featureNames, hused, names_recordAll_nil]
  refine ⟨hnames, ?_, ?_, ?_, ?_⟩
  · rw [featureNames, hused]
    exact nodup_recordAll_nil uses
  · intro name weight
    rw [hused, mem_recordAll_nil]
  · intro name
    rw [← List.mem_eraseDups, ← hnames]
    simp [usesFeature, featureNames]
  · intro name
    rw [← heaviest_recordAll_iff, ← heaviest_recordAll_eq_none_iff, searchType, hused]
    cases heaviest (recordAll [] uses) with
    | none => simp [eq_comm]
    | some heavy => simp [Prod.ext_iff]

/-- The second feature takes the lead and gives it back. -/
example : (([("regex", 20), ("phrase", 30), ("phrase", 5)].map fun use =>
    Change.addFeature use.1 use.2).foldl apply
      (fresh {} (ProfileTable.service {}))).searchType = "regex" := by
  decide

end Draft

end SearchCompiler
