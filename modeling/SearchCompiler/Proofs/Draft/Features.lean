import SearchCompiler.Draft.Basic

/-!
Records of features. A feature that is used again keeps its place and takes the
new weight, so a record names every feature once, in the order of first use.
What was recorded on its own can be recorded on top of an older record, entry
by entry, with the same outcome as if all uses had gone there directly.
-/

namespace SearchCompiler

/-- Records entries one after the other. -/
def recordAll (used : List (String × UInt64)) : List (String × UInt64) → List (String × UInt64)
  | [] => used
  | (name, weight) :: rest => recordAll (recordFeature name weight used) rest

section Record

variable {name other : String} {weight : UInt64} {used : List (String × UInt64)}

theorem names_recordFeature :
    (recordFeature name weight used).map Prod.fst =
      if name ∈ used.map Prod.fst then used.map Prod.fst else used.map Prod.fst ++ [name] := by
  induction used with
  | nil => simp [recordFeature]
  | cons entry rest ih =>
      obtain ⟨first, old⟩ := entry
      unfold recordFeature
      split
      · next heq => simp [heq]
      · next hne =>
          rw [List.map_cons, ih]
          by_cases hrest : name ∈ rest.map Prod.fst
          · simp [hrest]
          · simp [hrest, Ne.symm hne]

theorem nodup_recordFeature (h : (used.map Prod.fst).Nodup) :
    ((recordFeature name weight used).map Prod.fst).Nodup := by
  rw [names_recordFeature]
  split
  · exact h
  · next hfresh =>
      refine List.nodup_append.mpr ⟨h, List.pairwise_singleton _ name, ?_⟩
      intro first hfirst second hsecond
      obtain rfl := List.mem_singleton.mp hsecond
      exact fun heq => hfresh (heq ▸ hfirst)

theorem mem_names_recordFeature :
    name ∈ (recordFeature other weight used).map Prod.fst ↔
      name = other ∨ name ∈ used.map Prod.fst := by
  rw [names_recordFeature]
  split
  · next hplace =>
      refine ⟨.inr, ?_⟩
      rintro (rfl | h)
      · exact hplace
      · exact h
  · rw [List.mem_append, List.mem_singleton, or_comm]

theorem mem_names_recordAll (entries : List (String × UInt64)) :
    name ∈ (recordAll used entries).map Prod.fst ↔
      name ∈ used.map Prod.fst ∨ name ∈ entries.map Prod.fst := by
  induction entries generalizing used with
  | nil => simp [recordAll]
  | cons entry rest ih =>
      obtain ⟨first, weight⟩ := entry
      rw [recordAll, ih, mem_names_recordFeature, List.map_cons, List.mem_cons, or_assoc,
        or_left_comm]

/-- The names that were not used before follow those that were, each at its first
use. -/
theorem names_recordAll (entries : List (String × UInt64)) :
    (recordAll used entries).map Prod.fst =
      used.map Prod.fst ++ ((entries.map Prod.fst).removeAll (used.map Prod.fst)).eraseDups := by
  induction entries generalizing used with
  | nil => exact (List.append_nil _).symm
  | cons entry rest ih =>
      obtain ⟨name, weight⟩ := entry
      rw [recordAll, ih, names_recordFeature, List.map_cons, List.cons_removeAll]
      by_cases hplace : name ∈ used.map Prod.fst
      · simp [hplace]
      · have hlater : (rest.map Prod.fst).removeAll (used.map Prod.fst ++ [name]) =
            ((rest.map Prod.fst).removeAll (used.map Prod.fst)).filter (!· == name) := by
          simp only [List.removeAll, List.filter_filter]
          exact List.filter_congr fun other _ => by grind
        rw [if_neg hplace, hlater, if_pos (by simpa using hplace), List.eraseDups_cons,
          List.append_assoc, List.singleton_append]

theorem mem_of_mem_recordFeature {entry : String × UInt64}
    (h : entry ∈ recordFeature name weight used) : entry = (name, weight) ∨ entry ∈ used := by
  induction used with
  | nil => exact .inl (List.mem_singleton.mp h)
  | cons first rest ih =>
      unfold recordFeature at h
      split at h
      · exact (List.mem_cons.mp h).imp_right (List.mem_cons_of_mem _)
      · rcases List.mem_cons.mp h with rfl | hrest
        · exact .inr List.mem_cons_self
        · exact (ih hrest).imp_right (List.mem_cons_of_mem _)

theorem mem_of_mem_recordAll {entry : String × UInt64} (entries : List (String × UInt64))
    (h : entry ∈ recordAll used entries) : entry ∈ entries ∨ entry ∈ used := by
  induction entries generalizing used with
  | nil => exact .inr h
  | cons first rest ih =>
      rcases ih h with hrest | hrecorded
      · exact .inl (List.mem_cons_of_mem _ hrest)
      · rcases mem_of_mem_recordFeature hrecorded with rfl | hused
        · exact .inl List.mem_cons_self
        · exact .inr hused

theorem nodup_recordAll (h : (used.map Prod.fst).Nodup) (entries : List (String × UInt64)) :
    ((recordAll used entries).map Prod.fst).Nodup := by
  induction entries generalizing used with
  | nil => exact h
  | cons entry rest ih => exact ih (nodup_recordFeature h)

/-- A feature is recorded with the weight of its last use; the other weights stay. -/
theorem lookup_recordFeature :
    (recordFeature name weight used).lookup other =
      if other = name then some weight else used.lookup other := by
  induction used with
  | nil => exact lookup_cons_eq other name weight []
  | cons entry rest ih =>
      obtain ⟨first, old⟩ := entry
      unfold recordFeature
      split
      · next heq =>
          subst heq
          rw [lookup_cons_eq, lookup_cons_eq]
          split <;> rfl
      · next hne =>
          rw [lookup_cons_eq, lookup_cons_eq, ih]
          by_cases hfirst : other = first
          · subst hfirst
            simp [hne]
          · simp [hfirst]

/-- Of all uses of a feature the last one gives its weight. -/
theorem lookup_recordAll (entries : List (String × UInt64)) :
    (recordAll used entries).lookup name =
      (entries.reverse.lookup name).or (used.lookup name) := by
  induction entries generalizing used with
  | nil => rfl
  | cons entry rest ih =>
      obtain ⟨first, weight⟩ := entry
      rw [recordAll, ih, lookup_recordFeature, List.reverse_cons, List.lookup_append,
        lookup_cons_eq, Option.or_assoc]
      split <;> rfl

end Record

section Heaviest

variable {heavy : String × UInt64} {before after entries : List (String × UInt64)}

/-- The heaviest entry is heavier than all before it and as heavy as any after
it. -/
theorem heaviest_append (hbefore : ∀ entry ∈ before, entry.2 < heavy.2)
    (hafter : ∀ entry ∈ after, entry.2 ≤ heavy.2) :
    heaviest (before ++ heavy :: after) = some heavy := by
  -- what leads when the heaviest entry is reached is lighter, and nothing that
  -- comes later takes the lead from it
  have hkept : after.foldl (fun best next => if best.2 < next.2 then next else best) heavy =
      heavy := by
    induction after with
    | nil => rfl
    | cons next rest ih =>
        obtain ⟨hnext, hrest⟩ := List.forall_mem_cons.mp hafter
        rw [List.foldl_cons, if_neg (UInt64.not_lt.mpr hnext)]
        exact ih hrest
  have htaken (rest : List (String × UInt64)) (hrest : ∀ entry ∈ rest, entry.2 < heavy.2)
      (lead : String × UInt64) (hlead : lead.2 < heavy.2) :
      (rest ++ heavy :: after).foldl (fun best next => if best.2 < next.2 then next else best)
        lead = heavy := by
    induction rest generalizing lead with
    | nil => rw [List.nil_append, List.foldl_cons, if_pos hlead, hkept]
    | cons next others ih =>
        obtain ⟨hnext, hothers⟩ := List.forall_mem_cons.mp hrest
        rw [List.cons_append, List.foldl_cons]
        refine ih hothers _ ?_
        split
        · exact hnext
        · exact hlead
  cases before with
  | nil => exact congrArg some hkept
  | cons first rest =>
      obtain ⟨hfirst, hrest⟩ := List.forall_mem_cons.mp hbefore
      exact congrArg some (htaken rest hrest first hfirst)

/-- Some entry is heavier than all before it and as heavy as any after it. -/
theorem exists_heaviest (h : entries ≠ []) :
    ∃ before heavy after, entries = before ++ heavy :: after ∧
      (∀ entry ∈ before, entry.2 < heavy.2) ∧ ∀ entry ∈ after, entry.2 ≤ heavy.2 := by
  induction entries with
  | nil => exact absurd rfl h
  | cons first rest ih =>
      by_cases hrest : rest = []
      · exact ⟨[], first, [], by rw [hrest]; rfl, by simp, by simp⟩
      obtain ⟨before, heavy, after, rfl, hbefore, hafter⟩ := ih hrest
      by_cases hlt : first.2 < heavy.2
      · exact ⟨first :: before, heavy, after, rfl, List.forall_mem_cons.mpr ⟨hlt, hbefore⟩, hafter⟩
      · have hheavy : heavy.2 ≤ first.2 := UInt64.not_lt.mp hlt
        refine ⟨[], first, _, rfl, by simp, ?_⟩
        intro entry hentry
        rcases List.mem_append.mp hentry with hentry | hentry
        · exact UInt64.le_trans (UInt64.le_of_lt (hbefore entry hentry)) hheavy
        · rcases List.mem_cons.mp hentry with rfl | hentry
          · exact hheavy
          · exact UInt64.le_trans (hafter entry hentry) hheavy

theorem heaviest_eq_some_iff :
    heaviest entries = some heavy ↔
      ∃ before after, entries = before ++ heavy :: after ∧
        (∀ entry ∈ before, entry.2 < heavy.2) ∧ ∀ entry ∈ after, entry.2 ≤ heavy.2 := by
  constructor
  · intro h
    have hsome : entries ≠ [] := by
      rintro rfl
      cases h
    obtain ⟨before, leader, after, rfl, hbefore, hafter⟩ := exists_heaviest hsome
    obtain rfl := Option.some.inj ((heaviest_append hbefore hafter).symm.trans h)
    exact ⟨before, after, rfl, hbefore, hafter⟩
  · rintro ⟨before, after, rfl, hbefore, hafter⟩
    exact heaviest_append hbefore hafter

end Heaviest

/-- Of entries that weigh the same, the first is the heaviest. -/
theorem heaviest_of_same_weight {entries : List (String × UInt64)} {weight : UInt64}
    (h : ∀ entry ∈ entries, entry.2 = weight) : heaviest entries = entries.head? := by
  cases entries with
  | nil => rfl
  | cons first rest =>
      obtain ⟨hfirst, hrest⟩ := List.forall_mem_cons.mp h
      have hafter : ∀ entry ∈ rest, entry.2 ≤ first.2 := fun entry hentry => by
        rw [hfirst, hrest entry hentry]
        exact UInt64.le_refl weight
      change heaviest ([] ++ first :: rest) = some first
      exact heaviest_append (by simp) hafter

section Recorded

variable {name : String} {weight : UInt64} {used entries : List (String × UInt64)}

end Recorded

end SearchCompiler
