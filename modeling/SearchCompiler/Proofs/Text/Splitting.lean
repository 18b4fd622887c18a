import SearchCompiler.Text.Words

/-!
Words and the texts that they make. The words of a text are what stands between
its blanks, where nothing stands between two blanks that are next to each other.
Words that were put side by side are found again, whatever texts they came from.
-/

namespace SearchCompiler

section Split

variable {c d : Char} {rest : List Char}

theorem splitWords_of_blank (hc : isBlank c = true) : splitWords (c :: rest) = splitWords rest := by
  conv => lhs; unfold splitWords
  exact if_pos hc

/-- A word ends before a blank. -/
theorem splitWords_of_solid_blank (hc : isBlank c = false) (hd : isBlank d = true) :
    splitWords (c :: d :: rest) = [c] :: splitWords (d :: rest) := by
  have hc' : ¬ isBlank c = true := Bool.eq_false_iff.mp hc
  conv => lhs; unfold splitWords
  rw [if_neg hc']
  cases splitWords (d :: rest) with
  | nil => rfl
  | cons word words => exact if_pos hd

/-- Elsewhere it takes up the next character. -/
theorem splitWords_of_solid_solid (hc : isBlank c = false) (hd : isBlank d = false)
    {word : List Char} {words : List (List Char)} (hrest : splitWords (d :: rest) = word :: words) :
    splitWords (c :: d :: rest) = (c :: word) :: words := by
  have hc' : ¬ isBlank c = true := Bool.eq_false_iff.mp hc
  have hd' : ¬ isBlank d = true := Bool.eq_false_iff.mp hd
  conv => lhs; unfold splitWords
  rw [if_neg hc', hrest]
  exact if_neg hd'

theorem splitWords_singleton (hc : isBlank c = false) : splitWords [c] = [[c]] := by
  have hc' : ¬ isBlank c = true := Bool.eq_false_iff.mp hc
  conv => lhs; unfold splitWords
  exact if_neg hc'

end Split

/-- Every blank splits, and what is empty is left out. -/
theorem splitWords_eq_filter (cs : List Char) :
    splitWords cs = (cs.splitOnP isBlank).filter (!·.isEmpty) := by
  induction cs with
  | nil => rfl
  | cons c rest ih =>
      rw [List.splitOnP_cons_eq_if_modifyHead]
      cases hc : isBlank c with
      | true => rw [splitWords_of_blank hc, ih]; rfl
      | false =>
          -- whether a word goes on is seen from the next character, so the tail is
          -- taken apart once more before the hypothesis about it applies
          cases rest with
          | nil => rw [splitWords_singleton hc]; rfl
          | cons d after =>
              obtain ⟨first, others, hparts⟩ :=
                List.exists_cons_of_ne_nil (after.splitOnP_ne_nil isBlank)
              rw [List.splitOnP_cons_eq_if_modifyHead] at ih ⊢
              cases hd : isBlank d with
              | true =>
                  rw [splitWords_of_solid_blank hc hd, ih, hd]
                  rfl
              | false =>
                  rw [hd, hparts] at ih
                  rw [splitWords_of_solid_solid hc hd ih, hparts]
                  rfl

/-- Something without a blank in it. -/
structure IsWord (word : List Char) : Prop where
  nonempty : word ≠ []
  solid : ∀ c ∈ word, isBlank c = false

theorem solid_of_mem_splitOnP (cs : List Char) :
    ∀ part ∈ cs.splitOnP isBlank, ∀ c ∈ part, isBlank c = false := by
  induction cs with
  | nil => simp
  | cons c rest ih =>
      rw [List.splitOnP_cons_eq_if_modifyHead]
      cases hc : isBlank c with
      | true => exact List.forall_mem_cons.mpr ⟨by simp, ih⟩
      | false =>
          obtain ⟨first, others, hparts⟩ :=
            List.exists_cons_of_ne_nil (rest.splitOnP_ne_nil isBlank)
          obtain ⟨hfirst, hothers⟩ := List.forall_mem_cons.mp (hparts ▸ ih)
          rw [hparts]
          exact List.forall_mem_cons.mpr ⟨List.forall_mem_cons.mpr ⟨hc, hfirst⟩, hothers⟩

theorem isWord_of_mem_splitWords {cs word : List Char} (h : word ∈ splitWords cs) :
    IsWord word := by
  rw [splitWords_eq_filter, List.mem_filter] at h
  exact ⟨by simpa using h.2, solid_of_mem_splitOnP cs word h.1⟩

section Join

variable {blank : Char} (hblank : isBlank blank = true)

theorem splitWords_of_isWord {word : List Char} (h : IsWord word) : splitWords word = [word] := by
  rw [splitWords_eq_filter, List.splitOnP_eq_singleton h.solid]
  simp [h.nonempty]

include hblank

/-- Two texts with a blank between them have the words of both. -/
theorem splitWords_append_cons (before after : List Char) :
    splitWords (before ++ blank :: after) = splitWords before ++ splitWords after := by
  simp only [splitWords_eq_filter, List.splitOnP_append_cons before after hblank,
    List.filter_append]

/-- Words with a blank between neighbours are what they are split into. -/
theorem splitWords_intercalate {words : List (List Char)} (hwords : ∀ word ∈ words, IsWord word) :
    splitWords ([blank].intercalate words) = words := by
  induction words with
  | nil => rfl
  | cons word rest ih =>
      obtain ⟨hword, hrest⟩ := List.forall_mem_cons.mp hwords
      cases rest with
      | nil => rw [List.intercalate_singleton, splitWords_of_isWord hword]
      | cons next others =>
          rw [List.intercalate_cons_cons, List.append_assoc, List.singleton_append,
            splitWords_append_cons hblank, splitWords_of_isWord hword, ih hrest,
            List.singleton_append]

end Join

theorem isWord_of_mem_wordsOf {text word : String} (h : word ∈ wordsOf text) :
    IsWord word.toList := by
  obtain ⟨cs, hcs, rfl⟩ := List.mem_map.mp h
  rw [String.toList_ofList]
  exact isWord_of_mem_splitWords hcs

/-- Words that were put side by side are the words of the text that they make. -/
theorem wordsOf_joinWords {words : List String} (hwords : ∀ word ∈ words, IsWord word.toList) :
    wordsOf (joinWords words) = words := by
  have hsplit : splitWords ([' '].intercalate (words.map String.toList)) =
      words.map String.toList := by
    refine splitWords_intercalate rfl fun cs hcs => ?_
    obtain ⟨word, hword, rfl⟩ := List.mem_map.mp hcs
    exact hwords word hword
  have hspace : " ".toList = [' '] := by decide
  rw [wordsOf, joinWords, String.toList_intercalate, hspace, hsplit, List.map_map]
  simp

end SearchCompiler
