/-!
Finite sets over a linear order, kept as ascending lists. Sets with the same
elements are equal, whatever was put in, in whatever order and how often.
-/

namespace SearchCompiler

section Insertion

variable {α : Type} [LT α] [DecidableLT α] [DecidableEq α]

/-- Puts an element in its place, unless it is there. -/
def insertSorted (x : α) : List α → List α
  | [] => [x]
  | y :: rest =>
      if x < y then x :: y :: rest
      else if x = y then y :: rest
      else y :: insertSorted x rest

theorem mem_insertSorted {x a : α} {xs : List α} :
    a ∈ insertSorted x xs ↔ a = x ∨ a ∈ xs := by
  induction xs with
  | nil => simp [insertSorted]
  | cons y rest ih =>
      unfold insertSorted
      split
      · simp
      · split
        · next h => subst h; simp
        · rw [List.mem_cons, ih, List.mem_cons]
          exact or_left_comm

theorem insertSorted_ascending [LE α] [Std.IsLinearOrder α] [Std.LawfulOrderLT α] (x : α)
    {xs : List α} (h : xs.Pairwise (· < ·)) : (insertSorted x xs).Pairwise (· < ·) := by
  induction xs with
  | nil => simp [insertSorted]
  | cons y rest ih =>
      obtain ⟨hy, hrest⟩ := List.pairwise_cons.mp h
      unfold insertSorted
      split
      · next hlt =>
          refine List.pairwise_cons.mpr ⟨fun a ha => ?_, h⟩
          rcases List.mem_cons.mp ha with rfl | ha
          · exact hlt
          · exact Std.lt_trans hlt (hy a ha)
      · next hlt =>
          split
          · exact h
          · next hne =>
              refine List.pairwise_cons.mpr ⟨fun a ha => ?_, ih hrest⟩
              rcases mem_insertSorted.mp ha with rfl | ha
              · exact Std.lt_of_le_of_ne (Std.not_lt.mp hlt) (fun h => hne h.symm)
              · exact hy a ha

end Insertion

structure SortedSet (α : Type) [LT α] where
  elements : List α
  ascending : elements.Pairwise (· < ·)
deriving DecidableEq

namespace SortedSet

section Order

variable {α : Type} [LT α]

def empty : SortedSet α := ⟨[], .nil⟩

instance : Inhabited (SortedSet α) := ⟨empty⟩

def isEmpty (set : SortedSet α) : Bool :=
  set.elements.isEmpty

/-- A set is determined by its elements. -/
theorem ext_mem [LE α] [Std.IsLinearOrder α] [Std.LawfulOrderLT α]
    {s t : SortedSet α} (h : ∀ a, a ∈ s.elements ↔ a ∈ t.elements) : s = t := by
  have nodup (r : SortedSet α) : r.elements.Nodup :=
    r.ascending.imp fun hlt => Std.ne_of_lt hlt
  have hperm : s.elements.Perm t.elements :=
    (List.perm_ext_iff_of_nodup (nodup s) (nodup t)).mpr h
  obtain ⟨xs, hxs⟩ := s
  obtain ⟨ys, hys⟩ := t
  obtain rfl : xs = ys := hperm.eq_of_pairwise
    (fun a b _ _ hab hba => absurd hba (Std.not_lt.mpr (Std.le_of_lt hab))) hxs hys
  rfl

end Order

variable {α : Type} [LE α] [LT α] [DecidableLT α] [DecidableEq α]
  [Std.IsLinearOrder α] [Std.LawfulOrderLT α]

def insert (set : SortedSet α) (x : α) : SortedSet α :=
  ⟨insertSorted x set.elements, insertSorted_ascending x set.ascending⟩

def ofList (xs : List α) : SortedSet α :=
  xs.foldl insert empty

theorem mem_insert {set : SortedSet α} {x a : α} :
    a ∈ (set.insert x).elements ↔ a = x ∨ a ∈ set.elements :=
  mem_insertSorted

theorem mem_foldl_insert {set : SortedSet α} {xs : List α} {a : α} :
    a ∈ (xs.foldl insert set).elements ↔ a ∈ xs ∨ a ∈ set.elements := by
  induction xs generalizing set with
  | nil => simp
  | cons x rest ih =>
      rw [List.foldl_cons, ih, mem_insert, List.mem_cons]
      exact ⟨fun h => h.elim (.inl ∘ .inr) (·.elim (.inl ∘ .inl) .inr),
        fun h => h.elim (·.elim (.inr ∘ .inl) .inl) (.inr ∘ .inr)⟩

theorem mem_ofList {xs : List α} {a : α} : a ∈ (ofList xs).elements ↔ a ∈ xs := by
  rw [ofList, mem_foldl_insert]
  simp [empty]

/-- Order and repetition do not matter to a set. -/
theorem ofList_congr {xs ys : List α} (h : ∀ a, a ∈ xs ↔ a ∈ ys) : ofList xs = ofList ys := by
  apply ext_mem
  intro a
  rw [mem_ofList, mem_ofList]
  exact h a

theorem ofList_elements (set : SortedSet α) : ofList set.elements = set := by
  apply ext_mem
  intro a
  exact mem_ofList

end SortedSet

end SearchCompiler
