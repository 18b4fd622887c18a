import Mathlib.Logic.Basic
import Mathlib.Logic.Relation

/-!
One part of a state over a run of steps. A list that each step may add to holds in the end
what was there and behind it all that was added, and of a value that each step may set the
last setting counts. The rest of the state may change as it likes; so a draft is read off
its history, and a table off what was registered. A value that no step changes is the same
after all of them, back and forth.
-/

namespace SearchCompiler

section Runs

variable {σ ρ β : Type} {step : σ → ρ → σ}

/-- A value that no step changes. -/
theorem foldl_keeps (view : σ → β) (h : ∀ state r, view (step state r) = view state)
    (rs : List ρ) (state : σ) : view (rs.foldl step state) = view state := by
  induction rs generalizing state with
  | nil => rfl
  | cons r rest ih => rw [List.foldl_cons, ih, h]

/-- A list to which each step adds what it brings. -/
theorem foldl_gathers (view : σ → List β) (brings : ρ → Option β)
    (h : ∀ state r, view (step state r) = view state ++ (brings r).toList) (rs : List ρ)
    (state : σ) : view (rs.foldl step state) = view state ++ rs.filterMap brings := by
  induction rs generalizing state with
  | nil => simp
  | cons r rest ih =>
      rw [List.foldl_cons, ih, h, List.append_assoc]
      cases hr : brings r <;> simp [hr]

/-- A value that some steps set: the last of them counts. -/
theorem foldl_latest (view : σ → β) (sets : ρ → Option β)
    (h : ∀ state r, view (step state r) = (sets r).getD (view state)) (rs : List ρ) (state : σ) :
    view (rs.foldl step state) = (rs.filterMap sets).getLast?.getD (view state) := by
  induction rs generalizing state with
  | nil => rfl
  | cons r rest ih =>
      rw [List.foldl_cons, ih, h]
      cases hr : sets r with
      | none => simp [hr]
      | some value => simp [hr, List.getLast?_cons]

/-- A value that may be missing and is set by some steps, removed by none. -/
theorem foldl_latest_or (view : σ → Option β) (sets : ρ → Option β)
    (h : ∀ state r, view (step state r) = (sets r).or (view state)) (rs : List ρ) (state : σ) :
    view (rs.foldl step state) = (rs.filterMap sets).getLast?.or (view state) := by
  have hsome (x y : Option β) : x.or y = (x.map some).getD y := by
    cases x <;> rfl
  have hlatest := foldl_latest view (fun r => (sets r).map some)
    (fun state r => (h state r).trans (hsome _ _)) rs state
  rw [hlatest, hsome, ← List.map_filterMap, List.getLast?_map]

end Runs

/-- In a list that is searched from its end, what was appended last is found first. -/
theorem lookup_reverse_concat {α β : Type} [BEq α] [LawfulBEq α] [DecidableEq α]
    (entries : List (α × β)) (key other : α) (value : β) :
    (entries ++ [(key, value)]).reverse.lookup other =
      (if key = other then some value else none).or (entries.reverse.lookup other) := by
  rw [List.reverse_concat, List.lookup_cons]
  by_cases heq : key = other
  · rw [if_pos heq, heq, beq_self_eq_true]
    rfl
  · rw [if_neg heq, beq_eq_false_iff_ne.mpr (Ne.symm heq)]
    rfl

/-- What no single change touches, no series of changes and of their reversals
does. -/
theorem eq_of_eqvGen {α β : Type} {change : α → α → Prop} (value : α → β)
    (hstep : ∀ a b, change a b → value b = value a) {a b : α} (h : Relation.EqvGen change a b) :
    value b = value a := by
  have hsame : Relation.EqvGen (fun a b => value a = value b) a b :=
    h.mono fun a b hchange => (hstep a b hchange).symm
  exact ((eq_equivalence.comap value).eqvGen_iff.mp hsame).symm

end SearchCompiler
