import Mathlib.Data.List.Basic
import SearchCompiler.Profile
import SearchCompiler.Proofs.Folds
import SearchCompiler.Rescore

/-!
Names and profiles found again after they were registered. Tables are filled by appending
and searched from the end, so what was registered last is found first, and it does not
matter what was registered for something else. The name for a kind of profile in a context
is chosen in four steps, of which the second and the third read two tables that share
nothing.
-/

namespace SearchCompiler

/-- Something that is told to a profile service. -/
inductive Registration where
  /-- A name for a kind of profile in one context. -/
  | profile (kind : ProfileKind) (context name : String)
  /-- A name for a kind of profile in all other contexts. -/
  | fallback (kind : ProfileKind) (name : String)

namespace Registration

variable (kind : ProfileKind) (context : String)

def nameFor? : Registration → Option String
  | .profile k c name => if k = kind ∧ c = context then some name else none
  | .fallback _ _ => none

def fallbackFor? : Registration → Option String
  | .profile _ _ _ => none
  | .fallback k name => if k = kind then some name else none

/-- Whether a registration is about a kind of profile in a context. -/
def concerns : Registration → Bool
  | .profile k c _ => k == kind && c == context
  | .fallback k _ => k == kind

theorem nameFor?_eq_none (r : Registration) (h : r.concerns kind context = false) :
    r.nameFor? kind context = none := by
  cases r with
  | profile k c name =>
      refine if_neg ?_
      rintro ⟨rfl, rfl⟩
      simp [concerns] at h
  | fallback k name => rfl

theorem fallbackFor?_eq_none (r : Registration) (h : r.concerns kind context = false) :
    r.fallbackFor? kind = none := by
  cases r with
  | profile k c name => rfl
  | fallback k name =>
      refine if_neg ?_
      rintro rfl
      simp [concerns] at h

end Registration

namespace ProfileTable

def enter (table : ProfileTable) : Registration → ProfileTable
  | .profile kind context name => table.register kind context name
  | .fallback kind name => table.registerFallback kind name

/-- The table that registrations lead to. -/
def ofRegistrations (registrations : List Registration) : ProfileTable :=
  registrations.foldl enter {}

section Registrations

variable (kind : ProfileKind) (context : String)

theorem lookup_names_enter (table : ProfileTable) (r : Registration) :
    (table.enter r).names.reverse.lookup (kind, context) =
      (r.nameFor? kind context).or (table.names.reverse.lookup (kind, context)) := by
  cases r with
  | profile k c name =>
      have hconcat := lookup_reverse_concat table.names (k, c) (kind, context) name
      simp only [Prod.mk.injEq] at hconcat
      exact hconcat
  | fallback k name => rfl

theorem lookup_fallbacks_enter (table : ProfileTable) (r : Registration) :
    (table.enter r).fallbacks.reverse.lookup kind =
      (r.fallbackFor? kind).or (table.fallbacks.reverse.lookup kind) := by
  cases r with
  | profile k c name => rfl
  | fallback k name => exact lookup_reverse_concat table.fallbacks k kind name

/-- The parameter counts first, then the last name for the context, then the last
fallback. -/
theorem choose_ofRegistrations (registrations : List Registration) (params : Table String) :
    (ofRegistrations registrations).choose kind context params =
      (params.get? kind.parameter
        <|> (registrations.filterMap (Registration.nameFor? kind context)).getLast?
        <|> (registrations.filterMap (Registration.fallbackFor? kind)).getLast?).getD
          "default" := by
  have hnames : (ofRegistrations registrations).names.reverse.lookup (kind, context) =
      (registrations.filterMap (Registration.nameFor? kind context)).getLast? :=
    (foldl_latest_or (fun table : ProfileTable => table.names.reverse.lookup (kind, context)) _
      (lookup_names_enter kind context) registrations {}).trans Option.or_none
  have hfallbacks : (ofRegistrations registrations).fallbacks.reverse.lookup kind =
      (registrations.filterMap (Registration.fallbackFor? kind)).getLast? :=
    (foldl_latest_or (fun table : ProfileTable => table.fallbacks.reverse.lookup kind) _
      (lookup_fallbacks_enter kind) registrations {}).trans Option.or_none
  rw [choose, hnames, hfallbacks]

/-- Registrations for another kind or another context have no influence. -/
theorem choose_congr {registrations others : List Registration}
    (h : others.filter (·.concerns kind context) = registrations.filter (·.concerns kind context))
    (params : Table String) :
    (ofRegistrations others).choose kind context params =
      (ofRegistrations registrations).choose kind context params := by
  -- neither table gets anything from a registration that is left out
  have hpart {part : Registration → Option String}
      (hnone : ∀ r : Registration, r.concerns kind context = false → part r = none)
      (registrations : List Registration) :
      registrations.filterMap part =
        (registrations.filter (·.concerns kind context)).filterMap part := by
    rw [List.filterMap_filter]
    refine List.filterMap_congr fun r _ => ?_
    cases hconcerns : r.concerns kind context with
    | true => rfl
    | false => exact hnone r hconcerns
  have hnames := hpart fun r => r.nameFor?_eq_none kind context
  have hfallbacks := hpart fun r => r.fallbackFor?_eq_none kind context
  rw [choose_ofRegistrations, choose_ofRegistrations, hnames, hfallbacks, h, ← hnames,
    ← hfallbacks]

end Registrations

end ProfileTable

namespace RescoreProfiles

/-- The profiles that are known after they were loaded under their names. -/
def ofLoads (loads : List (String × RescoreProfile)) : RescoreProfiles :=
  loads.foldl (fun profiles load => profiles.register load.1 load.2) {}

/-- Of the profiles loaded under a name the last one is found. -/
theorem get?_ofLoads (loads : List (String × RescoreProfile)) (name : String) :
    (ofLoads loads).get? name =
      (loads.filterMap fun load => if load.1 = name then some load.2 else none).getLast? := by
  have hregister (profiles : RescoreProfiles) (load : String × RescoreProfile) :
      (profiles.register load.1 load.2).get? name =
        (if load.1 = name then some load.2 else none).or (profiles.get? name) :=
    lookup_reverse_concat profiles.entries load.1 name load.2
  exact (foldl_latest_or (RescoreProfiles.get? · name) _ hregister loads {}).trans Option.or_none

end RescoreProfiles

end SearchCompiler
