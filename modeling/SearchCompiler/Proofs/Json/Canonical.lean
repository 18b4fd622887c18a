import SearchCompiler.Json.Basic

/-!
The two zeros are one number to those who compare JSON values. Here a value is
brought to the form that knows only the positive zero; two values compare equal
exactly when they have that form in common. So what is proved of equations can be
said of comparisons.
-/

namespace SearchCompiler

/-- The number itself, but of the two zeros the positive one. -/
def Double.canonical (x : Double) : Double :=
  { x with negative := x.negative && !x.isZero }

theorem Double.same_iff (x y : Double) : x.same y = true ↔ x.canonical = y.canonical := by
  obtain ⟨negative, significand, scale, _, _, _⟩ := x
  obtain ⟨negative', significand', scale', _, _, _⟩ := y
  by_cases h : significand = significand'
  · subst h
    cases negative <;> cases negative' <;> simp [same, canonical, isZero, and_comm]
  · simp [same, canonical, h]

namespace Number

def canonical : Number → Number
  | .int value => .int value
  | .double value => .double value.canonical

theorem same_iff (a b : Number) : a.same b = true ↔ a.canonical = b.canonical := by
  cases a <;> cases b <;> simp [same, canonical, Double.same_iff]

end Number

mutual

def Json.canonical : Json → Json
  | .null => .null
  | .bool value => .bool value
  | .number value => .number value.canonical
  | .string value => .string value
  | .array items => .array (canonicalItems items)
  | .object entries => .object (canonicalEntries entries)

def canonicalItems : List Json → List Json
  | [] => []
  | item :: rest => item.canonical :: canonicalItems rest

def canonicalEntries : List (String × Json) → List (String × Json)
  | [] => []
  | (key, value) :: rest => (key, value.canonical) :: canonicalEntries rest

end

mutual

theorem Json.same_iff (a b : Json) : a.same b = true ↔ a.canonical = b.canonical := by
  cases a with
  | null | bool | string => cases b <;> simp [Json.same, Json.canonical]
  | number value => cases b <;> simp [Json.same, Json.canonical, Number.same_iff]
  | array items => cases b <;> simp [Json.same, Json.canonical, sameItems_iff items]
  | object entries => cases b <;> simp [Json.same, Json.canonical, sameEntries_iff entries]

theorem sameItems_iff (as bs : List Json) :
    sameItems as bs = true ↔ canonicalItems as = canonicalItems bs := by
  cases as with
  | nil => cases bs <;> simp [sameItems, canonicalItems]
  | cons a as =>
      cases bs <;> simp [sameItems, canonicalItems, Json.same_iff a, sameItems_iff as]

theorem sameEntries_iff (as bs : List (String × Json)) :
    sameEntries as bs = true ↔ canonicalEntries as = canonicalEntries bs := by
  match as, bs with
  | [], [] => simp [sameEntries, canonicalEntries]
  | [], _ :: _ => simp [sameEntries, canonicalEntries]
  | _ :: _, [] => simp [sameEntries, canonicalEntries]
  | (key, a) :: as, (key', b) :: bs =>
      simp [sameEntries, canonicalEntries, Json.same_iff a, sameEntries_iff as]

end

theorem canonicalEntries_eq_map (entries : List (String × Json)) :
    canonicalEntries entries = entries.map fun entry => (entry.1, entry.2.canonical) := by
  induction entries with
  | nil => rfl
  | cons entry rest ih => rw [canonicalEntries, ih, List.map_cons]

end SearchCompiler
