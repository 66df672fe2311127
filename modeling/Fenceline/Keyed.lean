/-!
# Values under keys

Values under keys, each key once, in the order in which the keys first came.

**The laws.** `get?_set_self`, `get?_set_of_ne`: setting a value changes that value and no other.
`keys_set`: a key keeps its place; a new one comes last.
-/

namespace Fenceline

/-- Values under keys. -/
abbrev Keyed (κ α : Type) := List (κ × α)

namespace Keyed

variable {κ α : Type} [DecidableEq κ]

/-- The value under a key. -/
def get? : Keyed κ α → κ → Option α
  | [], _ => none
  | (k, v) :: d, key => if k = key then some v else get? d key

/-- The values with another one under a key. -/
def set : Keyed κ α → κ → α → Keyed κ α
  | [], key, value => [(key, value)]
  | (k, v) :: d, key, value => if k = key then (k, value) :: d else (k, v) :: set d key value

/-- The values under keys, a later one in the place of an earlier one with the same key. -/
def ofList (l : List (κ × α)) : Keyed κ α :=
  l.foldl (fun d p => set d p.1 p.2) []

@[simp] theorem get?_set_self (d : Keyed κ α) (key : κ) (value : α) :
    get? (set d key value) key = some value := by
  induction d with
  | nil => simp [set, get?]
  | cons p d ih => by_cases h : p.1 = key <;> simp [set, get?, h, ih]

theorem get?_set_of_ne (d : Keyed κ α) {key other : κ} (value : α) (h : other ≠ key) :
    get? (set d key value) other = get? d other := by
  induction d with
  | nil => simp [set, get?, Ne.symm h]
  | cons p d ih =>
    by_cases hp : p.1 = key
    · simp [set, get?, hp, Ne.symm h]
    · by_cases ho : p.1 = other
      · simp [set, get?, ho, h]
      · simp [set, get?, hp, ho, ih]

theorem set_set (d : Keyed κ α) (key : κ) (old new : α) : set (set d key old) key new = set d key new := by
  induction d with
  | nil => simp [set]
  | cons p d ih => by_cases h : p.1 = key <;> simp [set, h, ih]

theorem set_of_get? {d : Keyed κ α} {key : κ} {value : α} (h : get? d key = some value) :
    set d key value = d := by
  induction d with
  | nil => simp [get?] at h
  | cons p d ih =>
    obtain ⟨k, v⟩ := p
    by_cases hp : k = key
    · rw [get?, if_pos hp] at h
      rw [set, if_pos hp, hp, ← Option.some.inj h]
    · rw [get?, if_neg hp] at h
      rw [set, if_neg hp, ih h]

/-- A value under a key that is there may be set first or last. -/
theorem set_comm {d : Keyed κ α} {key other : κ} (hkey : (get? d key).isSome) (h : other ≠ key)
    (value new : α) : set (set d other new) key value = set (set d key value) other new := by
  induction d with
  | nil => simp [get?] at hkey
  | cons p d ih =>
    by_cases hp : p.1 = key
    · simp [set, hp, Ne.symm h]
    · by_cases ho : p.1 = other
      · simp [set, ho, h]
      · have hrest : (get? d key).isSome := by simpa [get?, hp] using hkey
        simp [set, hp, ho, ih hrest]

theorem keys_set (d : Keyed κ α) (key : κ) (value : α) :
    (set d key value).map (·.1) =
      if key ∈ d.map (·.1) then d.map (·.1) else d.map (·.1) ++ [key] := by
  induction d with
  | nil => simp [set]
  | cons p d ih =>
    by_cases h : p.1 = key
    · simp [set, h]
    · have h' : ¬ key = p.1 := fun e => h e.symm
      simp only [set, h, if_false, List.map_cons, ih, List.mem_cons, h', false_or]
      split <;> simp

end Keyed

end Fenceline
