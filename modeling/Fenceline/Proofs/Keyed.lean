import Fenceline.Keyed
import Mathlib.Data.List.Induction
import Mathlib.Data.List.Nodup

/-!
# Values given with their keys

A list of values with their keys becomes values under keys, and a later one takes the place of an earlier one.

**The laws.** `mem_of_mem_ofList`: what is under a key was given with it. `get?_ofList`: it is the last one that
was. `ofList_of_nodup`: nothing is lost where all keys differ. `filter_set_of_get?_eq_none`: a value under a new key
can be taken out again.
-/

namespace Fenceline.Keyed

variable {κ α : Type} [DecidableEq κ]

/-- A value under a new key comes last. -/
theorem set_of_not_mem {d : Keyed κ α} {key : κ} (h : key ∉ d.map (·.1)) (value : α) :
    d.set key value = d ++ [(key, value)] := by
  induction d with
  | nil => rfl
  | cons p d ih =>
    rw [List.map_cons, List.mem_cons, not_or] at h
    rw [set, if_neg (Ne.symm h.1), ih h.2, List.cons_append]

/-- **Values under distinct keys are all kept.** -/
theorem ofList_of_nodup {l : List (κ × α)} (h : (l.map (·.1)).Nodup) : ofList l = l := by
  have hfold : ∀ (l : List (κ × α)) (d : Keyed κ α), ((d ++ l).map (·.1)).Nodup →
      l.foldl (fun d p => set d p.1 p.2) d = d ++ l := by
    intro l
    induction l with
    | nil => exact fun d _ => (List.append_nil d).symm
    | cons p l ih =>
      intro d hd
      have hnew : p.1 ∉ d.map (·.1) := by
        rw [List.map_append, List.map_cons, List.nodup_append] at hd
        exact fun hmem => hd.2.2 _ hmem _ List.mem_cons_self rfl
      have hone : d ++ [p] ++ l = d ++ p :: l := by rw [List.append_assoc, List.singleton_append]
      rw [List.foldl_cons, set_of_not_mem hnew, ih _ (hone ▸ hd), hone]
  exact hfold l [] h

theorem mem_of_mem_set {d : Keyed κ α} {key : κ} {value : α} {p : κ × α} (h : p ∈ d.set key value) : p = (key, value) ∨ p ∈ d := by
  induction d with
  | nil => exact .inl (List.mem_singleton.1 h)
  | cons q d ih =>
    obtain ⟨k, v⟩ := q
    by_cases hk : k = key
    · rw [set, if_pos hk, hk] at h
      rcases List.mem_cons.1 h with h | h
      · exact .inl h
      · exact .inr (List.mem_cons_of_mem _ h)
    · rw [set, if_neg hk] at h
      rcases List.mem_cons.1 h with h | h
      · exact .inr (h ▸ List.mem_cons_self)
      · exact (ih h).imp id (List.mem_cons_of_mem _)

/-- What is under a key was given with it. -/
theorem mem_of_mem_ofList {l : List (κ × α)} {p : κ × α} (h : p ∈ ofList l) : p ∈ l := by
  have hfold : ∀ (l : List (κ × α)) (d : Keyed κ α),
      p ∈ l.foldl (fun d p => set d p.1 p.2) d → p ∈ l ∨ p ∈ d := by
    intro l
    induction l with
    | nil => exact fun d h => .inr h
    | cons q l ih =>
      intro d h
      rcases ih _ h with h | h
      · exact .inl (List.mem_cons_of_mem _ h)
      · rcases mem_of_mem_set h with rfl | h
        · exact .inl List.mem_cons_self
        · exact .inr h
  exact (hfold l [] h).resolve_right List.not_mem_nil

theorem ofList_concat (l : List (κ × α)) (p : κ × α) : ofList (l ++ [p]) = set (ofList l) p.1 p.2 :=
  List.foldl_concat ..

/-- **The value under a key is the last one that was given with it.** -/
theorem get?_ofList (l : List (κ × α)) (key : κ) :
    get? (ofList l) key = ((l.filter fun p => p.1 = key).getLast?).map (·.2) := by
  induction l using List.reverseRecOn with
  | nil => rfl
  | append_singleton l p ih =>
    rw [ofList_concat, List.filter_append]
    by_cases hp : p.1 = key
    · have hlast : [p].filter (fun p => p.1 = key) = [p] := by simp [hp]
      rw [hlast, List.getLast?_concat, hp, get?_set_self]
      rfl
    · have hother : [p].filter (fun p => p.1 = key) = [] := by simp [hp]
      rw [hother, List.append_nil, get?_set_of_ne _ _ (Ne.symm hp), ih]

/-- What comes first holds where nothing else was given with its key. -/
theorem get?_ofList_cons (p : κ × α) (l : List (κ × α)) (key : κ) :
    get? (ofList (p :: l)) key = (get? (ofList l) key).or (if p.1 = key then some p.2 else none) := by
  rw [get?_ofList, get?_ofList]
  by_cases hp : p.1 = key
  · rw [List.filter_cons_of_pos (by simpa using hp), List.getLast?_cons, if_pos hp]
    cases (l.filter fun p => p.1 = key).getLast? <;> rfl
  · rw [List.filter_cons_of_neg (by simpa using hp), if_neg hp, Option.or_none]

/-- What is under a key is there under it. -/
theorem mem_of_get? {d : Keyed κ α} {key : κ} {value : α} (h : d.get? key = some value) : (key, value) ∈ d := by
  induction d with
  | nil => cases h
  | cons p d ih =>
    rw [get?] at h
    split at h
    · rename_i heq
      rw [← heq, ← Option.some.inj h]
      exact List.mem_cons_self
    · exact List.mem_cons_of_mem _ (ih h)

theorem key_mem_of_get? {d : Keyed κ α} {key : κ} {value : α} (h : d.get? key = some value) : key ∈ d.map (·.1) :=
  List.mem_map_of_mem (mem_of_get? h)

section new

variable {d : Keyed κ α} {key : κ} (h : d.get? key = none)

include h

/-- Without a key that is not there, everything is still there. -/
theorem filter_of_get?_eq_none : d.filter (·.1 ≠ key) = d := by
  induction d with
  | nil => rfl
  | cons p d ih =>
    obtain ⟨k, v⟩ := p
    by_cases hk : k = key
    · simp [get?, hk] at h
    · rw [get?, if_neg hk] at h
      rw [List.filter_cons_of_pos (by simpa using hk), ih h]

/-- A value under a new key can be taken out again. -/
theorem filter_set_of_get?_eq_none (value : α) : (d.set key value).filter (·.1 ≠ key) = d := by
  induction d with
  | nil => simp [set]
  | cons p d ih =>
    obtain ⟨k, v⟩ := p
    by_cases hk : k = key
    · simp [get?, hk] at h
    · rw [get?, if_neg hk] at h
      rw [set, if_neg hk, List.filter_cons_of_pos (by simpa using hk), ih h]

end new

end Fenceline.Keyed
