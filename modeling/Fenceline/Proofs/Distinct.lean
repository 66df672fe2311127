import Mathlib.Data.List.Induction
import Mathlib.Data.List.Nodup

/-!
# Each once

A list with each element once, in the order of their first occurrences.

**The laws.** `eraseDups_concat_of_mem`, `eraseDups_concat_of_not_mem`: one more element comes last, unless
it was there. `nodup_eraseDups`: each is there once. `eraseDups_filter`: leaving elements out keeps the order
of the others.
-/

namespace Fenceline

variable {α : Type} [BEq α] [LawfulBEq α] {x : α} {xs : List α}

theorem eraseDups_concat_of_mem (h : x ∈ xs) : (xs ++ [x]).eraseDups = xs.eraseDups := by
  have hnone : [x].removeAll xs = [] := by simp [List.removeAll, h]
  rw [List.eraseDups_append, hnone, List.eraseDups_nil, List.append_nil]

theorem eraseDups_concat_of_not_mem (h : x ∉ xs) : (xs ++ [x]).eraseDups = xs.eraseDups ++ [x] := by
  have hone : [x].removeAll xs = [x] := by simp [List.removeAll, h]
  rw [List.eraseDups_append, hone]
  rfl

theorem nodup_eraseDups (xs : List α) : xs.eraseDups.Nodup := by
  induction xs using List.reverseRecOn with
  | nil => exact List.nodup_nil
  | append_singleton xs x ih =>
    by_cases h : x ∈ xs
    · rwa [eraseDups_concat_of_mem h]
    · rw [eraseDups_concat_of_not_mem h, List.nodup_append]
      refine ⟨ih, List.nodup_singleton x, fun a ha b hb => ?_⟩
      rw [List.mem_singleton.1 hb]
      rintro rfl
      exact h (List.mem_eraseDups.1 ha)

theorem eraseDups_of_nodup (h : xs.Nodup) : xs.eraseDups = xs := by
  induction xs using List.reverseRecOn with
  | nil => rfl
  | append_singleton xs x ih =>
    rw [List.nodup_append] at h
    have hx : x ∉ xs := fun hmem => h.2.2 x hmem x List.mem_cons_self rfl
    rw [eraseDups_concat_of_not_mem hx, ih h.1]

theorem eraseDups_filter (p : α → Bool) (xs : List α) : (xs.filter p).eraseDups = xs.eraseDups.filter p := by
  induction xs using List.reverseRecOn with
  | nil => rfl
  | append_singleton xs x ih =>
    rw [List.filter_append]
    cases hp : p x with
    | false =>
      have hnone : [x].filter p = [] := by simp [hp]
      rw [hnone, List.append_nil, ih]
      by_cases h : x ∈ xs
      · rw [eraseDups_concat_of_mem h]
      · rw [eraseDups_concat_of_not_mem h, List.filter_append, hnone, List.append_nil]
    | true =>
      have hone : [x].filter p = [x] := by simp [hp]
      rw [hone]
      by_cases h : x ∈ xs
      · rw [eraseDups_concat_of_mem h, eraseDups_concat_of_mem (List.mem_filter.2 ⟨h, hp⟩), ih]
      · have hrest : x ∉ xs.filter p := fun hin => h (List.mem_filter.1 hin).1
        rw [eraseDups_concat_of_not_mem h, eraseDups_concat_of_not_mem hrest, ih, List.filter_append, hone]

end Fenceline
