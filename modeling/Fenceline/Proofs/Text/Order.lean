import Fenceline.Proofs.Distinct
import Fenceline.Text.Basic
import Mathlib.Data.List.Sort

/-!
# The order of texts

Texts are ordered by their code points, from the first one on.

**The law** (`pairwise_lt_sorted`): texts that are sorted, each once, are strictly increasing.
-/

namespace Fenceline.Text

variable {s t u : Text}

/-- **What the order is**: by code points. -/
theorem le_eq_true_iff : s.le t = true ↔ s = t ∨ s < t := by
  induction s generalizing t with
  | nil => cases t <;> simp [le]
  | cons a s ih =>
    cases t with
    | nil => simp [le]
    | cons b t =>
      rw [le, List.cons_lt_cons_iff, List.cons.injEq]
      by_cases hab : a = b
      · subst hab
        rw [if_pos rfl, ih, or_iff_right (Char.lt_irrefl a), and_iff_right rfl, and_iff_right rfl]
      · simp [hab]

theorem le_trans (hst : s.le t = true) (htu : t.le u = true) : s.le u = true := by
  rw [le_eq_true_iff] at hst htu ⊢
  rcases hst with rfl | hst
  · exact htu
  · rcases htu with rfl | htu
    · exact .inr hst
    · exact .inr (List.lt_trans hst htu)

theorem le_total (s t : Text) : (s.le t || t.le s) = true := by
  induction s generalizing t with
  | nil => simp [le]
  | cons a s ih =>
    cases t with
    | nil => simp [le]
    | cons b t =>
      by_cases hab : a = b
      · subst hab
        simpa [le] using ih t
      · have hother : ¬ b = a := fun h => hab h.symm
        rw [le, le, if_neg hab, if_neg hother, Bool.or_eq_true, decide_eq_true_eq, decide_eq_true_eq]
        rcases Std.lt_trichotomy a b with h | h | h
        · exact .inl h
        · exact absurd h hab
        · exact .inr h

/-- Texts, each once, in their order. -/
def sorted (ts : List Text) : List Text :=
  ts.eraseDups.mergeSort le

/-- **Sorted texts are strictly increasing.** -/
theorem pairwise_lt_sorted (ts : List Text) : (sorted ts).Pairwise (· < ·) := by
  have hle : (sorted ts).Pairwise fun s t => s.le t = true :=
    @List.pairwise_mergeSort Text le (fun _ _ _ => le_trans) le_total _
  have hnodup : (sorted ts).Nodup := (List.mergeSort_perm _ _).nodup_iff.2 (nodup_eraseDups ts)
  exact List.Pairwise.imp₂ (fun _ _ hle hne => (le_eq_true_iff.1 hle).resolve_left hne) hle hnodup

end Fenceline.Text
