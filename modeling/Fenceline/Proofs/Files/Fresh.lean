import Fenceline.Host
import Fenceline.Proofs.Keyed
import Fenceline.Proofs.Text.Numeral
import Mathlib.Data.List.Nodup
import Mathlib.Data.List.Perm.Subperm

/-!
# Names that are free

The names of temporary files are numbered, and a number whose name is taken is passed over.

**The law** (`Host.node?_fresh`): a new name is free, since more numbers are tried than there are names in the
tree.
-/

namespace Fenceline

namespace Host

variable (h : Host)

theorem numbered_injective (label ending : Text) : Function.Injective (numbered label ending) := by
  intro m n hmn
  have hdigits : Text.ofNat m = Text.ofNat n := by
    simpa only [numbered, List.append_left_inj, List.append_right_inj] using hmn
  rw [← Text.valueOfDigits_ofNat m, hdigits, Text.valueOfDigits_ofNat]

/-- **A new name is free.** -/
theorem node?_fresh (directory : Absolute) (label ending : Text) :
    h.tree.node? (directory ++ [numbered label ending (h.fresh directory label ending)]) = none := by
  let place (n : Nat) : Absolute := directory ++ [numbered label ending n]
  have hinjective : Function.Injective place := by
    intro m n hmn
    exact numbered_injective label ending (List.cons.inj (List.append_cancel_left hmn)).1
  unfold fresh
  cases hfound : h.numbers.find? fun n => (h.tree.node? (place n)).isNone with
  | some n => simpa using List.find?_some hfound
  | none =>
    -- If all numbers were taken, the tree would have more names than it has.
    have htaken : ∀ a ∈ h.numbers.map place, a ∈ h.tree.nodes.map (·.1) := by
      intro a ha
      obtain ⟨n, hn, rfl⟩ := List.mem_map.1 ha
      have hsome := List.find?_eq_none.1 hfound n hn
      obtain ⟨node, hnode⟩ := Option.ne_none_iff_exists'.1 (by simpa using hsome)
      rw [FileTree.node?_of_ne_nil _ (by simp [place])] at hnode
      exact Keyed.key_mem_of_get? hnode
    have hdistinct : (h.numbers.map place).Nodup := by
      refine List.Nodup.map hinjective (List.Nodup.map ?_ List.nodup_range)
      intro m n hmn
      exact Nat.add_left_cancel hmn
    have hcount := (List.subperm_of_subset hdistinct htaken).length_le
    simp only [numbers, List.length_map, List.length_range] at hcount
    omega

end Host

end Fenceline
