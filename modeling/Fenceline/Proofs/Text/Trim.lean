import Fenceline.Text.Blank
import Mathlib.Data.List.DropRight

/-!
# Trimming texts at their end

What is dropped from the end of a text is a run of characters that the test accepts, and what is left ends
in one that it does not.

**The laws.** `dropEndWhile_append_of_all`, `dropEndWhile_append_of_ne_nil`: trimming two texts one behind
the other trims the second, and the first only if nothing is left of the second.
-/

namespace Fenceline.Text

variable {p : Char → Bool} {t u : Text} {c : Char}

theorem dropEndWhile_isPrefix (p : Char → Bool) (t : Text) : dropEndWhile p t <+: t :=
  List.rdropWhile_prefix p t

/-- What is dropped is a run of accepted characters. -/
theorem exists_run (p : Char → Bool) (t : Text) :
    ∃ run : Text, (∀ c ∈ run, p c = true) ∧ t = dropEndWhile p t ++ run :=
  ⟨List.rtakeWhile p t, fun _ => List.mem_rtakeWhile_imp,
    List.rdropWhile_append_rtakeWhile.symm⟩

/-- The last character of a text is that of what stands at its end. -/
theorem getLast?_append_of_eq_some (front : Text) (h : t.getLast? = some c) : (front ++ t).getLast? = some c := by
  rw [List.getLast?_append, h, Option.some_or]

/-- What is left ends in a character that is not accepted. -/
theorem getLast?_dropEndWhile (h : (dropEndWhile p t).getLast? = some c) : p c = false := by
  obtain ⟨hne, rfl⟩ := List.mem_getLast?_eq_getLast h
  exact Bool.eq_false_iff.2 (List.rdropWhile_last_not p t hne)

theorem dropEndWhile_of_getLast? (h : ∀ c ∈ t.getLast?, p c = false) : dropEndWhile p t = t :=
  List.rdropWhile_eq_self_iff.2 fun hne =>
    Bool.eq_false_iff.1 (h _ (List.getLast?_eq_some_getLast hne))

/-- **A run of accepted characters is dropped.** -/
theorem dropEndWhile_append_of_all (h : ∀ c ∈ u, p c = true) (t : Text) :
    dropEndWhile p (t ++ u) = dropEndWhile p t := by
  rw [dropEndWhile, dropEndWhile, List.reverse_append, List.dropWhile_append_of_pos]
  exact fun c hc => h c (List.mem_reverse.1 hc)

/-- **Nothing is dropped before what is left.** -/
theorem dropEndWhile_append_of_ne_nil (h : dropEndWhile p u ≠ []) (t : Text) :
    dropEndWhile p (t ++ u) = t ++ dropEndWhile p u := by
  obtain ⟨run, hrun, hu⟩ := exists_run p u
  have hlast : ∀ c ∈ (t ++ dropEndWhile p u).getLast?, p c = false := by
    intro c hc
    rw [List.getLast?_append_of_ne_nil _ h] at hc
    exact getLast?_dropEndWhile hc
  calc dropEndWhile p (t ++ u) = dropEndWhile p (t ++ dropEndWhile p u ++ run) := by
        rw [List.append_assoc, ← hu]
    _ = dropEndWhile p (t ++ dropEndWhile p u) := dropEndWhile_append_of_all hrun _
    _ = t ++ dropEndWhile p u := dropEndWhile_of_getLast? hlast

theorem trimEnd_of_getLast? (h : t.getLast? = some c) (hc : isBlank c = false) : trimEnd t = t := by
  refine dropEndWhile_of_getLast? fun d hd => ?_
  rw [h] at hd
  rw [← Option.some.inj hd, hc]

theorem trimEnd_trimEnd (t : Text) : trimEnd (trimEnd t) = trimEnd t :=
  dropEndWhile_of_getLast? fun _ hc => getLast?_dropEndWhile hc

/-- A blank end is trimmed with what stands before it. -/
theorem trimEnd_append_of_nil (hu : trimEnd u = []) (t : Text) : trimEnd (t ++ u) = trimEnd t := by
  obtain ⟨run, hrun, hrest⟩ := exists_run isBlank u
  rw [trimEnd] at hu
  rw [hu, List.nil_append] at hrest
  rw [hrest, trimEnd, dropEndWhile_append_of_all hrun, trimEnd]

theorem trimEnd_append_trimEnd (t u : Text) : trimEnd (t ++ trimEnd u) = trimEnd (t ++ u) := by
  by_cases hu : trimEnd u = []
  · rw [hu, List.append_nil, trimEnd_append_of_nil hu]
  · have htrimmed : trimEnd (trimEnd u) ≠ [] := by rwa [trimEnd_trimEnd]
    rw [trimEnd, dropEndWhile_append_of_ne_nil htrimmed, ← trimEnd, trimEnd_trimEnd, trimEnd,
      trimEnd, dropEndWhile_append_of_ne_nil hu]

theorem newline_not_mem_trimEnd (h : '\n' ∉ t) : '\n' ∉ trimEnd t :=
  fun hmem => h ((dropEndWhile_isPrefix isBlank t).subset hmem)

end Fenceline.Text
