import Fenceline.Proofs.Text.Replace

/-!
# Carriage returns before line feeds

A text in which every line feed has a carriage return before it is written from one in which none has
(`Text.withReturns`). Where no carriage return stands at all, this keeps every relation between texts that
cutting and replacing look at.

**The laws.** `documentLines_withReturns`: the lines of the document are the same.
`withReturns_infix_iff`: a text stands in another just if it does so with carriage returns.
`replaceAll_withReturns`: so replacing goes along with them, unless what is replaced begins with a line
feed, before which it would leave a carriage return.
-/

namespace Fenceline.Text

variable {old t u : Text} {c : Char}

/-- **The text with a carriage return before each line feed.** -/
def withReturns (t : Text) : Text :=
  t.flatMap fun c => if c = '\n' then ['\r', '\n'] else [c]

@[simp] theorem withReturns_nil : withReturns [] = [] := rfl

@[simp] theorem withReturns_newline_cons (t : Text) :
    withReturns ('\n' :: t) = '\r' :: '\n' :: withReturns t := rfl

theorem withReturns_cons (hc : c ≠ '\n') (t : Text) : withReturns (c :: t) = c :: withReturns t := by
  rw [withReturns, List.flatMap_cons, if_neg hc]
  rfl

@[simp] theorem withReturns_append (t u : Text) : withReturns (t ++ u) = withReturns t ++ withReturns u :=
  List.flatMap_append

theorem withReturns_of_not_mem (h : '\n' ∉ t) : withReturns t = t := by
  induction t with
  | nil => rfl
  | cons c t ih =>
    rw [List.mem_cons, not_or] at h
    rw [withReturns_cons (Ne.symm h.1), ih h.2]

/-! ## Lines -/

/-- Lines are joined with carriage returns. -/
theorem withReturns_joinWith {lines : List Text} (h : ∀ l ∈ lines, '\n' ∉ l) :
    withReturns (joinWith ['\n'] lines) = joinWith ['\r', '\n'] lines := by
  induction lines with
  | nil => rfl
  | cons l lines ih =>
    obtain ⟨hl, hlines⟩ := List.forall_mem_cons.1 h
    cases lines with
    | nil => exact withReturns_of_not_mem hl
    | cons m lines =>
      rw [joinWith_cons_cons, joinWith_cons_cons, withReturns_append, withReturns_append, ih hlines,
        withReturns_of_not_mem hl]
      rfl

/-- A text with carriage returns is made of the pieces of the text without. -/
theorem withReturns_eq_joinWith (t : Text) : withReturns t = joinWith ['\r', '\n'] (cutAt '\n' t) := by
  rw [← withReturns_joinWith fun _ => not_mem_of_mem_cutAt, joinWith_cutAt]

/-- All pieces but the last get a carriage return. -/
theorem cutAt_withReturns {pieces : List Text} {piece : Text} (h : cutAt '\n' t = pieces ++ [piece]) :
    cutAt '\n' (withReturns t) = pieces.map (· ++ ['\r']) ++ [piece] := by
  have hpieces : ∀ p ∈ pieces ++ [piece], '\n' ∉ p := fun p hp => not_mem_of_mem_cutAt (h ▸ hp)
  have hjoin : withReturns t = joinWith ['\n'] (pieces.map (· ++ ['\r']) ++ [piece]) := by
    rw [withReturns_eq_joinWith, h]
    clear h hpieces
    induction pieces with
    | nil => rfl
    | cons p pieces ih =>
      obtain ⟨q, qs, hq⟩ : ∃ q qs, pieces ++ [piece] = q :: qs := List.exists_cons_of_ne_nil (by simp)
      obtain ⟨r, rs, hr⟩ : ∃ r rs, pieces.map (· ++ ['\r']) ++ [piece] = r :: rs :=
        List.exists_cons_of_ne_nil (by simp)
      rw [hq, hr] at ih
      rw [List.cons_append, hq, List.map_cons, List.cons_append, hr, joinWith_cons_cons, joinWith_cons_cons, ih]
      simp
  rw [hjoin, cutAt_joinWith (by simp)]
  intro p hp
  rcases List.mem_append.1 hp with hp | hp
  · obtain ⟨q, hq, rfl⟩ := List.mem_map.1 hp
    simpa using hpieces q (List.mem_append_left _ hq)
  · exact hpieces p (List.mem_append_right _ hp)

/-- **A document has the same lines with carriage returns.** -/
theorem documentLines_withReturns (h : '\r' ∉ t) : (withReturns t).documentLines = t.documentLines := by
  obtain ⟨pieces, piece, hcut⟩ := exists_cutAt_eq_concat '\n' t
  have hkept : ∀ p ∈ pieces, p.dropReturn = p := by
    intro p hp
    refine dropReturn_of_getLast? fun hlast => h ?_
    rw [← joinWith_cutAt '\n' t]
    exact subset_joinWith (hcut ▸ List.mem_append_left _ hp) (List.mem_of_getLast? hlast)
  have hlines : (cutAt '\n' (withReturns t)).map dropReturn = (cutAt '\n' t).map dropReturn := by
    rw [cutAt_withReturns hcut, hcut, List.map_append, List.map_append, List.map_map]
    congr 1
    exact List.map_congr_left fun p hp => (dropReturn_concat p).trans (hkept p hp).symm
  rw [documentLines, documentLines, hlines]

/-! ## Texts in texts -/

/-- **A beginning is kept**, and what stands behind it. -/
theorem cutPrefix?_withReturns (hold : '\r' ∉ old) (ht : '\r' ∉ t) :
    cutPrefix? (withReturns old) (withReturns t) = (cutPrefix? old t).map withReturns := by
  induction old generalizing t with
  | nil => rfl
  | cons a old ih =>
    rw [List.mem_cons, not_or] at hold
    cases t with
    | nil => by_cases ha : a = '\n' <;> simp [ha, withReturns_cons, cutPrefix?]
    | cons c t =>
      rw [List.mem_cons, not_or] at ht
      have hrest := ih hold.2 ht.2
      by_cases ha : a = '\n' <;> by_cases hc : c = '\n'
      · subst ha hc
        simpa [cutPrefix?] using hrest
      · subst ha
        rw [withReturns_newline_cons, withReturns_cons hc]
        simp [cutPrefix?, ht.1, Ne.symm hc]
      · subst hc
        rw [withReturns_newline_cons, withReturns_cons ha]
        simp [cutPrefix?, Ne.symm hold.1, ha]
      · rw [withReturns_cons ha, withReturns_cons hc, cutPrefix?, cutPrefix?]
        split
        · exact hrest
        · rfl

theorem withReturns_prefix_iff (hold : '\r' ∉ old) (ht : '\r' ∉ t) :
    withReturns old <+: withReturns t ↔ old <+: t := by
  simp only [prefix_iff_cutPrefix?, cutPrefix?_withReturns hold ht, Option.isSome_map]

/-- A text that does not begin with a line feed begins nowhere in the end of a line. -/
theorem misses_return (hne : old ≠ []) (hold : '\r' ∉ old) (hhead : old.head? ≠ some '\n') (next : Text) :
    Misses (withReturns old) ['\r', '\n'] next := by
  obtain ⟨x, p, rfl⟩ := List.exists_cons_of_ne_nil hne
  have hx : x ≠ '\n' := fun h => hhead (congrArg some h)
  rw [withReturns_cons hx]
  refine misses_of_not_mem ?_ _ next
  simp only [List.mem_cons, List.not_mem_nil, or_false, not_or]
  exact ⟨fun h => hold (h ▸ List.mem_cons_self), hx⟩

/-- **A text stands in another just if it does so with carriage returns.** -/
theorem withReturns_infix_iff (hne : old ≠ []) (hold : '\r' ∉ old) (hhead : old.head? ≠ some '\n')
    (ht : '\r' ∉ t) : withReturns old <:+: withReturns t ↔ old <:+: t := by
  induction t with
  | nil =>
    obtain ⟨x, p, rfl⟩ := List.exists_cons_of_ne_nil hne
    have hx : x ≠ '\n' := fun h => hhead (congrArg some h)
    rw [withReturns_cons hx]
    simp
  | cons c t ih =>
    have hprefix := withReturns_prefix_iff hold ht
    rw [List.mem_cons, not_or] at ht
    rw [List.infix_cons_iff, ← ih ht.2, ← hprefix]
    by_cases hc : c = '\n'
    · subst hc
      have hline := misses_return hne hold hhead (withReturns t) ['\n'] (List.cons_ne_nil _ _) ⟨['\r'], rfl⟩
      rw [withReturns_newline_cons, List.infix_cons_iff, List.infix_cons_iff]
      exact or_congr_right (or_iff_right hline)
    · rw [withReturns_cons hc, List.infix_cons_iff]

/-- **Replacing goes along with carriage returns.** -/
theorem replaceAll_withReturns (hne : old ≠ []) (hold : '\r' ∉ old) (hhead : old.head? ≠ some '\n')
    (ht : '\r' ∉ t) (new : Text) :
    replaceAll (withReturns t) (withReturns old) (withReturns new) = withReturns (replaceAll t old new) := by
  have hreturns : withReturns old ≠ [] := by
    obtain ⟨x, p, rfl⟩ := List.exists_cons_of_ne_nil hne
    rw [withReturns_cons fun h => hhead (congrArg some h)]
    exact List.cons_ne_nil _ _
  fun_induction replaceAll t old new with
  | case1 => rw [withReturns_nil, replaceAll]
  | case2 c r rest hcut hlt ih =>
    have hrest : c :: r = old ++ rest := cutPrefix?_eq_some_iff.1 hcut
    rw [hrest, List.mem_append, not_or] at ht
    rw [hrest, withReturns_append, withReturns_append, replaceAll_append hreturns, ih ht.2]
  | case3 c r rest hcut hlt ih =>
    have hlength := congrArg List.length (cutPrefix?_eq_some_iff.1 hcut)
    have hpos := List.length_pos_iff.2 hne
    rw [List.length_append] at hlength
    omega
  | case4 c r hcut ih =>
    have hfirst : ¬ withReturns old <+: withReturns (c :: r) := by
      rw [withReturns_prefix_iff hold ht, prefix_iff_cutPrefix?, hcut]
      exact Bool.false_ne_true
    rw [List.mem_cons, not_or] at ht
    by_cases hc : c = '\n'
    · subst hc
      rw [withReturns_newline_cons, withReturns_newline_cons, ← ih ht.2]
      have hmisses := misses_return hne hold hhead (withReturns r)
      exact replaceAll_append_of_misses hmisses (withReturns new)
    · rw [withReturns_cons hc] at hfirst ⊢
      rw [withReturns_cons hc, replaceAll_cons_of_not_prefix hfirst, ih ht.2]

end Fenceline.Text
