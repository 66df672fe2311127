import Fenceline.Text.Basic

/-!
# Where a text stands in another

A text may begin nowhere in a stretch, whatever part of it stands behind the stretch (`Misses`); or it may
stand in another at some places, overlapping ones too (`places`).

**The laws.** `Misses.append`: what misses two stretches misses both of them together.
`Misses.congr_behind`: what stands behind a character that is none of its own does not matter to a text.
`eq_of_length_places`: a text that stands in another at one place only stands nowhere else.
-/

namespace Fenceline.Text

variable {p w a b t next : Text} {x : Char}

/-- A text without a character begins before the first such character. -/
theorem prefix_of_not_mem (hx : x ∉ p) (h : p <+: a ++ x :: b) : p <+: a := by
  rcases List.prefix_or_prefix_of_prefix h (List.prefix_append a (x :: b)) with hp | ⟨q, rfl⟩
  · exact hp
  · cases q with
    | nil => simp
    | cons y q =>
      rw [List.prefix_append_right_inj, List.cons_prefix_cons] at h
      exact absurd (List.mem_append_right a (h.1 ▸ List.mem_cons_self)) hx

/-- A text is cut at the first such character in one way. -/
theorem eq_of_append_cons {c d : Text} (ha : x ∉ a) (hc : x ∉ c) (h : a ++ x :: b = c ++ x :: d) :
    a = c ∧ b = d := by
  have hac : a <+: c := prefix_of_not_mem ha (h ▸ List.prefix_append a (x :: b))
  have hca : c <+: a := prefix_of_not_mem hc (h.symm ▸ List.prefix_append c (x :: d))
  obtain rfl := hac.eq_of_length (Nat.le_antisymm hac.length_le hca.length_le)
  exact ⟨rfl, (List.cons.inj (List.append_cancel_left h)).2⟩

/-- What stands behind the one such character of a text. -/
theorem eq_of_append_cons_of_not_mem {c d : Text} (hc : x ∉ c) (hd : x ∉ d) (h : a ++ x :: b = c ++ x :: d) :
    b = d := by
  have hcount : a.count x + (b.count x + 1) = c.count x + (d.count x + 1) := by
    simpa using congrArg (List.count x) h
  rw [List.count_eq_zero_of_not_mem hc, List.count_eq_zero_of_not_mem hd] at hcount
  exact (eq_of_append_cons (List.count_eq_zero.1 (by omega)) hc h).2

/-- A character of two texts stands in one of them. -/
theorem append_eq_append_cons {u v : Text} (h : a ++ b = u ++ x :: v) :
    (∃ w, a = u ++ x :: w ∧ v = w ++ b) ∨ ∃ w, u = a ++ w ∧ b = w ++ x :: v := by
  rcases List.append_eq_append_iff.1 h with ⟨w, hu, hb⟩ | ⟨w, ha, hv⟩
  · exact .inr ⟨w, hu, hb⟩
  · cases w with
    | nil => exact .inr ⟨[], by rw [ha, List.append_nil, List.append_nil], hv.symm⟩
    | cons y w =>
      obtain ⟨rfl, rfl⟩ := List.cons.inj hv
      exact .inl ⟨w, ha, rfl⟩

/-- The end of two texts is one of the second, or some of the first with all of the second. -/
theorem suffix_append_cases {v : Text} (h : v <:+ a ++ b) :
    v <:+ b ∨ ∃ u, u ≠ [] ∧ u <:+ a ∧ v = u ++ b := by
  rcases List.suffix_or_suffix_of_suffix h (List.suffix_append a b) with hv | ⟨u, rfl⟩
  · exact .inl hv
  · by_cases hu : u = []
    · rw [hu]
      exact .inl (List.suffix_refl b)
    · obtain ⟨z, hz⟩ := h
      rw [← List.append_assoc, List.append_cancel_right_eq] at hz
      exact .inr ⟨u, hu, ⟨z, hz⟩, rfl⟩

/-- A text without a character stands on one side of it. -/
theorem infix_append_cons (hx : x ∉ p) (h : p <:+: a ++ x :: b) : p <:+: a ∨ p <:+: b := by
  obtain ⟨v, hp, hv⟩ := List.infix_iff_prefix_suffix.1 h
  rcases suffix_append_cases hv with hv | ⟨u, _, hu, rfl⟩
  · rcases List.suffix_cons_iff.1 hv with rfl | hv
    · have hnil : p <+: [] := prefix_of_not_mem (a := []) hx hp
      exact .inl (List.prefix_nil.1 hnil ▸ List.nil_infix)
    · exact .inr (hp.isInfix.trans hv.isInfix)
  · exact .inl ((prefix_of_not_mem hx hp).isInfix.trans hu.isInfix)

/-- **A text that stands in another stands there somewhere first.** -/
theorem exists_first (hne : p ≠ []) (h : p <:+: t) : ∃ a b, t = a ++ (p ++ b) ∧
    ∀ v, v ≠ [] → v <:+ a → ¬ p <+: v ++ (p ++ b) := by
  induction t with
  | nil => exact absurd (List.infix_nil.1 h) hne
  | cons x t ih =>
    by_cases hbegin : p <+: x :: t
    · obtain ⟨b, hb⟩ := hbegin
      exact ⟨[], b, hb.symm, fun v hv hnil => absurd (List.suffix_nil.1 hnil) hv⟩
    · obtain ⟨a, b, rfl, hmisses⟩ := ih ((List.infix_cons_iff.1 h).resolve_left hbegin)
      refine ⟨x :: a, b, rfl, fun v hv hsuffix => ?_⟩
      rcases List.suffix_cons_iff.1 hsuffix with rfl | hsuffix
      · exact hbegin
      · exact hmisses v hv hsuffix

/-! ## Stretches in which a text does not begin -/

/-- **A text begins nowhere in a stretch**, `next` being what stands behind the stretch. -/
def Misses (p w next : Text) : Prop :=
  ∀ v, v ≠ [] → v <:+ w → ¬ p <+: v ++ next

theorem misses_iff :
    Misses p w next ↔ ∀ i, i < w.length → ¬ p <+: w.drop i ++ next := by
  constructor
  · intro h i hi
    refine h (w.drop i) (fun hnil => ?_) (List.drop_suffix i w)
    exact absurd (List.drop_eq_nil_iff.1 hnil) (Nat.not_le.2 hi)
  · rintro h v hv ⟨u, rfl⟩
    have hlt : u.length < (u ++ v).length := by
      have hpos := List.length_pos_iff.2 hv
      simp only [List.length_append]
      omega
    have hbegins := h u.length hlt
    rwa [List.drop_left] at hbegins

instance (p w next : Text) : Decidable (Misses p w next) :=
  decidable_of_iff _ misses_iff.symm

/-- What misses two stretches misses both of them together. -/
theorem Misses.append (ha : Misses p a (b ++ next)) (hb : Misses p b next) : Misses p (a ++ b) next := by
  intro v hv hvab
  rcases suffix_append_cases hvab with hvb | ⟨u, hu, hua, rfl⟩
  · exact hb v hv hvb
  · rw [List.append_assoc]
    exact ha u hu hua

/-- A text begins nowhere in a stretch without its first character. -/
theorem misses_of_not_mem (hx : x ∉ w) (p next : Text) : Misses (x :: p) w next := by
  intro v hv hvw hbegin
  obtain ⟨y, v, rfl⟩ := List.exists_cons_of_ne_nil hv
  rw [List.cons_append, List.cons_prefix_cons] at hbegin
  exact hx (hbegin.1 ▸ hvw.subset List.mem_cons_self)

/-- **A text that does not stand in a stretch does not begin in it**, if what stands behind the stretch begins
with a character that the text has only at its beginning. -/
theorem misses_of_not_infix (hx : x ∉ p) (h : ¬ x :: p <:+: w) (next : Text) : Misses (x :: p) w (x :: next) := by
  intro v hv hvw hbegin
  rcases List.prefix_or_prefix_of_prefix hbegin (List.prefix_append v (x :: next)) with hp | ⟨q, hq⟩
  · exact h (hp.isInfix.trans hvw.isInfix)
  · rw [← hq, List.prefix_append_right_inj] at hbegin
    cases q with
    | nil =>
      rw [List.append_nil] at hq
      exact h (hq ▸ hvw.isInfix)
    | cons y q =>
      obtain ⟨z, v, rfl⟩ := List.exists_cons_of_ne_nil hv
      have hp : v ++ y :: q = p := (List.cons.inj hq).2
      exact hx (hp ▸ (List.cons_prefix_cons.1 hbegin).1 ▸ List.mem_append_right v List.mem_cons_self)

theorem Misses.append_right (h : Misses p w next) (q : Text) : Misses (p ++ q) w next :=
  fun v hv hvw hbegin => h v hv hvw ((List.prefix_append p q).trans hbegin)

/-- What stands behind a character that is none of its own does not matter to a text. -/
theorem Misses.congr_behind (hx : x ∉ p) (h : Misses p w (a ++ x :: b)) (next : Text) :
    Misses p w (a ++ x :: next) := by
  intro v hv hvw hbegin
  rw [← List.append_assoc] at hbegin
  refine h v hv hvw ?_
  rw [← List.append_assoc]
  exact (prefix_of_not_mem hx hbegin).trans (List.prefix_append _ _)

/-! ## The places at which a text stands -/

/-- The places at which `p` stands in a text, overlapping ones too, as the lengths of what is before. -/
def places (p t : Text) : List Nat :=
  (List.range (t.length + 1)).filter fun i => p.isPrefixOf (t.drop i)

theorem mem_places_iff {i : Nat} :
    i ∈ places p t ↔ ∃ a b, t = a ++ p ++ b ∧ a.length = i := by
  rw [places, List.mem_filter, List.mem_range, List.isPrefixOf_iff_prefix]
  constructor
  · rintro ⟨hi, b, hb⟩
    exact ⟨t.take i, b, by rw [List.append_assoc, hb, List.take_append_drop],
      List.length_take_of_le (by omega)⟩
  · rintro ⟨a, b, rfl, rfl⟩
    refine ⟨by simp only [List.length_append]; omega, b, ?_⟩
    rw [List.append_assoc, List.drop_left]

/-- What holds around a text wherever it stands in another. -/
theorem forall_append_iff {Q : Text → Text → Prop} : (∀ a b, t = a ++ (p ++ b) → Q a b) ↔
    ∀ i ∈ places p t, Q (t.take i) (t.drop (i + p.length)) := by
  constructor
  · intro h i hi
    obtain ⟨a, b, rfl, rfl⟩ := mem_places_iff.1 hi
    have hboth := h a b (List.append_assoc ..)
    rwa [List.append_assoc, List.take_left, ← List.length_append, ← List.append_assoc, List.drop_left]
  · rintro h a b rfl
    have hboth := h a.length (mem_places_iff.2 ⟨a, b, (List.append_assoc ..).symm, rfl⟩)
    rwa [List.take_left, ← List.length_append, ← List.append_assoc, List.drop_left] at hboth

/-- A text that stands in another at one place only stands nowhere else. -/
theorem eq_of_length_places {pre post : Text} (h : (places p (pre ++ p ++ post)).length = 1)
    (heq : pre ++ p ++ post = a ++ p ++ b) : a = pre := by
  obtain ⟨i, hi⟩ := List.length_eq_one_iff.1 h
  have hpre : pre.length ∈ places p (pre ++ p ++ post) := mem_places_iff.2 ⟨pre, post, rfl, rfl⟩
  have ha : a.length ∈ places p (pre ++ p ++ post) := mem_places_iff.2 ⟨a, b, heq, rfl⟩
  rw [hi, List.mem_singleton] at hpre ha
  rw [List.append_assoc, List.append_assoc] at heq
  exact (List.append_inj_left heq (hpre.trans ha.symm)).symm

end Fenceline.Text
