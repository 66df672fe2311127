import Fenceline.Proofs.Text.Cut
import Fenceline.Proofs.Text.Places

/-!
# Replacing a text in another

Replacing cuts a text at what is replaced, from left to right and without overlap, and joins the pieces
with what is put there. The pieces do not depend on what is put there, so where they are two, one place
is replaced and all else stays.

**The laws.** `replaceAll_eq_joinWith`: replacing joins the pieces. `around_of_once`: a text that stands
in another just once cuts it into what is before and what is behind it.
-/

namespace Fenceline.Text

/-- The pieces of a text around the places where `old` stands, from left to right and without overlap.
An empty `old` stands nowhere. -/
def around (old t : Text) : List Text :=
  match t with
  | [] => [[]]
  | c :: r =>
    match cutPrefix? old (c :: r) with
    | some rest =>
      if rest.length < (c :: r).length then [] :: around old rest
      else (around old r).modifyHead (c :: ·)
    | none => (around old r).modifyHead (c :: ·)
termination_by t.length
decreasing_by all_goals simp_all

variable {old t pre post : Text}

theorem around_ne_nil (old t : Text) : around old t ≠ [] := by
  fun_induction around old t with
  | case1 => exact List.cons_ne_nil _ _
  | case2 c r rest h hlt ih => exact List.cons_ne_nil _ _
  | case3 c r rest h hlt ih => simpa using ih
  | case4 c r h ih => simpa using ih

theorem joinWith_modifyHead (sep : Text) (c : Char) {ps : List Text} (hne : ps ≠ []) :
    joinWith sep (ps.modifyHead (c :: ·)) = c :: joinWith sep ps := by
  obtain ⟨p, ps, rfl⟩ := List.exists_cons_of_ne_nil hne
  cases ps <;> rfl

theorem joinWith_nil_cons (sep : Text) {ps : List Text} (hne : ps ≠ []) :
    joinWith sep ([] :: ps) = sep ++ joinWith sep ps := by
  obtain ⟨p, ps, rfl⟩ := List.exists_cons_of_ne_nil hne
  rfl

/-- **Replacing joins the pieces with what is put in place.** -/
theorem replaceAll_eq_joinWith (t old new : Text) :
    replaceAll t old new = joinWith new (around old t) := by
  fun_induction around old t with
  | case1 => simp [replaceAll, joinWith]
  | case2 c r rest h hlt ih =>
    rw [replaceAll, h]
    dsimp only
    rw [if_pos hlt, joinWith_nil_cons new (around_ne_nil old rest), ih]
  | case3 c r rest h hlt ih =>
    rw [replaceAll, h]
    dsimp only
    rw [if_neg hlt, joinWith_modifyHead new c (around_ne_nil old r), ih]
  | case4 c r h ih =>
    rw [replaceAll, h]
    dsimp only
    rw [joinWith_modifyHead new c (around_ne_nil old r), ih]

/-- The pieces with `old` between them are the text. -/
theorem joinWith_around (old t : Text) : joinWith old (around old t) = t := by
  fun_induction around old t with
  | case1 => rfl
  | case2 c r rest h hlt ih =>
    rw [joinWith_nil_cons old (around_ne_nil old rest), ih, cutPrefix?_eq_some_iff.1 h]
  | case3 c r rest h hlt ih => rw [joinWith_modifyHead old c (around_ne_nil old r), ih]
  | case4 c r h ih => rw [joinWith_modifyHead old c (around_ne_nil old r), ih]

/-- What a text begins with can be cut. -/
theorem prefix_iff_cutPrefix? : old <+: t ↔ (cutPrefix? old t).isSome = true := by
  rw [Option.isSome_iff_exists]
  exact exists_congr fun rest => by rw [cutPrefix?_eq_some_iff, eq_comm]

theorem cutPrefix?_eq_none (h : ¬ old <+: t) : cutPrefix? old t = none := by
  simpa [prefix_iff_cutPrefix?] using h

/-- A character at which `old` does not begin belongs to the first piece. -/
theorem around_cons_of_not_prefix {c : Char} (h : ¬ old <+: c :: t) :
    around old (c :: t) = (around old t).modifyHead (c :: ·) := by
  rw [around, cutPrefix?_eq_none h]

/-- Where `old` begins, the first piece ends. -/
theorem around_append (hne : old ≠ []) (t : Text) : around old (old ++ t) = [] :: around old t := by
  obtain ⟨c, r, rfl⟩ := List.exists_cons_of_ne_nil hne
  rw [List.cons_append, around, cutPrefix?_eq_some_iff.2 (List.cons_append ..).symm]
  simp only [List.length_cons, List.length_append]
  rw [if_pos (by omega)]

/-- Text in which `old` does not begin belongs to the first piece. -/
theorem around_append_of_misses (h : Misses old pre t) :
    around old (pre ++ t) = (around old t).modifyHead (pre ++ ·) := by
  induction pre with
  | nil =>
    obtain ⟨p, ps, hps⟩ := List.exists_cons_of_ne_nil (around_ne_nil old t)
    rw [List.nil_append, hps]
    rfl
  | cons c pre ih =>
    have hfirst : ¬ old <+: c :: (pre ++ t) :=
      h (c :: pre) (List.cons_ne_nil c pre) (List.suffix_refl _)
    rw [List.cons_append, around_cons_of_not_prefix hfirst,
      ih fun v hv hs => h v hv (hs.trans (List.suffix_cons c pre)), List.modifyHead_modifyHead]
    rfl

/-- Replacing goes on behind a stretch in which `old` does not begin. -/
theorem replaceAll_append_of_misses (h : Misses old pre t) (new : Text) :
    replaceAll (pre ++ t) old new = pre ++ replaceAll t old new := by
  obtain ⟨p, ps, hps⟩ := List.exists_cons_of_ne_nil (around_ne_nil old t)
  rw [replaceAll_eq_joinWith, replaceAll_eq_joinWith, around_append_of_misses h, hps, List.modifyHead_cons]
  cases ps with
  | nil => rfl
  | cons q ps =>
    rw [joinWith_cons_cons, joinWith_cons_cons, List.append_assoc, List.append_assoc, List.append_assoc]

/-- Replacing goes on behind a character at which `old` does not begin. -/
theorem replaceAll_cons_of_not_prefix {c : Char} (h : ¬ old <+: c :: t) (new : Text) :
    replaceAll (c :: t) old new = c :: replaceAll t old new := by
  rw [replaceAll, cutPrefix?_eq_none h]

/-- Replacing goes on behind `old`. -/
theorem replaceAll_append (hne : old ≠ []) (t new : Text) :
    replaceAll (old ++ t) old new = new ++ replaceAll t old new := by
  rw [replaceAll_eq_joinWith, replaceAll_eq_joinWith, around_append hne,
    joinWith_nil_cons new (around_ne_nil old t)]

/-- A text in which `old` does not begin stays. -/
theorem replaceAll_of_misses (h : Misses old t []) (new : Text) : replaceAll t old new = t := by
  have hstays := replaceAll_append_of_misses h new
  rwa [List.append_nil, replaceAll, List.append_nil] at hstays

/-- **Replacing goes on behind a character that is none of `old`.** -/
theorem replaceAll_append_cons {x : Char} (hne : old ≠ []) (hx : x ∉ old) (t u new : Text) :
    replaceAll (t ++ x :: u) old new = replaceAll t old new ++ x :: replaceAll u old new := by
  fun_induction replaceAll t old new with
  | case1 =>
    have hmisses : Misses old [x] u := by
      intro v hv hvx hbegin
      obtain rfl : v = [x] := (List.suffix_cons_iff.1 hvx).resolve_right fun h => hv (List.suffix_nil.1 h)
      exact hne (List.prefix_nil.1 (prefix_of_not_mem (a := []) hx hbegin))
    exact replaceAll_append_of_misses hmisses new
  | case2 c r rest hcut hlt ih =>
    rw [cutPrefix?_eq_some_iff.1 hcut, List.append_assoc, replaceAll_append hne, ih, List.append_assoc]
  | case3 c r rest hcut hlt ih =>
    have hlength := congrArg List.length (cutPrefix?_eq_some_iff.1 hcut)
    have hpos := List.length_pos_iff.2 hne
    rw [List.length_append] at hlength
    omega
  | case4 c r hcut ih =>
    have hmisses : Misses old [c] (r ++ x :: u) := by
      intro v hv hvc hbegin
      obtain rfl : v = [c] := (List.suffix_cons_iff.1 hvc).resolve_right fun h => hv (List.suffix_nil.1 h)
      obtain ⟨rest, hrest⟩ : old <+: c :: r := prefix_of_not_mem hx hbegin
      rw [cutPrefix?_eq_some_iff.2 hrest.symm] at hcut
      cases hcut
    have hfirst := replaceAll_append_of_misses hmisses new
    rw [List.cons_append, List.cons_append, ← ih]
    exact hfirst

/-- A text in which `old` does not stand is one piece. -/
theorem around_of_not_infix (h : ¬ old <:+: t) : around old t = [t] := by
  have hbegins : ∀ v, v ≠ [] → v <:+ t → ¬ old <+: v ++ [] := fun v _ hv hold =>
    h (List.IsInfix.trans (by simpa using hold.isInfix) hv.isInfix)
  have hpieces := around_append_of_misses hbegins
  rw [List.append_nil] at hpieces
  rw [hpieces, around, List.modifyHead_cons, List.append_nil]

/-- A text in which `old` does not stand stays. -/
theorem replaceAll_of_not_infix (h : ¬ old <:+: t) (new : Text) : replaceAll t old new = t := by
  rw [replaceAll_eq_joinWith, around_of_not_infix h]
  rfl

/-- **A text that stands in another once cuts it in two.** -/
theorem around_of_once (hne : old ≠ [])
    (honce : ∀ a b, pre ++ old ++ post = a ++ old ++ b → a = pre) :
    around old (pre ++ old ++ post) = [pre, post] := by
  rw [List.append_assoc, around_append_of_misses, around_append hne, around_of_not_infix]
  · rw [List.modifyHead_cons, List.append_nil]
  · -- a second place behind the first one would be a place of its own
    rintro ⟨a, b, rfl⟩
    have hsame := honce (pre ++ old ++ a) b (by simp)
    have hlength := congrArg List.length hsame
    have hpos := List.length_pos_iff.2 hne
    simp only [List.length_append] at hlength
    omega
  · rintro v hv ⟨a, rfl⟩ ⟨b, hb⟩
    have hsame := honce a b (by simp [hb])
    have hlength := congrArg List.length hsame
    have hpos := List.length_pos_iff.2 hv
    simp only [List.length_append] at hlength
    omega

/-- **A text that stands in another once is replaced there and nowhere else.** -/
theorem replaceAll_of_once (hne : old ≠ [])
    (honce : ∀ a b, pre ++ old ++ post = a ++ old ++ b → a = pre) (new : Text) :
    replaceAll (pre ++ old ++ post) old new = pre ++ new ++ post := by
  rw [replaceAll_eq_joinWith, around_of_once hne honce]
  rfl

/-- The characters that replacing leaves are those of the text and of what is put in place. -/
theorem mem_replaceAll {x : Char} {new : Text} (h : x ∈ replaceAll t old new) : x ∈ t ∨ x ∈ new := by
  rw [replaceAll_eq_joinWith] at h
  obtain hnew | ⟨piece, hpiece, hx⟩ := mem_joinWith h
  · exact .inr hnew
  · rw [← joinWith_around old t]
    exact .inl (subset_joinWith hpiece hx)

/-- A character that stands neither in what is replaced nor in what is put in place stands there as often as
before. -/
theorem count_replaceAll {x : Char} {new : Text} (hold : x ∉ old) (hnew : x ∉ new) (t : Text) :
    (replaceAll t old new).count x = t.count x := by
  rw [replaceAll_eq_joinWith, count_joinWith hnew, ← count_joinWith hold, joinWith_around]

theorem occursIn_iff : occursIn old t = true ↔ old <:+: t := by
  induction t with
  | nil => simp [occursIn]
  | cons c r ih => rw [occursIn, Bool.or_eq_true, List.isPrefixOf_iff_prefix, ih, List.infix_cons_iff]

/-- How long a join is. -/
theorem length_joinWith (sep : Text) {ps : List Text} (hne : ps ≠ []) :
    (joinWith sep ps).length + sep.length = ps.flatten.length + ps.length * sep.length := by
  induction ps with
  | nil => exact absurd rfl hne
  | cons p ps ih =>
    cases ps with
    | nil => simp [joinWith]
    | cons q qs =>
      have hrest := ih (List.cons_ne_nil q qs)
      rw [joinWith_cons_cons, List.length_append, List.length_append, List.flatten_cons,
        List.length_append, List.length_cons, Nat.add_mul, Nat.one_mul]
      omega

end Fenceline.Text
