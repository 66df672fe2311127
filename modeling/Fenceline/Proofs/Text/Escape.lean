import Fenceline.Text.Escape

/-!
# Text with and without escape sequences

**The laws.** `stripEscapes_append_of_not_mem`, `stripEscapes_concat`: a text in front of escape sequences and a
character behind them stay, if the text has none of its own and the character can end none.
-/

namespace Fenceline.Text

variable {t u : Text} {x : Char}

theorem stripEscapes_nil : stripEscapes [] = [] := by
  rw [stripEscapes]
  rfl

theorem stripEscapes_of_sequence {rest : Text} (h : sequence? t = some rest) :
    stripEscapes t = stripEscapes rest := by
  rw [stripEscapes]
  split
  · rename_i rest' hrest
    rw [Option.some.inj (hrest.symm.trans h)]
  · rename_i hnone
    rw [hnone] at h
    cases h

theorem stripEscapes_cons (h : sequence? (x :: t) = none) : stripEscapes (x :: t) = x :: stripEscapes t := by
  rw [stripEscapes]
  split
  · rename_i rest hrest
    rw [hrest] at h
    cases h
  · rfl

/-- Another character begins no escape sequence. -/
theorem sequence?_cons_of_ne (h : x ≠ esc) (t : Text) : sequence? (x :: t) = none := by
  cases t with
  | nil => rfl
  | cons y t => rw [sequence?, if_neg h]

/-- **A text in front of escape sequences stays** if it has none of its own. -/
theorem stripEscapes_append_of_not_mem (h : esc ∉ u) (t : Text) : stripEscapes (u ++ t) = u ++ stripEscapes t := by
  induction u with
  | nil => rfl
  | cons x u ih =>
    rw [List.mem_cons, not_or] at h
    rw [List.cons_append, stripEscapes_cons (sequence?_cons_of_ne (Ne.symm h.1) _), ih h.2, List.cons_append]

/-- **A text without the character that begins them has no escape sequences.** -/
theorem stripEscapes_of_not_mem (h : esc ∉ t) : stripEscapes t = t := by
  have happend := stripEscapes_append_of_not_mem h []
  rwa [List.append_nil, stripEscapes_nil, List.append_nil] at happend

/-! ## What is left -/

theorem suffix_of_afterControl? {rest : Text} (h : afterControl? t = some rest) : rest <:+ t := by
  have hparameters := t.dropWhile_suffix isParameter
  have hintermediates := (t.dropWhile isParameter).dropWhile_suffix isIntermediate
  unfold afterControl? at h
  split at h
  · rename_i x r hleft
    rw [hleft] at hintermediates
    split at h
    · obtain rfl := Option.some.inj h
      exact (List.suffix_cons x r).trans (hintermediates.trans hparameters)
    · cases h
  · cases h

theorem suffix_of_afterCommand? {rest : Text} (h : afterCommand? t = some rest) : rest <:+ t := by
  have htitle := t.dropWhile_suffix fun c => c != bel && c != esc
  unfold afterCommand? at h
  split at h
  · rename_i x r hleft
    rw [hleft] at htitle
    refine List.IsSuffix.trans ?_ ((List.suffix_cons x r).trans htitle)
    split at h
    · obtain rfl := Option.some.inj h
      exact List.suffix_refl r
    · rw [cutPrefix?_eq_some_iff] at h
      exact ⟨_, h.symm⟩
  · cases h

/-- What follows an escape sequence is the end of the text. -/
theorem suffix_of_sequence? {rest : Text} (h : sequence? t = some rest) : rest <:+ t := by
  unfold sequence? at h
  split at h
  · rename_i x y r
    have hbehind : r <:+ x :: y :: r := (List.suffix_cons y r).trans (List.suffix_cons x _)
    split at h
    · split at h
      · exact (suffix_of_afterControl? h).trans hbehind
      · split at h
        · exact (suffix_of_afterCommand? h).trans hbehind
        · cases h
    · cases h
  · cases h

/-- What is left without escape sequences was there before. -/
theorem stripEscapes_subset (t : Text) : stripEscapes t ⊆ t := by
  induction t using stripEscapes.induct with
  | case1 t rest h ih =>
    rw [stripEscapes_of_sequence h]
    exact List.Subset.trans ih (suffix_of_sequence? h).subset
  | case2 h =>
    rw [stripEscapes_nil]
    exact List.Subset.refl _
  | case3 x t h ih =>
    rw [stripEscapes_cons h]
    exact List.cons_subset_cons x ih

/-! ## A character behind -/

/-- **A character that ends no escape sequence.** -/
structure Inert (x : Char) : Prop where
  final : isFinal x = false
  bel : x ≠ bel

theorem Inert.ne_backslash (h : Inert x) : x ≠ '\\' := by
  rintro rfl
  exact absurd h.final (by decide)

/-- What a run leaves of a text with a character behind it: what it leaves of the text, with the character, or
the character at most. -/
theorem dropWhile_concat (p : Char → Bool) (t : Text) (x : Char) :
    (∃ y r, t.dropWhile p = y :: r ∧ (t ++ [x]).dropWhile p = y :: (r ++ [x])) ∨
      t.dropWhile p = [] ∧ ((t ++ [x]).dropWhile p = [x] ∨ (t ++ [x]).dropWhile p = []) := by
  rw [List.dropWhile_append]
  cases hleft : t.dropWhile p with
  | nil =>
    refine .inr ⟨rfl, ?_⟩
    cases hx : p x <;> simp [hx]
  | cons y r => exact .inl ⟨y, r, rfl, rfl⟩

theorem afterControl?_concat (hx : Inert x) (t : Text) :
    afterControl? (t ++ [x]) = (afterControl? t).map (· ++ [x]) := by
  have hfinal := hx.final
  unfold afterControl?
  rcases dropWhile_concat isParameter t x with ⟨y, r, hleft, hwith⟩ | ⟨hleft, hwith | hwith⟩
  · rw [hleft, hwith]
    rcases dropWhile_concat isIntermediate (y :: r) x with ⟨z, s, hrest, hmore⟩ | ⟨hrest, hmore | hmore⟩
    · rw [← List.cons_append, hrest, hmore]
      cases hz : isFinal z <;> simp [hz]
    · rw [← List.cons_append, hrest, hmore]
      simp [hfinal]
    · rw [← List.cons_append, hrest, hmore]
      rfl
  · rw [hleft, hwith]
    cases hi : isIntermediate x <;> simp [hi, hfinal]
  · rw [hleft, hwith]
    rfl

theorem afterCommand?_concat (hx : Inert x) (t : Text) :
    afterCommand? (t ++ [x]) = (afterCommand? t).map (· ++ [x]) := by
  have hbackslash := hx.ne_backslash
  unfold afterCommand?
  rcases dropWhile_concat (fun c => c != bel && c != esc) t x with ⟨y, r, hleft, hwith⟩ | ⟨hleft, hwith | hwith⟩
  · rw [hleft, hwith]
    dsimp only
    split
    · rfl
    · cases r with
      | nil => simp [cutPrefix?, Ne.symm hbackslash]
      | cons z s => by_cases hz : '\\' = z <;> simp [cutPrefix?, hz]
  · rw [hleft, hwith]
    simp [hx.bel, cutPrefix?]
  · rw [hleft, hwith]
    rfl

/-- A character behind a text makes no difference to the escape sequence that the text begins with. -/
theorem sequence?_concat (hx : Inert x) (t : Text) : sequence? (t ++ [x]) = (sequence? t).map (· ++ [x]) := by
  have hopening : x ≠ '[' ∧ x ≠ ']' := by
    constructor <;> rintro rfl <;> exact absurd hx.final (by decide)
  match t with
  | [] => rfl
  | [y] => simp [sequence?, hopening]
  | y :: z :: r =>
    simp only [List.cons_append, sequence?]
    split
    · split
      · exact afterControl?_concat hx r
      · split
        · exact afterCommand?_concat hx r
        · rfl
    · rfl

/-- **A character behind escape sequences stays** if it can end none. -/
theorem stripEscapes_concat (hx : Inert x) (t : Text) : stripEscapes (t ++ [x]) = stripEscapes t ++ [x] := by
  induction t using stripEscapes.induct with
  | case1 t rest h ih =>
    have hmore : sequence? (t ++ [x]) = some (rest ++ [x]) := by
      rw [sequence?_concat hx, h]
      rfl
    rw [stripEscapes_of_sequence h, stripEscapes_of_sequence hmore, ih]
  | case2 h =>
    have hmore : sequence? [x] = none := rfl
    rw [List.nil_append, stripEscapes_cons hmore, stripEscapes_nil]
    rfl
  | case3 y t h ih =>
    have hmore : sequence? (y :: (t ++ [x])) = none := by
      rw [← List.cons_append, sequence?_concat hx, h]
      rfl
    rw [List.cons_append, stripEscapes_cons hmore, stripEscapes_cons h, ih, List.cons_append]

end Fenceline.Text
