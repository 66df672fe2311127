import Fenceline.Sample.Scan
import Mathlib.Data.List.Basic

/-!
# Cutting texts

What the pieces of a text are when it is cut at a character, and what the lines of a document are when
its text is cut at line feeds.

**The laws.** `cutAt_joinWith`: pieces without the character come back from their join.
`cutAt_unlines`: so do lines from a text in which each has its line feed.
`getElem?_documentLines`: the lines of a document are the pieces of its text, the last one left out if it
is empty.
-/

namespace Fenceline.Text

variable {c : Char} {t u p : Text}

/-! ## Pieces -/

theorem cutAt_of_not_mem (h : c ∉ p) : cutAt c p = [p] := by
  induction p with
  | nil => rfl
  | cons x p ih =>
    rw [List.mem_cons, not_or] at h
    rw [cutAt, if_neg (Ne.symm h.1), ih h.2]

theorem cutAt_append_cons (h : c ∉ p) (t : Text) : cutAt c (p ++ c :: t) = p :: cutAt c t := by
  induction p with
  | nil => rw [List.nil_append, cutAt, if_pos rfl]
  | cons x p ih =>
    rw [List.mem_cons, not_or] at h
    rw [List.cons_append, cutAt, if_neg (Ne.symm h.1), ih h.2]

theorem joinWith_cons_cons (sep p q : Text) (ps : List Text) :
    joinWith sep (p :: q :: ps) = p ++ sep ++ joinWith sep (q :: ps) := rfl

/-- The characters of a join are those of the pieces and what stands between them. -/
theorem mem_joinWith {x : Char} {sep : Text} {ps : List Text} (h : x ∈ joinWith sep ps) :
    x ∈ sep ∨ ∃ p ∈ ps, x ∈ p := by
  induction ps with
  | nil => exact absurd h List.not_mem_nil
  | cons p ps ih =>
    cases ps with
    | nil => exact .inr ⟨p, List.mem_cons_self, h⟩
    | cons q ps =>
      rw [joinWith_cons_cons, List.append_assoc] at h
      rcases List.mem_append.1 h with h | h
      · exact .inr ⟨p, List.mem_cons_self, h⟩
      · rcases List.mem_append.1 h with h | h
        · exact .inl h
        · obtain hx | ⟨n, hn, hx⟩ := ih h
          · exact .inl hx
          · exact .inr ⟨n, List.mem_cons_of_mem _ hn, hx⟩

/-- A character that does not stand between the pieces of a join stands in it as often as in the pieces. -/
theorem count_joinWith {x : Char} {sep : Text} (hx : x ∉ sep) (ps : List Text) :
    (joinWith sep ps).count x = ps.flatten.count x := by
  induction ps with
  | nil => rfl
  | cons p ps ih =>
    cases ps with
    | nil => rw [List.flatten_singleton, joinWith]
    | cons q ps =>
      rw [joinWith_cons_cons, List.count_append, List.count_append, List.count_eq_zero_of_not_mem hx, Nat.add_zero, ih,
        List.flatten_cons (l := p), List.count_append]

/-- A piece stands in the join. -/
theorem subset_joinWith {sep : Text} {ps : List Text} (h : p ∈ ps) : p ⊆ joinWith sep ps := by
  induction ps with
  | nil => exact absurd h List.not_mem_nil
  | cons q ps ih =>
    cases ps with
    | nil => exact List.mem_singleton.1 h ▸ List.Subset.refl _
    | cons r ps =>
      rw [joinWith_cons_cons]
      rcases List.mem_cons.1 h with rfl | h
      · exact List.subset_append_of_subset_left _ (List.subset_append_left _ _)
      · exact List.subset_append_of_subset_right _ (ih h)

/-- One more piece stands behind the separator. -/
theorem joinWith_concat {ps : List Text} (hne : ps ≠ []) (sep p : Text) :
    joinWith sep (ps ++ [p]) = joinWith sep ps ++ sep ++ p := by
  induction ps with
  | nil => exact absurd rfl hne
  | cons q ps ih =>
    cases ps with
    | nil => rfl
    | cons r ps =>
      have hrest := ih (List.cons_ne_nil r ps)
      have hfirst : joinWith sep (q :: r :: ps ++ [p]) = q ++ sep ++ joinWith sep (r :: ps ++ [p]) := rfl
      rw [hfirst, hrest, joinWith_cons_cons]
      simp only [List.append_assoc]

/-- A line below the first of several texts is a part of the first. -/
theorem joinWith_append_cons (sep p q : Text) (ps : List Text) :
    joinWith sep ((p ++ sep ++ q) :: ps) = joinWith sep (p :: q :: ps) := by
  cases ps with
  | nil => rfl
  | cons r ps => simp only [joinWith, List.append_assoc]

/-- Pieces may be joined in two steps. -/
theorem joinWith_joinWith_cons {ps : List Text} (hne : ps ≠ []) (sep : Text) (qs : List Text) :
    joinWith sep (joinWith sep ps :: qs) = joinWith sep (ps ++ qs) := by
  induction ps with
  | nil => exact absurd rfl hne
  | cons p ps ih =>
    cases ps with
    | nil => rfl
    | cons q ps =>
      have hrest := ih (List.cons_ne_nil q ps)
      cases qs with
      | nil => rw [List.append_nil, joinWith]
      | cons r qs =>
        rw [joinWith_cons_cons] at hrest
        rw [joinWith_cons_cons, joinWith_cons_cons, List.cons_append, List.cons_append, joinWith_cons_cons,
          ← List.cons_append, ← hrest]
        simp only [List.append_assoc]

/-- Lines with an end each, as they are joined. -/
theorem joinWith_append_end {lines : List Text} (hne : lines ≠ []) (sep : Text) :
    joinWith sep lines ++ sep = lines.flatMap (· ++ sep) := by
  induction lines with
  | nil => exact absurd rfl hne
  | cons l lines ih =>
    cases lines with
    | nil => simp [joinWith]
    | cons m lines =>
      rw [joinWith_cons_cons, List.append_assoc, ih (List.cons_ne_nil m lines)]
      rfl

/-- **Pieces without the character come back from their join.** -/
theorem cutAt_joinWith {ps : List Text} (hne : ps ≠ []) (h : ∀ p ∈ ps, c ∉ p) :
    cutAt c (joinWith [c] ps) = ps := by
  induction ps with
  | nil => exact absurd rfl hne
  | cons p ps ih =>
    obtain ⟨hp, hps⟩ := List.forall_mem_cons.1 h
    cases ps with
    | nil => exact cutAt_of_not_mem hp
    | cons q qs =>
      rw [joinWith_cons_cons, List.append_assoc, List.singleton_append, cutAt_append_cons hp,
        ih (List.cons_ne_nil q qs) hps]

/-- **Lines come back from a text in which each has its line feed**, and nothing behind the last. -/
theorem cutAt_unlines {lines : List Text} (h : ∀ l ∈ lines, '\n' ∉ l) :
    cutAt '\n' (unlines lines) = lines ++ [[]] := by
  induction lines with
  | nil => rfl
  | cons l lines ih =>
    obtain ⟨hl, hlines⟩ := List.forall_mem_cons.1 h
    have hfirst : unlines (l :: lines) = l ++ '\n' :: unlines lines := by
      simp only [unlines, List.flatMap_cons, List.append_assoc, List.singleton_append]
    rw [hfirst, cutAt_append_cons hl, ih hlines, List.cons_append]

/-- A character more makes the first piece longer or is a cut. -/
theorem cutAt_cons (c x : Char) (r : Text) :
    (x = c ∧ cutAt c (x :: r) = [] :: cutAt c r) ∨
      ∃ p ps, x ≠ c ∧ cutAt c r = p :: ps ∧ cutAt c (x :: r) = (x :: p) :: ps := by
  by_cases hx : x = c
  · exact .inl ⟨hx, by rw [cutAt, if_pos hx]⟩
  · cases hr : cutAt c r with
    | nil => exact absurd hr (cutAt_ne_nil c r)
    | cons p ps => exact .inr ⟨p, ps, hx, rfl, by rw [cutAt, if_neg hx, hr]⟩

/-- A character that is cut at stands between the pieces before and the pieces behind it. -/
theorem cutAt_append_sep (c : Char) (x y : Text) : cutAt c (x ++ c :: y) = cutAt c x ++ cutAt c y := by
  induction x with
  | nil => simp [cutAt]
  | cons a x ih =>
    rcases cutAt_cons c a x with ⟨ha, hcut⟩ | ⟨p, ps, ha, hx, hcut⟩
    · rw [hcut, List.cons_append, cutAt, if_pos ha, ih, List.cons_append]
    · rw [hcut, List.cons_append, cutAt, if_neg ha, ih, hx]
      rfl

theorem not_mem_of_mem_cutAt (h : p ∈ cutAt c t) : c ∉ p := by
  induction t generalizing p with
  | nil =>
    rw [List.mem_singleton.1 h]
    exact List.not_mem_nil
  | cons x r ih =>
    rcases cutAt_cons c x r with ⟨_, hcut⟩ | ⟨q, qs, hx, hr, hcut⟩
    · rw [hcut] at h
      rcases List.mem_cons.1 h with rfl | h
      · exact List.not_mem_nil
      · exact ih h
    · rw [hcut] at h
      rw [hr] at ih
      rcases List.mem_cons.1 h with rfl | h
      · rw [List.mem_cons, not_or]
        exact ⟨Ne.symm hx, ih List.mem_cons_self⟩
      · exact ih (List.mem_cons_of_mem _ h)

/-- There is a last piece. -/
theorem exists_cutAt_eq_concat (c : Char) (t : Text) : ∃ pieces piece, cutAt c t = pieces ++ [piece] :=
  (List.eq_nil_or_concat' _).resolve_left (cutAt_ne_nil c t)

/-- A character more stands in the last piece. -/
theorem cutAt_concat {pieces : List Text} {piece : Text} (h : cutAt c t = pieces ++ [piece])
    {x : Char} (hx : x ≠ c) : cutAt c (t ++ [x]) = pieces ++ [piece ++ [x]] := by
  have hclean : ∀ p ∈ pieces ++ [piece ++ [x]], c ∉ p := by
    intro p hp
    rcases List.mem_append.1 hp with hp | hp
    · exact not_mem_of_mem_cutAt (h ▸ List.mem_append_left _ hp)
    · obtain rfl := List.mem_singleton.1 hp
      have hpiece : c ∉ piece :=
        not_mem_of_mem_cutAt (h ▸ List.mem_append_right _ (List.mem_singleton_self _))
      simp [hpiece, Ne.symm hx]
  have hjoin : joinWith [c] (pieces ++ [piece ++ [x]]) = t ++ [x] := by
    rw [← joinWith_cutAt c t, h]
    by_cases hpieces : pieces = []
    · subst hpieces
      rfl
    · rw [joinWith_concat hpieces, joinWith_concat hpieces, ← List.append_assoc]
  rw [← hjoin, cutAt_joinWith (by simp) hclean]

/-- **A text has one piece more than places where it is cut.** -/
theorem length_cutAt (c : Char) (t : Text) : (cutAt c t).length = t.count c + 1 := by
  induction t with
  | nil => rfl
  | cons x r ih =>
    rcases cutAt_cons c x r with ⟨hx, hcut⟩ | ⟨q, qs, hx, hr, hcut⟩
    · rw [hcut, hx, List.count_cons_self, List.length_cons, ih]
    · rw [hr] at ih
      rw [hcut, List.count_cons_of_ne hx, ← ih]
      rfl

theorem length_cutAt_le (c : Char) (t : Text) : (cutAt c t).length ≤ t.length + 1 := by
  rw [length_cutAt]
  exact Nat.succ_le_succ List.count_le_length

theorem length_le_of_mem_cutAt (h : p ∈ cutAt c t) : p.length ≤ t.length := by
  induction t generalizing p with
  | nil => exact Nat.le_of_eq (congrArg List.length (List.mem_singleton.1 h))
  | cons x r ih =>
    rw [List.length_cons]
    rcases cutAt_cons c x r with ⟨_, hcut⟩ | ⟨q, qs, _, hr, hcut⟩
    · rw [hcut] at h
      rcases List.mem_cons.1 h with rfl | h
      · exact Nat.zero_le _
      · exact Nat.le_succ_of_le (ih h)
    · rw [hcut] at h
      rw [hr] at ih
      rcases List.mem_cons.1 h with rfl | h
      · exact Nat.succ_le_succ (ih List.mem_cons_self)
      · exact Nat.le_succ_of_le (ih (List.mem_cons_of_mem _ h))

/-! ## Lines of a document -/

theorem dropReturn_prefix (t : Text) : t.dropReturn <+: t := by
  unfold dropReturn dropLast?
  split
  · exact List.dropLast_prefix t
  · exact List.prefix_refl t

/-- **A line of a document is the piece of its text with the same number.** -/
theorem getElem?_documentLines {line : Text} {n : Nat} (h : t.documentLines[n]? = some line) :
    ((t.cutAt '\n').map dropReturn)[n]? = some line := by
  unfold documentLines at h
  dsimp only at h
  split at h
  · rw [List.getElem?_dropLast] at h
    split at h
    · exact h
    · cases h
  · exact h

/-- The piece that a line of a document is made of. -/
theorem exists_piece {line : Text} {n : Nat} (h : t.documentLines[n]? = some line) :
    ∃ piece, piece ∈ t.cutAt '\n' ∧ line <+: piece := by
  have hline := getElem?_documentLines h
  rw [List.getElem?_map, Option.map_eq_some_iff] at hline
  obtain ⟨piece, hpiece, rfl⟩ := hline
  exact ⟨piece, List.mem_of_getElem? hpiece, dropReturn_prefix piece⟩

/-- The characters of a document's lines are those of its text. -/
theorem documentLines_subset {line : Text} (h : line ∈ t.documentLines) : line ⊆ t := by
  obtain ⟨n, hn⟩ := List.mem_iff_getElem?.1 h
  obtain ⟨piece, hpiece, hbegin⟩ := exists_piece hn
  rw [← joinWith_cutAt '\n' t]
  exact List.Subset.trans hbegin.subset (subset_joinWith hpiece)

theorem newline_not_mem_documentLines {line : Text} {n : Nat} (h : t.documentLines[n]? = some line) :
    '\n' ∉ line := by
  obtain ⟨piece, hpiece, hbegin⟩ := exists_piece h
  exact fun hmem => not_mem_of_mem_cutAt hpiece (hbegin.subset hmem)

theorem length_line_le {line : Text} {n : Nat} (h : t.documentLines[n]? = some line) :
    line.length ≤ t.length := by
  obtain ⟨piece, hpiece, hbegin⟩ := exists_piece h
  exact Nat.le_trans hbegin.length_le (length_le_of_mem_cutAt hpiece)

theorem length_documentLines_le_length_cutAt (t : Text) :
    t.documentLines.length ≤ (t.cutAt '\n').length := by
  unfold documentLines
  dsimp only
  split
  · rw [List.length_dropLast, List.length_map]
    omega
  · exact Nat.le_of_eq (List.length_map _)

theorem length_documentLines_le (t : Text) : t.documentLines.length ≤ t.length + 1 :=
  Nat.le_trans (length_documentLines_le_length_cutAt t) (length_cutAt_le '\n' t)

/-! ## Lines with their ends -/

theorem dropReturn_of_getLast? (h : t.getLast? ≠ some '\r') : t.dropReturn = t := by
  rw [dropReturn, dropLast?, if_neg h]

theorem dropReturn_concat (t : Text) : dropReturn (t ++ ['\r']) = t := by
  rw [dropReturn, dropLast?, if_pos List.getLast?_concat, List.dropLast_concat]

/-- The lines of a document come back from a text in which each has its line feed. -/
theorem documentLines_unlines {lines : List Text} (h : ∀ l ∈ lines, '\n' ∉ l) :
    (unlines lines).documentLines = lines.map dropReturn := by
  have hlast : (lines.map dropReturn ++ [[]]).getLast? = some [] := List.getLast?_concat
  rw [documentLines, cutAt_unlines h, List.map_append, List.map_singleton]
  exact (if_pos hlast).trans List.dropLast_concat

theorem joinWith_append_return {lines : List Text} (hne : lines ≠ []) :
    joinWith ['\r', '\n'] lines ++ ['\r', '\n'] = unlines (lines.map (· ++ ['\r'])) := by
  rw [joinWith_append_end hne, unlines, List.flatMap_map]
  simp only [List.append_assoc, List.singleton_append]

/-- Where every line ends in a carriage return, a line feed follows one. -/
theorem eq_return_of_append {lines : List Text} (hline : ∀ l ∈ lines, '\n' ∉ l)
    (h : t ++ c :: '\n' :: u = unlines (lines.map (· ++ ['\r']))) (hc : c ≠ '\n') : c = '\r' := by
  obtain ⟨pieces, piece, hpieces⟩ := exists_cutAt_eq_concat '\n' t
  have hcut : pieces ++ [piece ++ [c]] ++ cutAt '\n' u = lines.map (· ++ ['\r']) ++ [[]] := by
    rw [← cutAt_concat hpieces hc, ← cutAt_append_sep, List.append_assoc, List.singleton_append, h]
    exact cutAt_unlines (by simpa using hline)
  have hmem : piece ++ [c] ∈ lines.map (· ++ ['\r']) := by
    obtain ⟨init, last, hrest⟩ := exists_cutAt_eq_concat '\n' u
    rw [hrest, ← List.append_assoc] at hcut
    rw [← (List.append_inj' hcut rfl).1]
    exact List.mem_append_left _ (List.mem_append_right _ (List.mem_singleton_self _))
  obtain ⟨l, -, hl⟩ := List.mem_map.1 hmem
  exact (List.cons.inj (List.append_inj' hl rfl).2).1.symm

end Fenceline.Text
