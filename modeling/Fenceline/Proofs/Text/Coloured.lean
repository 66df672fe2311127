import Fenceline.Proofs.Text.Escape
import Mathlib.Data.List.TakeWhile

/-!
# Colours in a text

A text may be coloured by complete escape sequences that are put into it (`Coloured`): any number of them, one
behind the other too, at any place of the text but inside of a sequence of its own.

**The laws.** `Coloured.stripEscapes_eq`: a text with colours is, without its sequences, what the text is without
its own. `stripEscapes_eq_iff`: the texts that are a plain text without their sequences are its coloured versions,
and no others.

No sequence takes in a character of the text, as the characters of its parts are of classes that exclude each other
(`sequence?_eq_some_iff`). And no escape character of the text comes to begin a sequence (`Coloured.sequence?_cons`):
within a sequence there is no escape character but before a backslash, and a sequence that is put in begins with one
before a bracket.
-/

namespace Fenceline.Text

variable {s t u v w rest : Text} {x : Char}

/-! ## Complete sequences -/

/-- **A complete escape sequence.** -/
inductive IsSequence : Text → Prop
  | control {parameters intermediates : Text} {final : Char} : (∀ x ∈ parameters, isParameter x = true) →
    (∀ x ∈ intermediates, isIntermediate x = true) → isFinal final = true →
    IsSequence (esc :: '[' :: (parameters ++ (intermediates ++ [final])))
  | command {title ending : Text} : (∀ x ∈ title, x ≠ bel ∧ x ≠ esc) → ending = [bel] ∨ ending = [esc, '\\'] →
    IsSequence (esc :: ']' :: (title ++ ending))

/-- The classes of a control sequence, by code points. -/
theorem toNat_of_isFinal (h : isFinal x = true) : 0x40 ≤ x.toNat ∧ x.toNat ≤ 0x7E := by
  rw [isFinal, Bool.and_eq_true, decide_eq_true_eq, decide_eq_true_eq] at h
  exact h

theorem toNat_of_isIntermediate (h : isIntermediate x = true) : 0x20 ≤ x.toNat ∧ x.toNat ≤ 0x2F := by
  rw [isIntermediate, Bool.and_eq_true, decide_eq_true_eq, decide_eq_true_eq] at h
  exact h

theorem toNat_of_isParameter (h : isParameter x = true) : 0x30 ≤ x.toNat ∧ x.toNat ≤ 0x3F := by
  rw [isParameter, Bool.or_eq_true, Bool.or_eq_true, beq_iff_eq, beq_iff_eq] at h
  rcases h with (hdigit | rfl) | rfl
  · have hrange : 0x30 ≤ x.toNat ∧ x.toNat ≤ 0x39 := Char.isDigit_iff_toNat.1 hdigit
    omega
  · decide
  · decide

theorem isParameter_of_isIntermediate (h : isIntermediate x = true) : isParameter x = false := by
  have hx := toNat_of_isIntermediate h
  exact Bool.eq_false_iff.2 (mt toNat_of_isParameter (by omega))

theorem isParameter_of_isFinal (h : isFinal x = true) : isParameter x = false := by
  have hx := toNat_of_isFinal h
  exact Bool.eq_false_iff.2 (mt toNat_of_isParameter (by omega))

theorem isIntermediate_of_isFinal (h : isFinal x = true) : isIntermediate x = false := by
  have hx := toNat_of_isFinal h
  exact Bool.eq_false_iff.2 (mt toNat_of_isIntermediate (by omega))

/-- A run of a class ends where another character stands. -/
theorem dropWhile_run {p : Char → Bool} (hrun : ∀ y ∈ t, p y = true) (hx : p x = false) (rest : Text) :
    (t ++ x :: rest).dropWhile p = x :: rest := by
  rw [List.dropWhile_append_of_pos hrun, List.dropWhile_cons_of_neg (Bool.eq_false_iff.1 hx)]

/-- What is in front of the rest that a run leaves is of the class. -/
theorem exists_run_of_dropWhile (p : Char → Bool) (t : Text) :
    ∃ run, (∀ y ∈ run, p y = true) ∧ t = run ++ t.dropWhile p :=
  ⟨t.takeWhile p, fun _ => List.mem_takeWhile_imp, List.takeWhile_append_dropWhile.symm⟩

theorem afterControl?_eq_some_iff : afterControl? t = some rest ↔ ∃ parameters intermediates final,
    (∀ x ∈ parameters, isParameter x = true) ∧ (∀ x ∈ intermediates, isIntermediate x = true) ∧
      isFinal final = true ∧ t = parameters ++ (intermediates ++ final :: rest) := by
  constructor
  · intro h
    unfold afterControl? at h
    split at h
    · rename_i final r hleft
      split at h
      · rename_i hfinal
        obtain rfl := Option.some.inj h
        obtain ⟨parameters, hparameters, ht⟩ := exists_run_of_dropWhile isParameter t
        obtain ⟨intermediates, hintermediates, hbehind⟩ :=
          exists_run_of_dropWhile isIntermediate (t.dropWhile isParameter)
        rw [hleft] at hbehind
        exact ⟨parameters, intermediates, final, hparameters, hintermediates, hfinal, by rw [← hbehind, ← ht]⟩
      · cases h
    · cases h
  · rintro ⟨parameters, intermediates, final, hparameters, hintermediates, hfinal, rfl⟩
    have hleft : (parameters ++ (intermediates ++ final :: rest)).dropWhile isParameter =
        intermediates ++ final :: rest := by
      cases intermediates with
      | nil => exact dropWhile_run hparameters (isParameter_of_isFinal hfinal) rest
      | cons y intermediates =>
        exact dropWhile_run hparameters (isParameter_of_isIntermediate (hintermediates y List.mem_cons_self)) _
    rw [afterControl?, hleft, dropWhile_run hintermediates (isIntermediate_of_isFinal hfinal)]
    exact if_pos hfinal

theorem afterCommand?_eq_some_iff : afterCommand? t = some rest ↔ ∃ title ending,
    (∀ x ∈ title, x ≠ bel ∧ x ≠ esc) ∧ (ending = [bel] ∨ ending = [esc, '\\']) ∧ t = title ++ (ending ++ rest) := by
  constructor
  · intro h
    obtain ⟨title, htitle, ht⟩ := exists_run_of_dropWhile (fun c => c != bel && c != esc) t
    have htitle : ∀ x ∈ title, x ≠ bel ∧ x ≠ esc := fun x hx => by simpa using htitle x hx
    unfold afterCommand? at h
    split at h
    · rename_i y r hleft
      rw [hleft] at ht
      split at h
      · rename_i hy
        obtain rfl := Option.some.inj h
        exact ⟨title, [bel], htitle, .inl rfl, by rw [ht, hy]; rfl⟩
      · rename_i hy
        -- what ends the title without being BEL is the escape character
        have hesc : y = esc := by
          have hstop := List.head?_dropWhile_not (fun c => c != bel && c != esc) t
          rw [hleft] at hstop
          simpa [hy] using hstop
        rw [cutPrefix?_eq_some_iff] at h
        exact ⟨title, [esc, '\\'], htitle, .inr rfl, by rw [ht, hesc, h]; rfl⟩
    · cases h
  · rintro ⟨title, ending, htitle, hending, rfl⟩
    have hrun : ∀ x ∈ title, (x != bel && x != esc) = true := fun x hx => by simp [htitle x hx]
    rcases hending with rfl | rfl
    · rw [afterCommand?, List.singleton_append, dropWhile_run hrun (by decide)]
      exact if_pos rfl
    · have hne : esc ≠ bel := by decide
      rw [afterCommand?, List.cons_append, dropWhile_run hrun (by decide)]
      dsimp only
      rw [if_neg hne, cutPrefix?_eq_some_iff]

/-- **What a text begins with, and what stands behind it**: a complete sequence and all the rest. -/
theorem sequence?_eq_some_iff : sequence? t = some rest ↔ ∃ s, IsSequence s ∧ t = s ++ rest := by
  constructor
  · intro h
    unfold sequence? at h
    split at h
    · rename_i x y r
      split at h
      · rename_i hx
        split at h
        · rename_i hy
          obtain ⟨parameters, intermediates, final, hparameters, hintermediates, hfinal, rfl⟩ :=
            afterControl?_eq_some_iff.1 h
          exact ⟨_, .control hparameters hintermediates hfinal, by simp [hx, hy]⟩
        · split at h
          · rename_i hy
            obtain ⟨title, ending, htitle, hending, rfl⟩ := afterCommand?_eq_some_iff.1 h
            exact ⟨_, .command htitle hending, by simp [hx, hy]⟩
          · cases h
      · cases h
    · cases h
  · rintro ⟨s, hs, rfl⟩
    cases hs with
    | @control parameters intermediates final hparameters hintermediates hfinal =>
      have hrest : afterControl? (parameters ++ (intermediates ++ [final]) ++ rest) = some rest :=
        afterControl?_eq_some_iff.2 ⟨parameters, intermediates, final, hparameters, hintermediates, hfinal, by simp⟩
      rw [List.cons_append, List.cons_append, sequence?, if_pos rfl, if_pos rfl, hrest]
    | @command title ending htitle hending =>
      have hrest : afterCommand? (title ++ ending ++ rest) = some rest :=
        afterCommand?_eq_some_iff.2 ⟨title, ending, htitle, hending, by simp⟩
      rw [List.cons_append, List.cons_append, sequence?, if_pos rfl, if_neg (by decide), if_pos rfl, hrest]

/-- A text that begins with no sequence. -/
theorem ne_append_of_sequence? (h : sequence? t = none) (hs : IsSequence s) (rest : Text) : t ≠ s ++ rest := by
  intro ht
  rw [sequence?_eq_some_iff.2 ⟨s, hs, ht⟩] at h
  cases h

theorem IsSequence.stripEscapes_append (h : IsSequence s) (t : Text) : stripEscapes (s ++ t) = stripEscapes t :=
  stripEscapes_of_sequence (sequence?_eq_some_iff.2 ⟨s, h, rfl⟩)

/-! ## Coloured texts -/

/-- **A text and the same text in colours**: sequences are put in anywhere but inside of a sequence that the text
has itself, which stays in one piece. A text without escape characters has none, so there `char` goes past any of its
characters (`append_plain`). -/
inductive Coloured : Text → Text → Prop
  | nil : Coloured [] []
  | char {x : Char} {t u : Text} : sequence? (x :: t) = none → Coloured t u → Coloured (x :: t) (x :: u)
  | own {s t u : Text} : IsSequence s → Coloured t u → Coloured (s ++ t) (s ++ u)
  | put {s t u : Text} : IsSequence s → Coloured t u → Coloured t (s ++ u)

namespace Coloured

/-- A text is one of its coloured versions. -/
theorem refl (t : Text) : Coloured t t := by
  induction t using stripEscapes.induct with
  | case1 t rest h ih =>
    obtain ⟨s, hs, rfl⟩ := sequence?_eq_some_iff.1 h
    exact .own hs ih
  | case2 => exact .nil
  | case3 x t h ih => exact .char h ih

/-- A plain stretch is coloured as what stands behind it is. -/
theorem append_plain (hv : esc ∉ v) (h : Coloured t u) : Coloured (v ++ t) (v ++ u) := by
  induction v with
  | nil => exact h
  | cons x v ih =>
    rw [List.mem_cons, not_or] at hv
    exact .char (sequence?_cons_of_ne (Ne.symm hv.1) _) (ih hv.2)

/-- What begins no sequence in a coloured text is the text's own. -/
theorem exists_tail (h : Coloured t (x :: u)) (hx : sequence? (x :: u) = none) :
    ∃ t', t = x :: t' ∧ Coloured t' u := by
  generalize hu : x :: u = c at h
  cases h with
  | nil => cases hu
  | char _ h =>
    obtain ⟨rfl, rfl⟩ := List.cons.inj hu
    exact ⟨_, rfl, h⟩
  | own hs _ => exact absurd hu (ne_append_of_sequence? hx hs _)
  | put hs _ => exact absurd hu (ne_append_of_sequence? hx hs _)

/-- What stands before the first escape character of a coloured text is the text's own. -/
theorem exists_rest (hv : esc ∉ v) (h : Coloured t (v ++ w)) : ∃ t', t = v ++ t' ∧ Coloured t' w := by
  induction v generalizing t with
  | nil => exact ⟨t, rfl, h⟩
  | cons x v ih =>
    rw [List.mem_cons, not_or] at hv
    obtain ⟨t', rfl, ht'⟩ := h.exists_tail (sequence?_cons_of_ne (Ne.symm hv.1) _)
    obtain ⟨t', rfl, hrest⟩ := ih hv.2 ht'
    exact ⟨t', rfl, hrest⟩

/-- So is an escape character before a backslash, and the backslash. -/
theorem exists_rest_backslash (h : Coloured t (esc :: '\\' :: w)) : ∃ t', t = esc :: '\\' :: t' := by
  obtain ⟨t', rfl, ht'⟩ := h.exists_tail rfl
  obtain ⟨t', rfl, -⟩ := exists_rest (v := ['\\']) (by decide) ht'
  exact ⟨t', rfl⟩

/-- **Colours behind a character make no sequence begin with it.** -/
theorem sequence?_cons (h : Coloured t u) (hx : sequence? (x :: t) = none) : sequence? (x :: u) = none := by
  refine Option.eq_none_iff_forall_ne_some.2 fun rest hrest => ?_
  obtain ⟨s, hs, heq⟩ := sequence?_eq_some_iff.1 hrest
  cases hs with
  | @control parameters intermediates final hparameters hintermediates hfinal =>
    obtain ⟨rfl, rfl⟩ := List.cons.inj heq
    have hplain : esc ∉ '[' :: (parameters ++ (intermediates ++ [final])) := by
      simp only [List.mem_cons, List.mem_append, List.not_mem_nil, or_false, not_or]
      refine ⟨by decide, fun hmem => ?_, fun hmem => ?_, fun hmem => ?_⟩
      · exact absurd (hparameters esc hmem) (by decide)
      · exact absurd (hintermediates esc hmem) (by decide)
      · exact absurd (hmem ▸ hfinal) (by decide)
    obtain ⟨t', rfl, -⟩ := exists_rest hplain h
    exact ne_append_of_sequence? hx (.control hparameters hintermediates hfinal) t' rfl
  | @command title ending htitle hending =>
    obtain ⟨rfl, rfl⟩ := List.cons.inj heq
    have hplain : esc ∉ ']' :: title := by
      rw [List.mem_cons, not_or]
      exact ⟨by decide, fun hmem => (htitle esc hmem).2 rfl⟩
    have htitled : Coloured t (']' :: title ++ (ending ++ rest)) := by simpa using h
    obtain ⟨t', rfl, ht'⟩ := exists_rest hplain htitled
    have hend : ∃ t'', t' = ending ++ t'' := by
      rcases hending with rfl | rfl
      · obtain ⟨t'', rfl, -⟩ := exists_rest (v := [bel]) (by decide) ht'
        exact ⟨t'', rfl⟩
      · exact exists_rest_backslash ht'
    obtain ⟨t'', rfl⟩ := hend
    exact ne_append_of_sequence? hx (.command htitle hending) t'' (by simp)

/-- **A text in colours is the text**, each without its escape sequences. -/
theorem stripEscapes_eq (h : Coloured t u) : stripEscapes u = stripEscapes t := by
  induction h with
  | nil => rfl
  | char hx h ih => rw [stripEscapes_cons hx, stripEscapes_cons (h.sequence?_cons hx), ih]
  | own hs _ ih => rw [hs.stripEscapes_append, hs.stripEscapes_append, ih]
  | put hs _ ih => rw [hs.stripEscapes_append, ih]

end Coloured

/-- **The texts that are a plain text without their escape sequences are its coloured versions**, and no others. -/
theorem stripEscapes_eq_iff (ht : esc ∉ t) : stripEscapes u = t ↔ Coloured t u := by
  constructor
  · intro h
    induction u using stripEscapes.induct generalizing t with
    | case1 u rest hu ih =>
      rw [stripEscapes_of_sequence hu] at h
      obtain ⟨s, hs, rfl⟩ := sequence?_eq_some_iff.1 hu
      exact .put hs (ih ht h)
    | case2 =>
      rw [stripEscapes_nil] at h
      rw [← h]
      exact .nil
    | case3 x u hu ih =>
      rw [stripEscapes_cons hu] at h
      subst h
      rw [List.mem_cons, not_or] at ht
      exact .char (sequence?_cons_of_ne (Ne.symm ht.1) _) (ih ht.2 rfl)
  · intro h
    rw [h.stripEscapes_eq, stripEscapes_of_not_mem ht]

end Fenceline.Text
