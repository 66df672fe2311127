import Fenceline.Text.Numeral
import Fenceline.Text.Word
import Mathlib.Algebra.Group.Nat.Defs

/-!
# Numbers come back from their digits

**The law** (`readInt?_ofInt`): a number whose digits are few enough is read back from the way it is
written. If there are few enough of them, the digits of smaller numbers are too
(`length_ofNat_le_of_le`).
-/

namespace Fenceline.Text

/-- A smaller number is written with no more digits. -/
theorem length_ofNat_le_of_le {m n k : Nat} (hk : 0 < k) (h : m ≤ n) (hn : (ofNat n).length ≤ k) :
    (ofNat m).length ≤ k := by
  have hbound := (Nat.length_toDigits_le_iff (by decide) hk).1 hn
  exact (Nat.length_toDigits_le_iff (by decide) hk).2 (Nat.lt_of_le_of_lt h hbound)

theorem ofNat_ne_nil (n : Nat) : ofNat n ≠ [] :=
  Nat.toDigits_ne_nil

theorem isDigit_of_mem_ofNat {n : Nat} {c : Char} (h : c ∈ ofNat n) : c.isDigit = true :=
  Nat.isDigit_of_mem_toDigits (by decide) (by decide) h

theorem not_mem_ofNat {n : Nat} {c : Char} (hdigit : c.isDigit = false) : c ∉ ofNat n := fun hmem => by
  rw [isDigit_of_mem_ofNat hmem] at hdigit
  cases hdigit

/-- A written number has digits, and perhaps a minus sign. -/
theorem not_mem_ofInt {n : Int} {c : Char} (hminus : c ≠ '-') (hdigit : c.isDigit = false) : c ∉ ofInt n := by
  cases n with
  | ofNat k => exact not_mem_ofNat hdigit
  | negSucc k =>
    rw [ofInt, List.mem_cons, not_or]
    exact ⟨hminus, not_mem_ofNat hdigit⟩

theorem isDecimal_of_isDigit {c : Char} (h : c.isDigit = true) : isDecimal c = true := by
  rw [isDecimal, digit?_of_isDigit h, Option.isSome_some]

theorem isDecimal_of_mem_ofNat {n : Nat} {c : Char} (h : c ∈ ofNat n) : isDecimal c = true :=
  isDecimal_of_isDigit (isDigit_of_mem_ofNat h)

/-- **A run of digits is read as it stands.** -/
theorem digitsOf?_of_isDecimal {t : Text} (hne : t ≠ []) (h : ∀ c ∈ t, isDecimal c = true) :
    digitsOf? t = some t := by
  induction t with
  | nil => exact absurd rfl hne
  | cons c t ih =>
    obtain ⟨hc, ht⟩ := List.forall_mem_cons.1 h
    cases t with
    | nil => rw [digitsOf?, if_pos hc]
    | cons d t =>
      have hd : d ≠ '_' := by
        rintro rfl
        exact absurd (ht _ List.mem_cons_self) (by decide +kernel)
      rw [digitsOf?, if_pos hc, ih (List.cons_ne_nil d t) ht, Option.map_some]
      exact fun _ _ he _ => hd he

/-- The value of a run of ASCII digits is the number that it stands for. -/
theorem valueOfDigits_of_isDigit {t : Text} (h : ∀ c ∈ t, c.isDigit = true) :
    valueOfDigits t = Nat.ofDigitChars 10 t 0 := by
  have go : ∀ (t : Text), (∀ c ∈ t, c.isDigit = true) → ∀ n,
      t.foldl (fun n c => 10 * n + (digit? c).getD 0) n = Nat.ofDigitChars 10 t n := by
    intro t
    induction t with
    | nil => exact fun _ _ => rfl
    | cons c t ih =>
      intro h n
      obtain ⟨hc, ht⟩ := List.forall_mem_cons.1 h
      rw [List.foldl_cons, ih ht, Nat.ofDigitChars_cons, digit?_of_isDigit hc, Option.getD_some]
      rfl
  exact go t h 0

theorem valueOfDigits_ofNat (n : Nat) : valueOfDigits (ofNat n) = n := by
  rw [valueOfDigits_of_isDigit fun c hc => isDigit_of_mem_ofNat hc]
  exact Nat.ofDigitChars_ten_toDigits

/-- Integers are told apart by how they are written. -/
theorem ofInt_inj {m n : Int} (h : ofInt m = ofInt n) : m = n := by
  have hnat : ∀ {j k : Nat}, ofNat j = ofNat k → j = k := fun {j k} h => by
    rw [← valueOfDigits_ofNat j, h, valueOfDigits_ofNat]
  have hminus : ∀ j k, ofNat j ≠ '-' :: ofNat k := fun j k h => by
    have hmem : '-' ∈ ofNat j := h ▸ List.mem_cons_self
    exact not_mem_ofNat (by decide) hmem
  cases m with
  | ofNat j =>
    cases n with
    | ofNat k => exact congrArg Int.ofNat (hnat h)
    | negSucc k => exact absurd h (hminus j (k + 1))
  | negSucc j =>
    cases n with
    | ofNat k => exact absurd h.symm (hminus k (j + 1))
    | negSucc k => exact congrArg Int.negSucc (Nat.succ.inj (hnat (List.cons.inj h).2))

theorem digit?_lt {c : Char} {n : Nat} (h : digit? c = some n) : n < 10 := by
  unfold digit? at h
  split at h
  · rename_i hdigit
    have hrange : 0x30 ≤ c.toNat ∧ c.toNat ≤ 0x39 := Char.isDigit_iff_toNat.1 hdigit
    have hn := Option.some.inj h
    omega
  · split at h
    · cases h
    · obtain ⟨z, hz, hn⟩ := Option.map_eq_some_iff.1 h
      have hrange := List.find?_some hz
      rw [Bool.and_eq_true, decide_eq_true_eq, decide_eq_true_eq] at hrange
      omega

/-- A run of digits stands for a number with no more digits. -/
theorem valueOfDigits_lt (t : Text) : valueOfDigits t < 10 ^ t.length := by
  have go : ∀ (t : Text) (n : Nat),
      t.foldl (fun n c => 10 * n + (digit? c).getD 0) n < (n + 1) * 10 ^ t.length := by
    intro t
    induction t with
    | nil =>
      intro n
      simp
    | cons c t ih =>
      intro n
      have hdigit : (digit? c).getD 0 < 10 := by
        cases h : digit? c with
        | none => exact Nat.zero_lt_succ 9
        | some d => exact digit?_lt h
      rw [List.foldl_cons, List.length_cons, Nat.pow_succ, Nat.mul_comm (10 ^ t.length) 10,
        ← Nat.mul_assoc]
      refine Nat.lt_of_lt_of_le (ih _) (Nat.mul_le_mul_right _ ?_)
      omega
  have hall := go t 0
  rwa [Nat.zero_add, Nat.one_mul] at hall

/-- The digits of a number are read up to a bound on how many there are. -/
theorem readNat?_ofNat_eq (n : Nat) :
    readNat? (ofNat n) = if (ofNat n).length ≤ maxDigits then some n else none := by
  rw [readNat?, digitsOf?_of_isDecimal (ofNat_ne_nil n) fun c hc => isDecimal_of_mem_ofNat hc]
  dsimp only
  rw [valueOfDigits_ofNat]

/-- **A number is read back from its digits**, if these are few enough. -/
theorem readNat?_ofNat {n : Nat} (h : (ofNat n).length ≤ maxDigits) :
    readNat? (ofNat n) = some n := by
  rw [readNat?_ofNat_eq, if_pos h]

/-- The code points of the blanks. -/
def blankCodes : List Nat :=
  [0x09, 0x0A, 0x0B, 0x0C, 0x0D, 0x1C, 0x1D, 0x1E, 0x1F, 0x20, 0x85, 0xA0, 0x1680, 0x2000, 0x2001, 0x2002, 0x2003,
    0x2004, 0x2005, 0x2006, 0x2007, 0x2008, 0x2009, 0x200A, 0x2028, 0x2029, 0x202F, 0x205F, 0x3000]

/-- **What holds of each of them holds of all blanks.** -/
theorem forall_isBlank {P : Char → Prop} (h : ∀ n ∈ blankCodes, P (Char.ofNat n)) {c : Char}
    (hc : isBlank c = true) : P c := by
  have hmem : c.toNat ∈ blankCodes := by
    simp [isBlank] at hc
    simp only [blankCodes, List.mem_cons, List.not_mem_nil, or_false]
    omega
  exact Char.ofNat_toNat c ▸ h c.toNat hmem

/-- A blank is no digit. -/
theorem isDecimal_of_isBlank {c : Char} (h : isBlank c = true) : isDecimal c = false :=
  forall_isBlank (P := fun c => isDecimal c = false) (by decide +kernel) h

/-- A character of a word is no blank. -/
theorem isBlank_of_isWord {c : Char} (h : isWord c = true) : isBlank c = false := by
  refine Bool.eq_false_iff.2 fun hblank => ?_
  have hword := forall_isBlank (P := fun c => isWord c = false) (by decide +kernel) hblank
  rw [h] at hword
  cases hword

theorem ne_of_isBlank {c x : Char} (h : isBlank c = true) (hx : isBlank x = false) : c ≠ x := by
  rintro rfl
  rw [h] at hx
  cases hx

theorem not_mem_ofInt_of_isBlank {c : Char} (h : isBlank c = true) (n : Int) : c ∉ ofInt n := by
  refine not_mem_ofInt (ne_of_isBlank h (by decide)) (Bool.eq_false_iff.2 fun hdigit => ?_)
  have hdecimal := isDecimal_of_isBlank h
  rw [isDecimal_of_isDigit hdigit] at hdecimal
  cases hdecimal

/-- A digit is no blank. -/
theorem isNumeralBlank_of_isDecimal {c : Char} (h : isDecimal c = true) : isNumeralBlank c = false := by
  have hblank : isBlank c = false := Bool.eq_false_iff.2 fun hblank => by
    rw [isDecimal_of_isBlank hblank] at h
    cases h
  rw [isNumeralBlank, hblank, Bool.false_and]

/-- A numeral without blanks has none around it. -/
theorem trimmed_of_not_blank {t : Text} (h : ∀ c ∈ t, isNumeralBlank c = false) :
    dropEndWhile isNumeralBlank (t.dropWhile isNumeralBlank) = t := by
  have hstart : ∀ u : Text, (∀ c ∈ u, isNumeralBlank c = false) → u.dropWhile isNumeralBlank = u := by
    intro u hu
    cases u with
    | nil => rfl
    | cons c u => simp only [List.dropWhile_cons, hu c List.mem_cons_self, Bool.false_eq_true, if_false]
  rw [hstart t h, dropEndWhile, hstart _ fun c hc => h c (List.mem_reverse.1 hc), List.reverse_reverse]

/-- Digits without a sign are read as a number is. -/
theorem readInt?_of_isDecimal {t : Text} (h : ∀ c ∈ t, isDecimal c = true) :
    readInt? t = (readNat? t).map Int.ofNat := by
  rw [readInt?, trimmed_of_not_blank fun c hc => isNumeralBlank_of_isDecimal (h c hc)]
  split
  · exact absurd (h '-' List.mem_cons_self) (by decide +kernel)
  · exact absurd (h '+' List.mem_cons_self) (by decide +kernel)
  · rfl

/-- **An integer is read from a run of digits**, if they are few enough. -/
theorem readInt?_valueOfDigits {t : Text} (hne : t ≠ []) (h : ∀ c ∈ t, isDecimal c = true)
    (hlength : t.length ≤ maxDigits) : readInt? t = some (valueOfDigits t : Int) := by
  rw [readInt?_of_isDecimal h, readNat?, digitsOf?_of_isDecimal hne h]
  dsimp only
  rw [if_pos hlength]
  rfl

/-- The digits of a number are read as an integer up to a bound on how many there are. -/
theorem readInt?_ofNat_eq (n : Nat) :
    readInt? (ofNat n) = if (ofNat n).length ≤ maxDigits then some (n : Int) else none := by
  rw [readInt?_of_isDecimal fun c hc => isDecimal_of_mem_ofNat hc, readNat?_ofNat_eq]
  split <;> rfl

/-- **An integer is read back from the digits of a number.** -/
theorem readInt?_ofNat {n : Nat} (h : (ofNat n).length ≤ maxDigits) :
    readInt? (ofNat n) = some (n : Int) := by
  rw [readInt?_ofNat_eq, if_pos h]

/-- **An integer is read back from the way it is written**, if its digits are few enough. -/
theorem readInt?_ofInt {n : Int} (h : (ofNat n.natAbs).length ≤ maxDigits) : readInt? (ofInt n) = some n := by
  cases n with
  | ofNat k => exact readInt?_ofNat h
  | negSucc k =>
    have hblank : ∀ c ∈ '-' :: ofNat (k + 1), isNumeralBlank c = false := by
      rw [List.forall_mem_cons]
      exact ⟨by decide +kernel, fun c hc => isNumeralBlank_of_isDecimal (isDecimal_of_mem_ofNat hc)⟩
    have hread : readNat? (ofNat (k + 1)) = some (k + 1) := readNat?_ofNat h
    rw [readInt?, ofInt, trimmed_of_not_blank hblank]
    simp only [hread]
    rfl

end Fenceline.Text
