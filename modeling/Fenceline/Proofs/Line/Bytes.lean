import Fenceline.Proofs.Line.Encoding

/-!
# Bytes are read back from their text

What decodes is the bytes of a text, and of one only: the sequences that are well-formed are just those that write a
code point with as few bytes as there can be.

**The law** (`decode?_eq_some_iff`): bytes decode to a text just if they are its bytes.
-/

namespace Fenceline.Utf8

/-! ## The bytes of a sequence -/

theorem eq_continuing : ∀ n < 256, continuation.holds (UInt8.ofNat n) = true →
    UInt8.ofNat n = continuing (UInt8.ofNat n &&& 0x3F).toNat ∧ (UInt8.ofNat n &&& 0x3F).toNat < 64 := by
  decide +kernel

theorem continuation_of_secondOfThree : ∀ lead < 16, ∀ n < 256, (secondOfThree lead).holds (UInt8.ofNat n) = true →
    continuation.holds (UInt8.ofNat n) = true ∧ (lead = 0 → 32 ≤ (UInt8.ofNat n &&& 0x3F).toNat) ∧
      (lead = 13 → (UInt8.ofNat n &&& 0x3F).toNat < 32) := by
  decide +kernel

theorem continuation_of_secondOfFour : ∀ lead < 5, ∀ n < 256, (secondOfFour lead).holds (UInt8.ofNat n) = true →
    continuation.holds (UInt8.ofNat n) = true ∧ (lead = 0 → 16 ≤ (UInt8.ofNat n &&& 0x3F).toNat) ∧
      (lead = 4 → (UInt8.ofNat n &&& 0x3F).toNat < 16) := by
  decide +kernel

/-- **A leading byte** of two, three or four bytes, with its bits and the bytes that follow. -/
def IsLead (b : UInt8) (bits : Nat) (ranges : List ByteRange) : Prop :=
  (b = UInt8.ofNat (bits + 192) ∧ 2 ≤ bits ∧ bits < 32 ∧ ranges = [continuation]) ∨
    (b = UInt8.ofNat (bits + 224) ∧ bits < 16 ∧ ranges = [secondOfThree bits, continuation]) ∨
    (b = UInt8.ofNat (bits + 240) ∧ bits < 5 ∧ ranges = [secondOfFour bits, continuation, continuation])

instance (b : UInt8) (bits : Nat) (ranges : List ByteRange) : Decidable (IsLead b bits ranges) :=
  inferInstanceAs (Decidable (_ ∨ _ ∨ _))

theorem isLead_of_find? {b : UInt8} {s : ByteRange × UInt8 × List ByteRange} (hhigh : ¬ b < 0x80)
    (hfind : sequences.find? (·.1.holds b) = some s) : IsLead b (b &&& s.2.1).toNat s.2.2 := by
  have hall : ∀ n < 256, ¬ UInt8.ofNat n < 0x80 → ∀ s ∈ sequences.find? (·.1.holds (UInt8.ofNat n)),
      IsLead (UInt8.ofNat n) (UInt8.ofNat n &&& s.2.1).toNat s.2.2 := by
    decide +kernel
  have hb := hall b.toNat b.toNat_lt
  rw [UInt8.ofNat_toNat] at hb
  exact hb hhigh s hfind

/-- What a sequence stands for whose next byte may follow. -/
theorem follow_eq_some {bits : Nat} {r : ByteRange} {rs : List ByteRange} {rest after : Bytes} {c : Char}
    (h : follow bits (r :: rs) rest = (some c, after)) :
    ∃ b more, rest = b :: more ∧ r.holds b = true ∧
      follow (bits * 64 + (b &&& 0x3F).toNat) rs more = (some c, after) := by
  cases rest with
  | nil => cases h
  | cons b more =>
    rw [follow] at h
    split at h
    · exact ⟨b, more, rfl, ‹_›, h⟩
    · cases h

/-- A byte that goes on with a sequence holds six bits. -/
theorem exists_continuing {b : UInt8} (h : continuation.holds b = true) :
    ∃ n < 64, b = continuing n ∧ (b &&& 0x3F).toNat = n := by
  have hb := eq_continuing b.toNat b.toNat_lt
  rw [UInt8.ofNat_toNat] at hb
  exact ⟨_, (hb h).2, (hb h).1, rfl⟩

theorem exists_continuing_of_three {b : UInt8} {lead : Nat} (hlead : lead < 16)
    (h : (secondOfThree lead).holds b = true) :
    ∃ n < 64, b = continuing n ∧ (b &&& 0x3F).toNat = n ∧ (lead = 0 → 32 ≤ n) ∧ (lead = 13 → n < 32) := by
  have hb := continuation_of_secondOfThree lead hlead b.toNat b.toNat_lt
  rw [UInt8.ofNat_toNat] at hb
  obtain ⟨hcontinues, hlow, hhigh⟩ := hb h
  obtain ⟨n, hn, hbyte, rfl⟩ := exists_continuing hcontinues
  exact ⟨_, hn, hbyte, rfl, hlow, hhigh⟩

theorem exists_continuing_of_four {b : UInt8} {lead : Nat} (hlead : lead < 5) (h : (secondOfFour lead).holds b = true) :
    ∃ n < 64, b = continuing n ∧ (b &&& 0x3F).toNat = n ∧ (lead = 0 → 16 ≤ n) ∧ (lead = 4 → n < 16) := by
  have hb := continuation_of_secondOfFour lead hlead b.toNat b.toNat_lt
  rw [UInt8.ofNat_toNat] at hb
  obtain ⟨hcontinues, hlow, hhigh⟩ := hb h
  obtain ⟨n, hn, hbyte, rfl⟩ := exists_continuing hcontinues
  exact ⟨_, hn, hbyte, rfl, hlow, hhigh⟩

/-! ## One character -/

theorem val_ofNat {n : Nat} (h : n < 0xD800 ∨ 0xDFFF < n ∧ n < 0x110000) : (Char.ofNat n).val.toNat = n := by
  have hvalid : n.isValidChar := h
  rw [Char.ofNat, dif_pos hvalid]
  rfl

theorem utf8EncodeChar_one {n : Nat} (h : n < 128) : String.utf8EncodeChar (Char.ofNat n) = [UInt8.ofNat n] := by
  unfold String.utf8EncodeChar
  rw [val_ofNat (.inl (by omega))]
  exact if_pos (by omega)

theorem utf8EncodeChar_two {bits n : Nat} (htwo : 2 ≤ bits) (hbits : bits < 32) (hn : n < 64) :
    String.utf8EncodeChar (Char.ofNat (bits * 64 + n)) = [UInt8.ofNat (bits + 192), continuing n] := by
  have hlead : (bits * 64 + n) / 64 % 32 = bits := by omega
  have hlast : (bits * 64 + n) % 64 = n := by omega
  unfold String.utf8EncodeChar
  rw [val_ofNat (.inl (by omega))]
  dsimp only
  rw [if_neg (by omega), if_pos (by omega), hlead, hlast]
  rfl

theorem utf8EncodeChar_three {bits m n : Nat} (hbits : bits < 16) (hm : m < 64) (hn : n < 64) (hlow : bits = 0 → 32 ≤ m)
    (hhigh : bits = 13 → m < 32) :
    String.utf8EncodeChar (Char.ofNat ((bits * 64 + m) * 64 + n)) =
      [UInt8.ofNat (bits + 224), continuing m, continuing n] := by
  have hlead : ((bits * 64 + m) * 64 + n) / 4096 % 16 = bits := by omega
  have hmiddle : ((bits * 64 + m) * 64 + n) / 64 % 64 = m := by omega
  have hlast : ((bits * 64 + m) * 64 + n) % 64 = n := by omega
  unfold String.utf8EncodeChar
  rw [val_ofNat (by omega)]
  dsimp only
  rw [if_neg (by omega), if_neg (by omega), if_pos (by omega), hlead, hmiddle, hlast]
  rfl

theorem utf8EncodeChar_four {bits l m n : Nat} (hbits : bits < 5) (hl : l < 64) (hm : m < 64) (hn : n < 64)
    (hlow : bits = 0 → 16 ≤ l) (hhigh : bits = 4 → l < 16) :
    String.utf8EncodeChar (Char.ofNat (((bits * 64 + l) * 64 + m) * 64 + n)) =
      [UInt8.ofNat (bits + 240), continuing l, continuing m, continuing n] := by
  have hlead : (((bits * 64 + l) * 64 + m) * 64 + n) / 262144 % 8 = bits := by omega
  have hsecond : (((bits * 64 + l) * 64 + m) * 64 + n) / 4096 % 64 = l := by omega
  have hthird : (((bits * 64 + l) * 64 + m) * 64 + n) / 64 % 64 = m := by omega
  have hlast : (((bits * 64 + l) * 64 + m) * 64 + n) % 64 = n := by omega
  unfold String.utf8EncodeChar
  rw [val_ofNat (.inr (by omega))]
  dsimp only
  rw [if_neg (by omega), if_neg (by omega), if_neg (by omega), hlead, hsecond, hthird, hlast]
  rfl

/-- **A sequence that stands for a character is the bytes of the character.** -/
theorem append_of_follow {b : UInt8} {bits : Nat} {ranges : List ByteRange} {rest after : Bytes} {c : Char}
    (hlead : IsLead b bits ranges) (h : follow bits ranges rest = (some c, after)) :
    b :: rest = String.utf8EncodeChar c ++ after := by
  rcases hlead with ⟨rfl, htwo, hbits, rfl⟩ | ⟨rfl, hbits, rfl⟩ | ⟨rfl, hbits, rfl⟩
  · obtain ⟨x, more, rfl, hx, h⟩ := follow_eq_some h
    obtain ⟨n, hn, rfl, hbyte⟩ := exists_continuing hx
    rw [hbyte, follow] at h
    cases h
    rw [utf8EncodeChar_two htwo hbits hn]
    rfl
  · obtain ⟨x, more, rfl, hx, h⟩ := follow_eq_some h
    obtain ⟨y, more, rfl, hy, h⟩ := follow_eq_some h
    obtain ⟨m, hm, rfl, hsecond, hlow, hhigh⟩ := exists_continuing_of_three hbits hx
    obtain ⟨n, hn, rfl, hlast⟩ := exists_continuing hy
    rw [hsecond, hlast, follow] at h
    cases h
    rw [utf8EncodeChar_three hbits hm hn hlow hhigh]
    rfl
  · obtain ⟨x, more, rfl, hx, h⟩ := follow_eq_some h
    obtain ⟨y, more, rfl, hy, h⟩ := follow_eq_some h
    obtain ⟨z, more, rfl, hz, h⟩ := follow_eq_some h
    obtain ⟨l, hl, rfl, hsecond, hlow, hhigh⟩ := exists_continuing_of_four hbits hx
    obtain ⟨m, hm, rfl, hthird⟩ := exists_continuing hy
    obtain ⟨n, hn, rfl, hlast⟩ := exists_continuing hz
    rw [hsecond, hthird, hlast, follow] at h
    cases h
    rw [utf8EncodeChar_four hbits hl hm hn hlow hhigh]
    rfl

/-! ## A text -/

/-- Bytes without holes are the bytes of their text. -/
theorem encode_of_whole {bytes : Bytes} {t : Text} (h : whole bytes = t.map some) : encode t = bytes := by
  fun_induction whole bytes generalizing t with
  | case1 =>
    obtain rfl := List.map_eq_nil_iff.1 h.symm
    rfl
  | case2 b rest hlow ih =>
    obtain ⟨c, t, rfl, hc, ht⟩ := List.map_eq_cons_iff.1 h.symm
    have hsmall : b.toNat < 128 := UInt8.lt_iff_toNat_lt.1 hlow
    rw [encode, List.flatMap_cons, ← encode, ih ht.symm, Option.some.inj hc, utf8EncodeChar_one hsmall,
      UInt8.ofNat_toNat]
    rfl
  | case3 b rest hhigh _ mask ranges hfind next =>
    rename_i ih
    obtain ⟨c, t, rfl, hc, ht⟩ := List.map_eq_cons_iff.1 h.symm
    have hfollow : follow (b &&& mask).toNat ranges rest = (some c, next.2) := Prod.ext hc.symm rfl
    rw [encode, List.flatMap_cons, ← encode, ih ht.symm]
    exact (append_of_follow (isLead_of_find? hhigh hfind) hfollow).symm
  | case4 b rest _ _ _ =>
    obtain ⟨c, t, rfl, hc, ht⟩ := List.map_eq_cons_iff.1 h.symm
    cases hc

theorem mapM_id_eq_some_iff {pieces : List Piece} {t : Text} : pieces.mapM id = some t ↔ pieces = t.map some := by
  induction pieces generalizing t with
  | nil => cases t <;> simp
  | cons p pieces ih =>
    rw [List.mapM_cons]
    cases p with
    | none => cases t <;> simp
    | some c =>
      cases hrest : pieces.mapM id with
      | none =>
        refine iff_of_false (by simp) fun h => ?_
        cases t with
        | nil => cases h
        | cons d t => exact absurd (ih.2 (List.cons.inj h).2) (by simp [hrest])
      | some u =>
        rw [ih.1 hrest]
        cases t with
        | nil => simp
        | cons d t =>
          have hinj : u.map some = t.map some ↔ u = t := List.map_inj_right fun _ _ => Option.some.inj
          simp [hinj]

/-- **Bytes decode to a text just if they are its bytes.** -/
theorem decode?_eq_some_iff {bytes : Bytes} {t : Text} : decode? bytes = some t ↔ encode t = bytes := by
  constructor
  · intro h
    rw [decode?, pieces_eq_whole] at h
    exact encode_of_whole (mapM_id_eq_some_iff.1 h)
  · rintro rfl
    exact decode?_encode t

end Fenceline.Utf8
