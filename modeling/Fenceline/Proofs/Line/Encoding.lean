import Fenceline.Proofs.Line.Decoding

/-!
# A text is read back from its bytes

The bytes of a character are a leading byte and the bytes that may follow it, and their bits are the bits of
the character's code point, six to a byte behind the leading one. No code point needs the sequences that are
left out: those that would be too long, those of surrogates, and those beyond the last code point.

**The law** (`decode?_encode`): the bytes of a text decode to the text.
-/

namespace Fenceline.Utf8

/-- The byte that goes on with a sequence and holds six bits. -/
def continuing (bits : Nat) : UInt8 :=
  UInt8.ofNat (bits + 128)

theorem holds_continuing : ∀ n < 64, continuation.holds (continuing n) = true := by
  decide +kernel

theorem bits_continuing : ∀ n < 64, (continuing n &&& 0x3F).toNat = n := by
  decide +kernel

/-- The second byte of a sequence of three whose leading byte holds these bits. -/
def secondOfThree (lead : Nat) : ByteRange :=
  if lead = 0 then ⟨0xA0, 0xBF⟩ else if lead = 13 then belowSurrogates else continuation

/-- The second byte of a sequence of four whose leading byte holds these bits. -/
def secondOfFour (lead : Nat) : ByteRange :=
  if lead = 0 then ⟨0x90, 0xBF⟩ else if lead = 4 then ⟨0x80, 0x8F⟩ else continuation

/-- A leading byte: it begins no character of one byte, its bits are these, and these bytes follow. -/
def Leads (b : UInt8) (bits : Nat) (ranges : List ByteRange) : Prop :=
  ¬ b < 0x80 ∧ ∃ found, sequences.find? (·.1.holds b) = some found ∧
    (b &&& found.2.1).toNat = bits ∧ found.2.2 = ranges

theorem leads_of_map {b : UInt8} {mask : UInt8} {bits : Nat} {ranges : List ByteRange}
    (h : ¬ b < 0x80 ∧ (sequences.find? (·.1.holds b)).map (·.2) = some (mask, ranges) ∧
      (b &&& mask).toNat = bits) : Leads b bits ranges := by
  obtain ⟨hhigh, hfind, hbits⟩ := h
  obtain ⟨found, hfound, hrest⟩ := Option.map_eq_some_iff.1 hfind
  exact ⟨hhigh, found, hfound, by rw [hrest]; exact hbits, by rw [hrest]⟩

theorem leads_two : ∀ n < 32, 2 ≤ n → Leads (UInt8.ofNat (n + 192)) n [continuation] := by
  have hall : ∀ n < 32, 2 ≤ n → ¬ UInt8.ofNat (n + 192) < 0x80 ∧
      (sequences.find? (·.1.holds (UInt8.ofNat (n + 192)))).map (·.2) = some (0x1F, [continuation]) ∧
      (UInt8.ofNat (n + 192) &&& 0x1F).toNat = n := by
    decide +kernel
  exact fun n hn htwo => leads_of_map (hall n hn htwo)

theorem leads_three : ∀ n < 16, Leads (UInt8.ofNat (n + 224)) n [secondOfThree n, continuation] := by
  have hall : ∀ n < 16, ¬ UInt8.ofNat (n + 224) < 0x80 ∧
      (sequences.find? (·.1.holds (UInt8.ofNat (n + 224)))).map (·.2) =
        some (0x0F, [secondOfThree n, continuation]) ∧
      (UInt8.ofNat (n + 224) &&& 0x0F).toNat = n := by
    decide +kernel
  exact fun n hn => leads_of_map (hall n hn)

theorem leads_four : ∀ n < 5,
    Leads (UInt8.ofNat (n + 240)) n [secondOfFour n, continuation, continuation] := by
  have hall : ∀ n < 5, ¬ UInt8.ofNat (n + 240) < 0x80 ∧
      (sequences.find? (·.1.holds (UInt8.ofNat (n + 240)))).map (·.2) =
        some (0x07, [secondOfFour n, continuation, continuation]) ∧
      (UInt8.ofNat (n + 240) &&& 0x07).toNat = n := by
    decide +kernel
  exact fun n hn => leads_of_map (hall n hn)

theorem holds_secondOfThree : ∀ n < 16, ∀ m < 64, (n = 0 → 32 ≤ m) → (n = 13 → m < 32) →
    (secondOfThree n).holds (continuing m) = true := by
  decide +kernel

theorem holds_secondOfFour : ∀ n < 5, ∀ m < 64, (n = 0 → 16 ≤ m) → (n = 4 → m < 16) →
    (secondOfFour n).holds (continuing m) = true := by
  decide +kernel

/-! ## One character -/

theorem follow_continuing {r : ByteRange} {n : Nat} (hn : n < 64) (h : r.holds (continuing n) = true)
    (bits : Nat) (rs : List ByteRange) (rest : Bytes) :
    follow bits (r :: rs) (continuing n :: rest) = follow (bits * 64 + n) rs rest := by
  rw [follow, if_pos h, bits_continuing n hn]

theorem whole_of_leads {b : UInt8} {bits : Nat} {ranges : List ByteRange} (h : Leads b bits ranges)
    (rest : Bytes) :
    whole (b :: rest) = (follow bits ranges rest).1 :: whole (follow bits ranges rest).2 := by
  obtain ⟨hhigh, ⟨r, mask, found⟩, hfind, rfl, rfl⟩ := h
  rw [whole, if_neg hhigh, hfind]

theorem ofNat_of_eq {c : Char} {n : Nat} (h : n = c.val.toNat) : Char.ofNat n = c := by
  subst h
  exact Char.ofNat_toNat c

/-- **The bytes of a character are read as the character.** -/
theorem whole_utf8EncodeChar (c : Char) (rest : Bytes) :
    whole (String.utf8EncodeChar c ++ rest) = some c :: whole rest := by
  have hvalid : c.val.toNat < 0xD800 ∨ 0xDFFF < c.val.toNat ∧ c.val.toNat < 0x110000 := c.valid
  unfold String.utf8EncodeChar
  generalize hv : c.val.toNat = v at hvalid
  dsimp only
  by_cases hone : v ≤ 127
  · rw [if_pos hone]
    have hbyte : (UInt8.ofNat v).toNat = v := by
      rw [UInt8.toNat_ofNat']
      omega
    have hlow : UInt8.ofNat v < 0x80 := by
      rw [UInt8.lt_iff_toNat_lt, hbyte]
      exact Nat.lt_succ_of_le hone
    show whole (UInt8.ofNat v :: rest) = _
    rw [whole, if_pos hlow, hbyte, ofNat_of_eq hv.symm]
  rw [if_neg hone]
  by_cases htwo : v ≤ 2047
  · rw [if_pos htwo]
    show whole (UInt8.ofNat (v / 64 % 32 + 192) :: continuing (v % 64) :: rest) = _
    rw [whole_of_leads (leads_two _ (by omega) (by omega)),
      follow_continuing (by omega) (holds_continuing _ (by omega)), follow,
      ofNat_of_eq (c := c) (by omega)]
  rw [if_neg htwo]
  by_cases hthree : v ≤ 65535
  · rw [if_pos hthree]
    show whole (UInt8.ofNat (v / 4096 % 16 + 224) :: continuing (v / 64 % 64) :: continuing (v % 64) :: rest) = _
    rw [whole_of_leads (leads_three _ (by omega)),
      follow_continuing (by omega) (holds_secondOfThree _ (by omega) _ (by omega) (by omega) (by omega)),
      follow_continuing (by omega) (holds_continuing _ (by omega)), follow,
      ofNat_of_eq (c := c) (by omega)]
  · rw [if_neg hthree]
    show whole (UInt8.ofNat (v / 262144 % 8 + 240) :: continuing (v / 4096 % 64) ::
      continuing (v / 64 % 64) :: continuing (v % 64) :: rest) = _
    rw [whole_of_leads (leads_four _ (by omega)),
      follow_continuing (by omega) (holds_secondOfFour _ (by omega) _ (by omega) (by omega) (by omega)),
      follow_continuing (by omega) (holds_continuing _ (by omega)),
      follow_continuing (by omega) (holds_continuing _ (by omega)), follow,
      ofNat_of_eq (c := c) (by omega)]

/-! ## A text -/

theorem encode_append (t u : Text) : encode (t ++ u) = encode t ++ encode u :=
  List.flatMap_append

theorem whole_encode (t : Text) : whole (encode t) = t.map some := by
  induction t with
  | nil => rw [encode, List.flatMap_nil, whole, List.map_nil]
  | cons c t ih =>
    have hcons : encode (c :: t) = String.utf8EncodeChar c ++ encode t := List.flatMap_cons
    rw [hcons, whole_utf8EncodeChar, ih, List.map_cons]

/-- The bytes of a text have no holes. -/
theorem decodeLossy_encode (t : Text) : decodeLossy (encode t) = t := by
  rw [decodeLossy, pieces_eq_whole, whole_encode, patched, List.map_map]
  exact List.map_id t

/-- **The bytes of a text decode to the text.** -/
theorem decode?_encode (t : Text) : decode? (encode t) = some t := by
  rw [decode?, pieces_eq_whole, whole_encode]
  induction t with
  | nil => rfl
  | cons c t ih => rw [List.map_cons, List.mapM_cons, ih]; rfl

end Fenceline.Utf8
