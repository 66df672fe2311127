import Fenceline.Utf8

/-!
# A stream decoded at once

A decoder that sees all bytes of a stream can look ahead: behind a leading byte it takes as many of the
bytes that may follow as there are, and where not all of them are there, what it took is one hole. The
decoder that takes one byte at a time cannot look ahead, so it keeps what it has seen of a sequence; a
surrogate is the one thing that it finds out too late, when the byte that does not fit is read already.

**The law** (`pieces_eq_whole`): both give the same pieces, for well-formed and malformed bytes alike.
-/

namespace Fenceline.Utf8

/-- What a sequence that was begun stands for, with the bytes left behind it: its character if every
byte that has to follow does, or else a hole for what was there. -/
def follow (bits : Nat) : List ByteRange → Bytes → Piece × Bytes
  | [], rest => (some (Char.ofNat bits), rest)
  | _ :: _, [] => (none, [])
  | r :: rs, b :: rest =>
    if r.holds b then follow (bits * 64 + (b &&& 0x3F).toNat) rs rest else (none, b :: rest)

theorem length_follow_le (bits : Nat) (ranges : List ByteRange) (rest : Bytes) :
    (follow bits ranges rest).2.length ≤ rest.length := by
  fun_induction follow bits ranges rest with
  | case1 => exact Nat.le_refl _
  | case2 => exact Nat.le_refl _
  | case3 bits r rs b rest _ ih =>
    rw [List.length_cons]
    omega
  | case4 => exact Nat.le_refl _

/-- The pieces of bytes that are all there. -/
def whole : Bytes → List Piece
  | [] => []
  | b :: rest =>
    if b < 0x80 then some (Char.ofNat b.toNat) :: whole rest
    else
      match sequences.find? (·.1.holds b) with
      | some (_, mask, ranges) =>
        let next := follow (b &&& mask).toNat ranges rest
        next.1 :: whole next.2
      | none => none :: whole rest
termination_by bytes => bytes.length
decreasing_by
  · simp
  · have := length_follow_le (b &&& mask).toNat ranges rest
    simp only [List.length_cons]
    omega
  · simp

/-- The text of bytes that are all there, holes replaced. -/
def wholeText (bytes : Bytes) : Text :=
  patched (whole bytes)

namespace Decoder

/-- The pieces that a decoder gives for the bytes left, and for their end. -/
def finishing (d : Decoder) (bytes : Bytes) : List Piece :=
  (d.feed bytes).1 ++ (d.feed bytes).2.finish

theorem finishing_cons (d : Decoder) (b : UInt8) (rest : Bytes) :
    d.finishing (b :: rest) = (d.step b).1 ++ (d.step b).2.finishing rest := by
  simp only [finishing, feed, List.append_assoc]

/-- What a decoder makes of the bytes left, said by a decoder that sees them all. -/
def Sees : Decoder → Bytes → List Piece → Prop
  | ready, bytes, pieces => pieces = whole bytes
  | within bits next later, bytes, pieces =>
    pieces = (follow bits (next :: later) bytes).1 :: whole (follow bits (next :: later) bytes).2
  | surrogate, bytes, pieces => pieces = none :: none :: whole bytes

/-- Every leading byte asks for a byte behind it. -/
theorem ranges_ne_nil {b : UInt8} {r : ByteRange} {mask : UInt8} {ranges : List ByteRange}
    (h : sequences.find? (·.1.holds b) = some (r, mask, ranges)) :
    ∃ next later, ranges = next :: later := by
  have hmem := List.mem_of_find?_eq_some h
  have hall : ∀ s ∈ sequences, s.2.2 ≠ [] := by decide
  exact List.exists_cons_of_ne_nil (hall _ hmem)

/-- A byte that goes on with a sequence begins none. -/
theorem whole_of_continuation {b : UInt8} (h : continuation.holds b = true) (rest : Bytes) :
    whole (b :: rest) = none :: whole rest := by
  obtain ⟨hlow, hhigh⟩ : 0x80 ≤ b ∧ b ≤ 0xBF := by
    rw [ByteRange.holds, Bool.and_eq_true] at h
    exact ⟨of_decide_eq_true h.1, of_decide_eq_true h.2⟩
  have hnone : sequences.find? (·.1.holds b) = none := by
    rw [List.find?_eq_none]
    intro s hs
    have habove : ∀ s ∈ sequences, 0xBF < s.1.first := by decide
    have hfirst := habove s hs
    simp only [ByteRange.holds, Bool.and_eq_true, decide_eq_true_eq, not_and]
    intro hle
    exact absurd (UInt8.lt_of_lt_of_le hfirst hle) (UInt8.not_lt.2 hhigh)
  rw [whole, if_neg (UInt8.not_lt.2 hlow), hnone]

/-- A decoder between two sequences sees what it sees behind their first byte. -/
theorem start_sees {b : UInt8} {rest : Bytes}
    (ih : ∀ d : Decoder, d.Sees rest (d.finishing rest)) :
    (start b).1 ++ (start b).2.finishing rest = whole (b :: rest) := by
  unfold start
  rw [whole]
  by_cases hlow : b < 0x80
  · rw [if_pos hlow, if_pos hlow]
    exact congrArg (some (Char.ofNat b.toNat) :: ·) (ih ready)
  · rw [if_neg hlow, if_neg hlow]
    cases hfind : sequences.find? (·.1.holds b) with
    | none => exact congrArg (none :: ·) (ih ready)
    | some found =>
      obtain ⟨r, mask, ranges⟩ := found
      obtain ⟨next, later, rfl⟩ := ranges_ne_nil hfind
      exact ih (within (b &&& mask).toNat next later)

/-- **What a decoder gives is what is seen by looking ahead.** -/
theorem sees_finishing (bytes : Bytes) : ∀ d : Decoder, d.Sees bytes (d.finishing bytes) := by
  induction bytes with
  | nil =>
    intro d
    cases d <;> simp [Sees, finishing, feed, finish, whole, follow]
  | cons b rest ih =>
    have hready : (start b).1 ++ (start b).2.finishing rest = whole (b :: rest) := start_sees ih
    intro d
    rw [finishing_cons]
    cases d with
    | ready => exact hready
    | surrogate =>
      show none :: none :: (start b).1 ++ (start b).2.finishing rest = _
      rw [List.cons_append, List.cons_append, hready]
    | within bits next later =>
      show ((within bits next later).step b).1 ++ ((within bits next later).step b).2.finishing rest =
        (follow bits (next :: later) (b :: rest)).1 :: whole (follow bits (next :: later) (b :: rest)).2
      rw [step, follow]
      by_cases hholds : next.holds b = true
      · rw [if_pos hholds, if_pos hholds]
        cases later with
        | nil => exact congrArg (some (Char.ofNat _) :: ·) (ih ready)
        | cons next later => exact ih (within _ next later)
      · rw [if_neg hholds, if_neg hholds]
        by_cases hsurrogate : next = belowSurrogates ∧ continuation.holds b = true
        · -- the byte is held back here and is a hole of its own for who sees it at once
          rw [if_pos hsurrogate, whole_of_continuation hsurrogate.2]
          exact ih surrogate
        · rw [if_neg hsurrogate]
          show none :: (start b).1 ++ (start b).2.finishing rest = _
          rw [List.cons_append, hready]

end Decoder

/-- **Bytes give the same pieces one at a time and at once.** -/
theorem pieces_eq_whole (bytes : Bytes) : pieces bytes = whole bytes :=
  Decoder.sees_finishing bytes .ready

/-- Two thirds of a character before a letter are one hole, a surrogate is three. -/
example : whole [0xE2, 0x82, 0x41] = [none, some 'A'] ∧
    whole [0xED, 0xA0, 0x80] = [none, none, none] := by
  rw [← pieces_eq_whole, ← pieces_eq_whole]
  decide

end Fenceline.Utf8
