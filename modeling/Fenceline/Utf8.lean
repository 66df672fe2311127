import Fenceline.Text.Basic

/-!
# UTF-8, byte by byte

A decoder takes bytes one at a time and gives out a character as soon as its last byte has come. What
is no well-formed sequence is given out as one hole for each maximal piece of a sequence that was
begun, the byte that broke it being read again on its own.

**The law.** `feed_append`: feeding two chunks is feeding their concatenation. So the characters of a
stream do not depend on how it was cut.
-/

namespace Fenceline

/-- Bytes of a file or of a stream. -/
abbrev Bytes := List UInt8

namespace Utf8

/-- The values that one byte of a sequence may have, from the first to the last. -/
structure ByteRange where
  first : UInt8
  last : UInt8
  deriving DecidableEq

/-- Whether a byte is one of a range. -/
def ByteRange.holds (r : ByteRange) (b : UInt8) : Bool :=
  decide (r.first ≤ b) && decide (b ≤ r.last)

/-- The bytes that continue a sequence, unless the byte before them says less. -/
def continuation : ByteRange := ⟨0x80, 0xBF⟩

/-- The bytes that follow `0xED`; those behind them would make a surrogate. -/
def belowSurrogates : ByteRange := ⟨0x80, 0x9F⟩

/-- The well-formed sequences of two and more bytes: the leading byte, the bits of it that count, and
the bytes that follow. -/
def sequences : List (ByteRange × UInt8 × List ByteRange) := [
  (⟨0xC2, 0xDF⟩, 0x1F, [continuation]),
  (⟨0xE0, 0xE0⟩, 0x0F, [⟨0xA0, 0xBF⟩, continuation]),
  (⟨0xE1, 0xEC⟩, 0x0F, [continuation, continuation]),
  (⟨0xED, 0xED⟩, 0x0F, [belowSurrogates, continuation]),
  (⟨0xEE, 0xEF⟩, 0x0F, [continuation, continuation]),
  (⟨0xF0, 0xF0⟩, 0x07, [⟨0x90, 0xBF⟩, continuation, continuation]),
  (⟨0xF1, 0xF3⟩, 0x07, [continuation, continuation, continuation]),
  (⟨0xF4, 0xF4⟩, 0x07, [⟨0x80, 0x8F⟩, continuation, continuation])]

/-- Where a decoder is. -/
inductive Decoder where
  /-- Between two sequences. -/
  | ready
  /-- Within a sequence: the bits read so far and the bytes still to come. -/
  | within (bits : Nat) (next : ByteRange) (later : List ByteRange)
  /-- Behind the first two bytes of a surrogate, which are two holes once a third one comes. -/
  | surrogate

/-- A decoded character, or a hole where the bytes were malformed. -/
abbrev Piece := Option Char

/-- What one byte gives between two sequences. -/
def Decoder.start (b : UInt8) : List Piece × Decoder :=
  if b < 0x80 then ([some (Char.ofNat b.toNat)], .ready)
  else
    match sequences.find? (·.1.holds b) with
    | some (_, mask, next :: later) => ([], .within (b &&& mask).toNat next later)
    | _ => ([none], .ready)

/-- What one byte gives. -/
def Decoder.step : Decoder → UInt8 → List Piece × Decoder
  | .ready, b => start b
  | .within bits next later, b =>
    if next.holds b then
      let bits := bits * 64 + (b &&& 0x3F).toNat
      match later with
      | [] => ([some (Char.ofNat bits)], .ready)
      | next :: later => ([], .within bits next later)
    else if next = belowSurrogates ∧ continuation.holds b then ([], .surrogate)
    else
      let (pieces, d) := start b
      (none :: pieces, d)
  | .surrogate, b =>
    let (pieces, d) := start b
    (none :: none :: pieces, d)

/-- What a chunk gives. -/
def Decoder.feed (d : Decoder) : Bytes → List Piece × Decoder
  | [] => ([], d)
  | b :: bs =>
    let (pieces, d) := d.step b
    let (more, d) := d.feed bs
    (pieces ++ more, d)

/-- What the end of the stream gives: holes if a sequence was begun. -/
def Decoder.finish : Decoder → List Piece
  | .ready => []
  | .within .. => [none]
  | .surrogate => [none, none]

/-- **The characters of a stream do not depend on how it was cut.** -/
theorem Decoder.feed_append (d : Decoder) (a b : Bytes) :
    d.feed (a ++ b) = ((d.feed a).1 ++ ((d.feed a).2.feed b).1, ((d.feed a).2.feed b).2) := by
  induction a generalizing d with
  | nil => simp [feed]
  | cons x a ih => simp [feed, ih]

/-- The pieces of a whole stream. -/
def pieces (bytes : Bytes) : List Piece :=
  let (ps, d) := Decoder.ready.feed bytes
  ps ++ d.finish

/-- The character that stands for a hole. -/
def replacement : Char := '\uFFFD'

/-- The text of pieces, holes replaced. -/
def patched (ps : List Piece) : Text :=
  ps.map (·.getD replacement)

/-- The text of bytes, holes replaced. -/
def decodeLossy (bytes : Bytes) : Text :=
  patched (pieces bytes)

/-- The text of bytes that are well-formed throughout. -/
def decode? (bytes : Bytes) : Option Text :=
  (pieces bytes).mapM id

/-- The bytes of a text. -/
def encode (t : Text) : Bytes :=
  t.flatMap String.utf8EncodeChar

end Utf8

end Fenceline
