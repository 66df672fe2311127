import Fenceline.Text.Blank

/-!
# Numerals

Numbers as people write them: decimal digits of any script, one sign before them, single low lines
between them, blanks around them. A numeral is short enough to be read only up to `maxDigits` digits;
a number is short enough to be written under the same bound.

**The law.** `digit?_of_isDigit`: an ASCII digit has the value it shows.
-/

namespace Fenceline.Text

/-- The code points of the zeros of all scripts; the nine other digits follow each of them. -/
def zeros : List Nat := [
  0x30, 0x660, 0x6F0, 0x7C0, 0x966, 0x9E6, 0xA66, 0xAE6, 0xB66, 0xBE6, 0xC66, 0xCE6, 0xD66, 0xDE6,
  0xE50, 0xED0, 0xF20, 0x1040, 0x1090, 0x17E0, 0x1810, 0x1946, 0x19D0, 0x1A80, 0x1A90, 0x1B50,
  0x1BB0, 0x1C40, 0x1C50, 0xA620, 0xA8D0, 0xA900, 0xA9D0, 0xA9F0, 0xAA50, 0xABF0, 0xFF10, 0x104A0,
  0x10D30, 0x11066, 0x110F0, 0x11136, 0x111D0, 0x112F0, 0x11450, 0x114D0, 0x11650, 0x116C0,
  0x11730, 0x118E0, 0x11950, 0x11C50, 0x11D50, 0x11DA0, 0x16A60, 0x16AC0, 0x16B50, 0x1D7CE,
  0x1D7D8, 0x1D7E2, 0x1D7EC, 0x1D7F6, 0x1E140, 0x1E2F0, 0x1E950, 0x1FBF0]

/-- The value of a decimal digit of any script. -/
def digit? (c : Char) : Option Nat :=
  if c.isDigit then some (c.toNat - 0x30)
  else if c.toNat < 0x80 then none
  else (zeros.find? fun z => decide (z ≤ c.toNat) && decide (c.toNat < z + 10)).map (c.toNat - ·)

theorem digit?_of_isDigit {c : Char} (h : c.isDigit = true) : digit? c = some (c.toNat - 0x30) := by
  simp [digit?, h]

/-- A decimal digit of any script. -/
def isDecimal (c : Char) : Bool :=
  (digit? c).isSome

/-- The number of digits up to which numbers are read and written. -/
def maxDigits : Nat := 4300

/-- The value of a run of digits; characters that are no digits count as zero. -/
def valueOfDigits (t : Text) : Nat :=
  t.foldl (fun n c => 10 * n + (digit? c).getD 0) 0

/-- The digits of a numeral without the single low lines between them. -/
def digitsOf? : Text → Option Text
  | [] => none
  | [c] => if isDecimal c then some [c] else none
  | c :: '_' :: d :: r =>
    if isDecimal c && isDecimal d then (digitsOf? (d :: r)).map (c :: ·) else none
  | c :: d :: r => if isDecimal c then (digitsOf? (d :: r)).map (c :: ·) else none

/-- The value of an unsigned numeral. -/
def readNat? (t : Text) : Option Nat :=
  match digitsOf? t with
  | some ds => if ds.length ≤ maxDigits then some (valueOfDigits ds) else none
  | none => none

/-- The blanks that may stand around a numeral: all but the four information separators. -/
def isNumeralBlank (c : Char) : Bool :=
  isBlank c && !(decide (0x1C ≤ c.toNat) && decide (c.toNat ≤ 0x1F))

/-- The value of a numeral with its sign and the blanks around it. -/
def readInt? (t : Text) : Option Int :=
  match dropEndWhile isNumeralBlank (t.dropWhile isNumeralBlank) with
  | '-' :: r => (readNat? r).map fun n => -(n : Int)
  | '+' :: r => (readNat? r).map Int.ofNat
  | r => (readNat? r).map Int.ofNat

end Fenceline.Text
