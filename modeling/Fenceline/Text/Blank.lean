import Fenceline.Text.Basic

/-!
# Blank characters

White space in the wide sense: the ASCII blanks, the four information separators, and the spaces and
line separators of the standard. The zero width space and the byte order mark are not blank.

**The law.** `isBlank_of_isWhitespace`: every blank that the core library knows is blank here.
-/

namespace Fenceline.Text

/-- White space of any script. -/
def isBlank (c : Char) : Bool :=
  let n := c.toNat
  (decide (0x09 ≤ n) && decide (n ≤ 0x0D)) || (decide (0x1C ≤ n) && decide (n ≤ 0x20)) ||
    n == 0x85 || n == 0xA0 || n == 0x1680 || (decide (0x2000 ≤ n) && decide (n ≤ 0x200A)) ||
    n == 0x2028 || n == 0x2029 || n == 0x202F || n == 0x205F || n == 0x3000

theorem isBlank_of_isWhitespace {c : Char} (h : c.isWhitespace = true) : isBlank c = true := by
  simp only [Char.isWhitespace, Bool.or_eq_true, decide_eq_true_eq] at h
  rcases h with ((rfl | rfl) | rfl) | rfl <;> decide

/-- The text without the blanks at its end. -/
def trimEnd (t : Text) : Text :=
  dropEndWhile isBlank t

/-- The text without the blanks at its two ends. -/
def trim (t : Text) : Text :=
  trimEnd (t.dropWhile isBlank)

end Fenceline.Text
