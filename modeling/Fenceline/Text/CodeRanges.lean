/-!
# Tables of code points

A class of characters as the standard writes it: ranges of code points, ends included.
-/

namespace Fenceline.Text

/-- Ranges of code points, each from its first to its last member. -/
abbrev CodeRanges := List (Nat × Nat)

/-- Whether the character is in one of the ranges. -/
def CodeRanges.holds (ranges : CodeRanges) (c : Char) : Bool :=
  ranges.any fun r => decide (r.1 ≤ c.toNat) && decide (c.toNat ≤ r.2)

end Fenceline.Text
