/-!
# Amounts

The amount of a number is a whole number times a power of two. That of a whole number is exact; a decimal
is kept with 53 binary digits, and its amount is the nearest of those. Two numbers are equal if and only
if their amounts are.

**The law.** `roundHalf_near`: a rounded quotient is off by a half at most.
-/

namespace Fenceline

/-- The amount of a number. -/
inductive Amount where
  /-- A whole number, zero or odd, times a power of two. -/
  | finite (mantissa exponent : Int)
  /-- More than any number that is kept with 53 binary digits, or less. -/
  | infinite (negative : Bool)
  deriving DecidableEq, Repr

namespace Amount

/-- A number times a power of two, twos in the number counted by the power. -/
def reduced : Nat → Int → Int → Amount
  | 0, mantissa, exponent => .finite mantissa exponent
  | n + 1, mantissa, exponent =>
    if mantissa = 0 then .finite 0 0
    else if mantissa % 2 = 0 then reduced n (mantissa / 2) (exponent + 1)
    else .finite mantissa exponent

/-- The amount of a whole number. -/
def ofInt (n : Int) : Amount :=
  reduced (n.natAbs.log2 + 1) n 0

/-- A quotient as the nearest whole number, a half as the even one of its neighbours. -/
def roundHalf (n d : Nat) : Nat :=
  if 2 * (n % d) < d ∨ (2 * (n % d) = d ∧ n / d % 2 = 0) then n / d else n / d + 1

/-- **A rounded quotient is off by a half at most.** -/
theorem roundHalf_near {n d : Nat} (hd : 0 < d) :
    2 * n ≤ 2 * (d * roundHalf n d) + d ∧ 2 * (d * roundHalf n d) ≤ 2 * n + d := by
  have hn := Nat.div_add_mod n d
  have hr := Nat.mod_lt n hd
  unfold roundHalf
  split
  · omega
  · rw [Nat.mul_succ]
    omega

/-- Whether a quotient is less than a power of two. -/
def isBelow (n d : Nat) (power : Int) : Bool :=
  decide (n <<< (-power).toNat < d <<< power.toNat)

/-- The power of two that the last of 53 digits of a quotient counts; it is never less than -1074. -/
def lastPlace (n d : Nat) : Int :=
  let place : Int := n.log2 - d.log2 - 52
  max (if isBelow n d (place + 52) then place - 1 else place) (-1074)

/-- The amount of a quotient, the sign apart. -/
def ofQuotient (negative : Bool) (n d : Nat) : Amount :=
  let place := lastPlace n d
  let mantissa := roundHalf (n <<< (-place).toNat) (d <<< place.toNat)
  if 1024 ≤ mantissa.log2 + place then .infinite negative
  else reduced (mantissa.log2 + 1) (if negative then -mantissa else mantissa) place

/-- The amount of a number times a power of ten. Where the power decides alone, nothing is reckoned. -/
def ofDecimal (negative : Bool) (digits : Nat) (exponent : Int) : Amount :=
  if digits = 0 ∨ exponent + digits.log2 < -400 then .finite 0 0
  else if 400 < exponent then .infinite negative
  else ofQuotient negative (digits * Nat.pow 10 exponent.toNat) (Nat.pow 10 (-exponent).toNat)

end Amount

end Fenceline
