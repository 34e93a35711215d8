import ScopedStyle.Binary64

/-! The floating-point number nearest to a decimal. A quotient of integers is scaled by the power of
two that leaves it a significand of the format, and rounded once, a half going to the even one. -/
namespace ScopedStyle

/-- A quotient rounded to the nearest integer, a half to the even one. -/
def roundedQuotient (numerator denominator : Nat) : Nat :=
  let quotient := numerator / denominator
  let twice := 2 * (numerator % denominator)
  if denominator < twice || (twice == denominator && quotient % 2 == 1) then quotient + 1
  else quotient

namespace Binary64

/-- A quotient divided by `2 ^ exponent`, again as a quotient. -/
def scaledDown (numerator denominator : Nat) (exponent : Int) : Nat × Nat :=
  (numerator * Nat.pow 2 (-exponent).toNat, denominator * Nat.pow 2 exponent.toNat)

/-- The least exponent, not below that of the lowest binade, at which the quotient is less than
`2 ^ 53`. -/
def fittingExponent (numerator denominator : Nat) : Int :=
  let lower := max ((numerator.log2 : Int) - denominator.log2 - 53) (-1074)
  let (scaled, divisor) := scaledDown numerator denominator lower
  if scaled / divisor < Nat.pow 2 53 then lower else lower + 1

/-- The number nearest to a positive quotient. Counting patterns upwards from zero, a significand
that rounds up to the next power of two already is the pattern of that power. -/
def nearestQuotient (numerator denominator : Nat) : Binary64 :=
  let exponent := fittingExponent numerator denominator
  let (scaled, divisor) := scaledDown numerator denominator exponent
  let pattern := roundedQuotient scaled divisor + (exponent + 1074).toNat * Nat.pow 2 52
  if pattern < infinity.bits.toNat then ⟨pattern.toUInt64⟩ else infinity

/-- The number nearest to `digits * 10 ^ exponent`. Beyond all finite numbers it is infinity, and
far below the least positive one zero. -/
def nearestDecimal (digits : Nat) (exponent : Int) : Binary64 :=
  let magnitude := (Nat.toDigits 10 digits).length + exponent
  if digits = 0 || magnitude < -400 then ⟨0⟩
  else if 400 < magnitude then infinity
  else nearestQuotient (digits * Nat.pow 10 exponent.toNat) (Nat.pow 10 (-exponent).toNat)

end Binary64

end ScopedStyle
