/-! Floating-point numbers of 64 bits, held as their interchange patterns. A finite pattern denotes
exactly a signed integer times a power of two, and every question asked of it here is answered by
integer arithmetic on those two numbers. -/
namespace ScopedStyle

/-- A number in the binary interchange format of 64 bits: a sign bit, eleven bits of exponent and
fifty-two of fraction. -/
structure Binary64 where
  bits : UInt64
deriving DecidableEq

namespace Binary64

/-- The low fifty-two bits. -/
def fraction (x : Binary64) : Nat :=
  x.bits.toNat % Nat.pow 2 52

/-- The eleven bits above the fraction. -/
def biasedExponent (x : Binary64) : Nat :=
  x.bits.toNat / Nat.pow 2 52 % Nat.pow 2 11

/-- The sign bit, also of zeros. -/
def isNegative (x : Binary64) : Bool :=
  Nat.pow 2 63 ≤ x.bits.toNat

/-- All patterns but those whose exponent bits are all set denote a rational number. -/
def isFinite (x : Binary64) : Bool :=
  x.biasedExponent != 2047

/-- The patterns that denote no number at all. -/
def isNaN (x : Binary64) : Bool :=
  !x.isFinite && x.fraction != 0

/-- The integer in `± significand * 2 ^ exponent`; the leading one is implied except in the lowest
binade. -/
def significand (x : Binary64) : Nat :=
  if x.biasedExponent = 0 then x.fraction else Nat.pow 2 52 + x.fraction

/-- The power of two in `± significand * 2 ^ exponent`. -/
def exponent (x : Binary64) : Int :=
  (max 1 x.biasedExponent : Nat) - 1075

/-- Positive and negative zero. -/
def isZero (x : Binary64) : Bool :=
  x.isFinite && x.significand == 0

/-- An integer given its sign. -/
def signed (negative : Bool) (magnitude : Nat) : Int :=
  if negative then -(magnitude : Int) else magnitude

/-- The integer that a finite pattern denotes, if it denotes an integer. -/
def integer? (x : Binary64) : Option Int :=
  let scaled := x.significand * Nat.pow 2 x.exponent.toNat
  let divisor := Nat.pow 2 (-x.exponent).toNat
  if x.isFinite && scaled % divisor == 0 then some (signed x.isNegative (scaled / divisor))
  else none

/-- Numerical equality: the two zeros are equal and a non-number equals nothing. -/
def equals (x y : Binary64) : Bool :=
  (!x.isNaN && x.bits == y.bits) || (x.isZero && y.isZero)

/-- A pattern with its sign bit set. -/
def negated (x : Binary64) : Binary64 :=
  ⟨x.bits ||| 0x8000000000000000⟩

/-- Positive infinity. -/
def infinity : Binary64 := ⟨0x7FF0000000000000⟩

/-- The non-number that stands for all of them. -/
def nan : Binary64 := ⟨0x7FF8000000000000⟩

end Binary64

end ScopedStyle
