import ScopedStyle.Binary64

/-! The decimal text of a floating-point number: the fewest digits that no other number of the
format is nearer to, and of those the nearest to the number itself. Every number of the format has
a finite decimal expansion, so candidates are compared as integers in units of its last place. -/
namespace ScopedStyle

/-- A positive number and the ends of the interval of reals that round to it, all three counted in
units of `10 ^ place`. -/
structure RoundingSpan where
  value : Nat
  low : Nat
  high : Nat
  /-- Whether the two ends themselves round to the value. -/
  closed : Bool
  place : Int

namespace RoundingSpan

/-- The span of a finite number. A quarter of the last bit of the significand is the unit in which
both ends are whole; below a power of two the neighbour is only half as far away. -/
def ofBinary64 (x : Binary64) : RoundingSpan :=
  let quarter := x.exponent - 2
  let unit := if 0 ≤ quarter then Nat.pow 2 quarter.toNat else Nat.pow 5 (-quarter).toNat
  let gapBelow := if x.fraction = 0 && 1 < x.biasedExponent then 1 else 2
  { value := 4 * x.significand * unit
    low := (4 * x.significand - gapBelow) * unit
    high := (4 * x.significand + 2) * unit
    closed := x.significand % 2 == 0
    place := min quarter 0 }

/-- Whether a decimal, counted in the span's units, rounds to the value. -/
def admits (span : RoundingSpan) (candidate : Nat) : Bool :=
  if span.closed then span.low ≤ candidate && candidate ≤ span.high
  else span.low < candidate && candidate < span.high

/-- The multiple of `grid` that rounds to the value and is nearest to it, as a number of grid
steps; of two equally near ones the even one. Only the two multiples around the value can be it. -/
def nearestStep? (span : RoundingSpan) (grid : Nat) : Option Nat :=
  let below := span.value / grid
  let above := below + 1
  let toBelow := span.value - below * grid
  let toAbove := above * grid - span.value
  match span.admits (below * grid), span.admits (above * grid) with
  | false, false => none
  | true, false => some below
  | false, true => some above
  | true, true =>
    if toBelow < toAbove || (toBelow == toAbove && below % 2 == 0) then some below else some above

/-- The digits on the coarsest grid `10 ^ zeros` that has an admitted multiple, at most as coarse
as asked, with the number of zeros dropped. On the finest grid it is the value itself. -/
def coarsest (span : RoundingSpan) : Nat → Nat × Nat
  | 0 => (span.value, 0)
  | zeros + 1 =>
    match span.nearestStep? (Nat.pow 10 (zeros + 1)) with
    | some digits => (digits, zeros + 1)
    | none => span.coarsest zeros

end RoundingSpan

/-- A positive decimal number `digits * 10 ^ exponent`, its digits from the most significant. -/
structure DecimalDigits where
  digits : List Char
  exponent : Int

namespace DecimalDigits

/-- The same number without zeros at the end of its digits. -/
def trimmed (d : DecimalDigits) : DecimalDigits :=
  let kept := (d.digits.reverse.dropWhile (· == '0')).reverse
  { digits := kept, exponent := d.exponent + (d.digits.length - kept.length : Nat) }

/-- The fewest digits that round to a finite number other than zero. -/
def shortest (x : Binary64) : DecimalDigits :=
  let span := RoundingSpan.ofBinary64 x
  let (digits, zeros) := span.coarsest ((Nat.toDigits 10 span.value).length - 1)
  trimmed { digits := Nat.toDigits 10 digits, exponent := span.place + zeros }

/-- The power of ten of the first digit. -/
def magnitude (d : DecimalDigits) : Int :=
  d.exponent + d.digits.length - 1

/-- Digits with a point, at least one of them on either side of it. -/
def positional (d : DecimalDigits) : List Char :=
  if 0 ≤ d.exponent then
    d.digits ++ List.replicate d.exponent.toNat '0' ++ ['.', '0']
  else if 0 ≤ d.magnitude then
    let whole := d.magnitude.toNat + 1
    d.digits.take whole ++ '.' :: d.digits.drop whole
  else
    '0' :: '.' :: List.replicate (-1 - d.magnitude).toNat '0' ++ d.digits

/-- One digit before the point, and the power of ten with its sign and at least two digits. -/
def scientific (d : DecimalDigits) : List Char :=
  let head := d.digits.take 1
  let tail := d.digits.drop 1
  let power := Nat.toDigits 10 d.magnitude.natAbs
  head ++ (if tail.isEmpty then [] else '.' :: tail)
    ++ 'e' :: (if d.magnitude < 0 then '-' else '+')
    :: List.replicate (2 - power.length) '0' ++ power

/-- Positional notation from a ten-thousandth up to sixteen digits before the point, and powers of
ten outside. -/
def layout (d : DecimalDigits) : List Char :=
  if -4 ≤ d.magnitude && d.magnitude < 16 then d.positional else d.scientific

end DecimalDigits

/-- The decimal text of a floating-point number. -/
def Binary64.decimalText (x : Binary64) : String :=
  if x.isNaN then "nan"
  else
    let size :=
      if !x.isFinite then ['i', 'n', 'f']
      else if x.isZero then ['0', '.', '0']
      else (DecimalDigits.shortest x).layout
    String.ofList (if x.isNegative then '-' :: size else size)

end ScopedStyle
