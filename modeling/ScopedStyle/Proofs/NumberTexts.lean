import Mathlib
import ScopedStyle.Declaration

/-! Numbers are rendered by what they denote. A finite pattern denotes a rational number, told here from
its sign, exponent and fraction. Where this is an integer, the text is the decimal of the integer in full,
as it is for the integer itself; so two integers, in whatever way they are held, have the same text
exactly if they are the same number. Only infinities and non-numbers have no text. -/
namespace ScopedStyle

namespace Binary64

/-- The size of the number that a finite pattern denotes, told from its fields: one is added to the
fraction unless all exponent bits are clear. -/
def magnitude (x : Binary64) : ℚ :=
  if x.biasedExponent = 0 then x.fraction / 2 ^ 52 * 2 ^ (-1022 : ℤ)
  else (1 + x.fraction / 2 ^ 52) * 2 ^ ((x.biasedExponent : ℤ) - 1023)

/-- The rational number that a pattern denotes, if it denotes one. -/
def rational? (x : Binary64) : Option ℚ :=
  if x.isFinite then some (if x.isNegative then -x.magnitude else x.magnitude) else none

/-! ## Integers among the rational numbers of patterns -/

theorem magnitude_eq (x : Binary64) : x.magnitude = x.significand * 2 ^ x.exponent := by
  have shift (e : ℤ) : (2 : ℚ) ^ (e - 1023) = 2 ^ 52 * 2 ^ (e - 1075) := by
    rw [show e - 1023 = 52 + (e - 1075) by ring, zpow_add₀ two_ne_zero]
    norm_cast
  by_cases lowest : x.biasedExponent = 0
  · have least : x.exponent = 1 - 1075 := by simp [exponent, lowest]
    rw [magnitude, if_pos lowest, significand, if_pos lowest, least,
      show (-1022 : ℤ) = 1 - 1023 by norm_num, shift]
    field_simp
  · have power : x.exponent = x.biasedExponent - 1075 := by
      have larger : max 1 x.biasedExponent = x.biasedExponent := by omega
      simp [exponent, larger]
    have whole : ((Nat.pow 2 52 + x.fraction : ℕ) : ℚ) = 2 ^ 52 + x.fraction := by
      push_cast
      norm_num
    rw [magnitude, if_neg lowest, significand, if_neg lowest, power, shift, whole]
    field_simp

/-- A power of two as a quotient of two natural numbers, one of which is one. -/
theorem two_zpow_eq (power : ℤ) :
    (2 : ℚ) ^ power = (Nat.pow 2 power.toNat : ℕ) / (Nat.pow 2 (-power).toNat : ℕ) := by
  rcases Int.le_total 0 power with nonneg | negative
  · have none : (-power).toNat = 0 := by omega
    obtain ⟨n, rfl⟩ := Int.eq_ofNat_of_zero_le nonneg
    simp [none]
  · obtain ⟨n, opposite⟩ := Int.eq_ofNat_of_zero_le (Int.neg_nonneg_of_nonpos negative)
    obtain rfl : power = -n := by omega
    simp

/-- The size of a finite pattern is a quotient of two natural numbers. -/
theorem magnitude_eq_div (x : Binary64) :
    x.magnitude = (x.significand * Nat.pow 2 x.exponent.toNat : ℕ) /
      (Nat.pow 2 (-x.exponent).toNat : ℕ) := by
  rw [magnitude_eq, two_zpow_eq, Nat.cast_mul, mul_div_assoc]

/-- A quotient is an integer if the division leaves nothing, and then it is what the division gives. -/
theorem div_eq_iff_divides {numerator divisor : Nat} (positive : 0 < divisor) (number : Int) :
    (numerator : ℚ) / divisor = number ↔
      numerator % divisor = 0 ∧ ((numerator / divisor : ℕ) : ℤ) = number := by
  have nonzero : (divisor : ℚ) ≠ 0 := by exact_mod_cast positive.ne'
  constructor
  · intro same
    have scaled : (numerator : ℚ) = divisor * number := by rw [← same, mul_div_cancel₀ _ nonzero]
    have whole : (numerator : ℤ) = divisor * number := by exact_mod_cast scaled
    refine ⟨Nat.mod_eq_zero_of_dvd (Int.natCast_dvd_natCast.mp ⟨number, whole⟩), ?_⟩
    rw [Int.natCast_div, whole, Int.mul_ediv_cancel_left _ (by omega)]
  · rintro ⟨exact, rfl⟩
    rw [Int.cast_natCast, Nat.cast_div (Nat.dvd_of_mod_eq_zero exact) nonzero]

theorem signed_div_eq_iff {negative : Bool} {numerator divisor : Nat} (positive : 0 < divisor)
    (number : Int) :
    (if negative then -((numerator : ℚ) / divisor) else (numerator : ℚ) / divisor) = number ↔
      numerator % divisor = 0 ∧ signed negative (numerator / divisor) = number := by
  cases negative with
  | false => exact div_eq_iff_divides positive number
  | true =>
    have opposite : -((numerator : ℚ) / divisor) = number ↔
        (numerator : ℚ) / divisor = ((-number : ℤ) : ℚ) := by
      rw [Int.cast_neg, neg_eq_iff_eq_neg]
    rw [if_pos rfl, opposite, div_eq_iff_divides positive, signed, if_pos rfl]
    exact and_congr_right fun _ => by omega

theorem integer?_eq_some_iff {x : Binary64} {number : Int} :
    x.integer? = some number ↔ x.rational? = some (number : ℚ) := by
  have positive : 0 < Nat.pow 2 (-x.exponent).toNat := Nat.pow_pos (by decide)
  cases finite : x.isFinite with
  | false => simp [integer?, rational?, finite]
  | true =>
    simp only [integer?, rational?, finite, magnitude_eq_div, Bool.true_and, beq_iff_eq,
      ↓reduceIte, Option.some.injEq, signed_div_eq_iff positive]
    simp

theorem rational?_eq_none_iff {x : Binary64} : x.rational? = none ↔ x.isFinite = false := by
  cases finite : x.isFinite <;> simp [rational?, finite]

/-- What denotes no number is an infinity or no number at all. -/
theorem not_isFinite_iff {x : Binary64} :
    x.isFinite = false ↔ x.isNaN = true ∨ x = infinity ∨ x = infinity.negated := by
  constructor
  · intro infinite
    by_cases clear : x.fraction = 0
    · have full : x.biasedExponent = 2047 := by simpa [isFinite] using infinite
      have bound := x.bits.toNat_lt
      simp only [biasedExponent, fraction, Nat.pow_eq, Nat.reducePow] at full clear
      -- The sign is all that the fields leave open.
      have sign : x.bits.toNat = 0x7FF0000000000000 ∨ x.bits.toNat = 0xFFF0000000000000 := by omega
      refine .inr (sign.imp (fun plus => ?_) fun minus => ?_)
      · exact congrArg mk (UInt64.toNat_inj.mp plus)
      · exact congrArg mk (UInt64.toNat_inj.mp minus)
    · exact .inl (by simp [isNaN, infinite, clear])
  · rintro (none | rfl | rfl)
    · simp only [isNaN, Bool.and_eq_true, Bool.not_eq_true'] at none
      exact none.1
    · decide
    · decide

end Binary64

/-! ## Decimals -/

/-- Whether a text is an integer written in full: a minus sign if it is negative, and its digits, with
no zero before others. -/
def WritesInFull (text : String) (number : Int) : Prop :=
  ∃ digits : List Char, text.toList = (if number < 0 then ['-'] else []) ++ digits ∧
    digits ≠ [] ∧ (∀ c ∈ digits, c.isDigit = true) ∧ (digits.head? = some '0' → digits = ['0']) ∧
    Nat.ofDigitChars 10 digits 0 = number.natAbs

theorem toDigits_of_leading_zero {number : Nat}
    (leads : (Nat.toDigits 10 number).head? = some '0') : number = 0 := by
  induction number using Nat.strong_induction_on with
  | _ number ih =>
    rcases Nat.lt_or_ge number 10 with single | several
    · have zero : ∀ digit < 10, Nat.digitChar digit = '0' → digit = 0 := by decide
      rw [Nat.toDigits_of_lt_base single] at leads
      exact zero number single (Option.some.inj leads)
    · rw [Nat.toDigits_of_base_le (by decide) several] at leads
      rw [List.head?_append_of_ne_nil _ Nat.toDigits_ne_nil] at leads
      have rest := ih (number / 10) (by omega) leads
      omega

theorem writesInFull_repr (number : Int) : WritesInFull number.repr number := by
  refine ⟨Nat.toDigits 10 number.natAbs, ?_, Nat.toDigits_ne_nil, ?_, ?_,
    Nat.ofDigitChars_ten_toDigits⟩
  · rw [Int.repr_eq_if]
    by_cases negative : number < 0
    · have size : (-number).toNat = number.natAbs := by omega
      rw [if_neg (by omega), if_pos negative, String.toList_append, Nat.toList_repr, size]
      rfl
    · have size : number.toNat = number.natAbs := by omega
      rw [if_pos (by omega), if_neg negative, Nat.toList_repr, size, List.nil_append]
  · exact fun c member => Nat.isDigit_of_mem_toDigits (by decide) (by decide) member
  · intro leads
    rw [toDigits_of_leading_zero leads]
    rfl

/-! ## Texts of numbers -/

namespace Value

/-- The rational number that a value is, be it held as an integer or as a pattern. -/
def rational? (value : Value) : Option ℚ :=
  match value.content with
  | .int number => some number
  | .float number => number.rational?
  | _ => none

variable {unit : String} {value : Value}

theorem rendered_of_int {number : Int} (held : value.content = .int number) :
    value.rendered unit = .ok (number.repr ++ unit) := by
  simp only [rendered, held]

theorem rendered_fails_iff {x : Binary64} (held : value.content = .float x) :
    (∃ fault, value.rendered unit = .error fault) ↔ x.isFinite = false := by
  cases finite : x.isFinite with
  | false => simp [rendered, held, finite]
  | true =>
    simp only [rendered, held, finite]
    cases x.integer? <;> simp

/-- A value that is an integer is rendered as the integer in full. -/
theorem rendered_of_rational? {number : Int} (denotes : value.rational? = some (number : ℚ)) :
    value.rendered unit = .ok (number.repr ++ unit) := by
  unfold rational? at denotes
  split at denotes
  · next held =>
    cases Int.cast_injective (Option.some.inj denotes)
    exact rendered_of_int held
  · next x held =>
    have finite : x.isFinite = true := by
      rw [← Bool.not_eq_false, ← Binary64.rational?_eq_none_iff, denotes]
      exact nofun
    have whole := Binary64.integer?_eq_some_iff.mpr denotes
    simp [rendered, held, finite, whole]
  · cases denotes

/-- Two integers have the same text in front of a unit only if they are the same. -/
theorem rendered_eq_iff {other : Value} {number number' : Int}
    (denotes : value.rational? = some (number : ℚ))
    (denotes' : other.rational? = some (number' : ℚ)) :
    value.rendered unit = other.rendered unit ↔ number = number' := by
  rw [rendered_of_rational? denotes, rendered_of_rational? denotes', Except.ok.injEq]
  constructor
  · intro same
    have characters := congrArg String.toList same
    rw [String.toList_append, String.toList_append] at characters
    exact Int.repr_inj.mp (String.toList_inj.mp (List.append_cancel_right characters))
  · rintro rfl
    rfl

/-- **Numbers are rendered by what they denote.** A pattern denotes a rational number unless it is an
infinity or no number, and only then it has no rendering. Where the rational number is an integer, the
pattern is rendered as the integer in full and the unit behind it, just as the integer itself is. Two
integers, held as integers or as patterns, have the same rendering exactly if they are equal. -/
theorem numbers_render_by_value (unit : String) :
    (∀ (value : Value) (x : Binary64), value.content = .float x →
      (x.rational? = none ↔ x.isNaN = true ∨ x = .infinity ∨ x = Binary64.infinity.negated) ∧
      ((∃ fault, value.rendered unit = .error fault) ↔
        x.isNaN = true ∨ x = .infinity ∨ x = Binary64.infinity.negated) ∧
      ∀ number : Int, x.rational? = some (number : ℚ) →
        value.rendered unit = .ok (number.repr ++ unit) ∧ WritesInFull number.repr number ∧
          value.rendered unit = (Value.int number).rendered unit) ∧
    ∀ (first second : Value) (number other : Int),
      first.rational? = some (number : ℚ) → second.rational? = some (other : ℚ) →
        (first.rendered unit = second.rendered unit ↔ number = other) := by
  constructor
  · intro value x held
    refine ⟨?_, ?_, fun number denotes => ?_⟩
    · rw [← Binary64.not_isFinite_iff, Binary64.rational?_eq_none_iff]
    · rw [← Binary64.not_isFinite_iff, rendered_fails_iff held]
    · have isNumber : value.rational? = some (number : ℚ) := by
        simp only [rational?, held, denotes]
      have text : value.rendered unit = .ok (number.repr ++ unit) :=
        rendered_of_rational? isNumber
      exact ⟨text, writesInFull_repr number, text.trans (rendered_of_int rfl).symm⟩
  · exact fun first second number other denotes denotes' => rendered_eq_iff denotes denotes'

/-- Beyond sixteen digits, at negative zero and for an object built on a number. -/
theorem numbers_render_by_value_of_large :
    (Value.float ⟨0x4480F0CF064DD592⟩).rendered "px" =
        (Value.int 10000000000000000000000).rendered "px" ∧
      (Value.float ⟨0x8000000000000000⟩).rendered "px" = (Value.int 0).rendered "px" ∧
      (Value.derived ⟨0, "Size", .absent⟩ (.int 10)).rendered "px" =
        (Value.float ⟨0x4024000000000000⟩).rendered "px" ∧
      ∃ fault, (Value.float .nan).rendered "px" = .error fault := by
  obtain ⟨patterns, alike⟩ := numbers_render_by_value "px"
  have large : (⟨0x4480F0CF064DD592⟩ : Binary64).rational? =
      some ((10000000000000000000000 : ℤ) : ℚ) :=
    Binary64.integer?_eq_some_iff.mp (by decide +kernel)
  have zero : (⟨0x8000000000000000⟩ : Binary64).rational? = some ((0 : ℤ) : ℚ) :=
    Binary64.integer?_eq_some_iff.mp (by decide +kernel)
  have ten : (⟨0x4024000000000000⟩ : Binary64).rational? = some ((10 : ℤ) : ℚ) :=
    Binary64.integer?_eq_some_iff.mp (by decide +kernel)
  refine ⟨?_, ?_, ?_, ?_⟩
  · exact ((patterns _ _ rfl).2.2 _ large).2.2
  · exact ((patterns _ _ rfl).2.2 _ zero).2.2
  · exact (alike _ (.float ⟨0x4024000000000000⟩) 10 10 rfl ten).mpr rfl
  · exact (patterns _ _ rfl).2.1.mpr (.inl (by decide))

end Value

end ScopedStyle
