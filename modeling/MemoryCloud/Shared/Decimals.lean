import Mathlib.Algebra.Order.Field.Power
import Mathlib.Algebra.Order.Field.Rat
import Mathlib.Data.Nat.Log
import Mathlib.Tactic.Linarith
import Mathlib.Tactic.Positivity
import Mathlib.Tactic.Ring

set_option autoImplicit false

/-!
# Decimal numbers of bounded precision

The product of `decimal` in its default context: 28 digits, rounded half to even. An integer that is
read off a rounded number stays within one of the number that was rounded.
-/

namespace MemoryCloud.Decimals

structure Decimal where
  negative : Bool
  coefficient : Nat
  exponent : Int

namespace Decimal

def sign (number : Decimal) : ℚ := if number.negative then -1 else 1

def value (number : Decimal) : ℚ := number.sign * (number.coefficient * 10 ^ number.exponent)

def precision : Nat := 28

def digits (number : Decimal) : Nat := Nat.log 10 number.coefficient + 1

def roundHalfEven (numerator denominator : Nat) : Nat :=
  let quotient := numerator / denominator
  let twice := 2 * (numerator % denominator)
  if denominator < twice ∨ (twice = denominator ∧ quotient % 2 = 1) then quotient + 1 else quotient

def rounded (number : Decimal) : Decimal :=
  if number.digits ≤ precision then number
  else
    let dropped := number.digits - precision
    { number with
      coefficient := roundHalfEven number.coefficient (10 ^ dropped)
      exponent := number.exponent + dropped }

def adjusted (number : Decimal) : Int := number.exponent + number.digits - 1

def exactProduct (first second : Decimal) : Decimal :=
  { negative := first.negative != second.negative
    coefficient := first.coefficient * second.coefficient
    exponent := first.exponent + second.exponent }

-- `none` where `Overflow` is raised. A product that is too small for the context keeps fewer digits
-- there; its integer part is zero either way.
def mul (first second : Decimal) : Option Decimal :=
  let product := rounded (exactProduct first second)
  if product.coefficient ≠ 0 ∧ 999999 < product.adjusted then none else some product

def toInt (number : Decimal) : Int :=
  let magnitude :=
    if 0 ≤ number.exponent then number.coefficient * 10 ^ number.exponent.toNat
    else number.coefficient / 10 ^ (-number.exponent).toNat
  if number.negative then -magnitude else magnitude

def ofNat (number : Nat) : Decimal := { negative := false, coefficient := number, exponent := 0 }

section Rounding

variable {number first second : Decimal}

theorem value_exactProduct (first second : Decimal) :
    (exactProduct first second).value = first.value * second.value := by
  have sign : (exactProduct first second).sign = first.sign * second.sign := by
    obtain ⟨negative, _, _⟩ := first
    obtain ⟨other, _, _⟩ := second
    cases negative <;> cases other <;> simp [Decimal.sign, exactProduct]
  simp only [value, sign]
  rw [exactProduct, zpow_add₀ (by norm_num)]
  push_cast
  ring

theorem value_ofNat (number : Nat) : (ofNat number).value = number := by
  simp [value, ofNat, sign]

theorem roundHalfEven_near (numerator : Nat) {denominator : Nat} (pos : 0 < denominator) :
    2 * numerator ≤ (2 * roundHalfEven numerator denominator + 1) * denominator ∧
      2 * (roundHalfEven numerator denominator * denominator) ≤ 2 * numerator + denominator := by
  have whole := Nat.div_add_mod numerator denominator
  have rest := Nat.mod_lt numerator pos
  rw [Nat.mul_comm] at whole
  unfold roundHalfEven
  dsimp only
  generalize numerator / denominator = quotient at whole ⊢
  generalize numerator % denominator = remainder at whole rest ⊢
  split
  next up =>
    rw [Nat.add_mul, Nat.mul_assoc, Nat.add_mul, Nat.one_mul]
    omega
  next down =>
    rw [Nat.add_mul, Nat.mul_assoc, Nat.one_mul]
    omega

theorem toInt_near (positive : number.negative = false) (fraction : number.exponent ≤ 0) :
    (number.toInt : ℚ) ≤ number.value ∧
      number.value ≤ number.toInt + 1 - 10 ^ number.exponent := by
  obtain ⟨_, coefficient, exponent⟩ := number
  subst positive
  obtain ⟨places, rfl⟩ : ∃ places : Nat, exponent = -places := ⟨exponent.natAbs, by
    change exponent ≤ 0 at fraction
    omega⟩
  have part : toInt ⟨false, coefficient, -places⟩ = (coefficient / 10 ^ places : Nat) := by
    rw [toInt]
    cases places with
    | zero => simp
    | succ places =>
      have fractional : ¬(0 : Int) ≤ -((places + 1 : Nat) : Int) := by omega
      rw [if_neg Bool.false_ne_true, if_neg fractional, Int.neg_neg, Int.toNat_natCast]
  have pos : (0 : ℚ) < 10 ^ places := by positivity
  have whole := Nat.div_add_mod coefficient (10 ^ places)
  have rest := Nat.mod_lt coefficient (show 0 < 10 ^ places by positivity)
  have value : value ⟨false, coefficient, -places⟩ = coefficient / 10 ^ places := by
    simp [value, sign, zpow_neg, div_eq_mul_inv]
  rw [part, value, zpow_neg, zpow_natCast, Int.cast_natCast]
  constructor
  next =>
    rw [le_div_iff₀ pos]
    exact_mod_cast Nat.div_mul_le_self coefficient (10 ^ places)
  next =>
    have below : coefficient + 1 ≤ (coefficient / 10 ^ places + 1) * 10 ^ places := by
      rw [Nat.add_mul, Nat.one_mul, Nat.mul_comm]
      omega
    have below : (coefficient : ℚ) + 1 ≤ ((coefficient / 10 ^ places : Nat) + 1) * 10 ^ places := by
      exact_mod_cast below
    rw [div_le_iff₀ pos, sub_mul, inv_mul_cancel₀ (ne_of_gt pos)]
    linarith

theorem toInt_whole (positive : number.negative = false) (whole : 0 ≤ number.exponent) :
    (number.toInt : ℚ) = number.value := by
  obtain ⟨_, coefficient, exponent⟩ := number
  subst positive
  obtain ⟨places, rfl⟩ := Int.eq_ofNat_of_zero_le whole
  simp [toInt, value, sign]

theorem rounded_of_long (long : ¬number.digits ≤ precision) :
    number.rounded =
      { number with
        coefficient := roundHalfEven number.coefficient (10 ^ (number.digits - precision))
        exponent := number.exponent + (number.digits - precision : Nat) } := by
  rw [rounded, if_neg long]

theorem rounded_negative (number : Decimal) : number.rounded.negative = number.negative := by
  rw [rounded]
  split
  next => rfl
  next => rfl

theorem value_of_positive (positive : number.negative = false) :
    number.value = number.coefficient * 10 ^ number.exponent := by
  rw [value, sign, positive, if_neg Bool.false_ne_true, one_mul]

theorem rounded_near (positive : number.negative = false) (long : ¬number.digits ≤ precision) :
    number.value ≤ number.rounded.value + 10 ^ number.rounded.exponent / 2 ∧
      number.rounded.value ≤ number.value + 10 ^ number.rounded.exponent / 2 := by
  obtain ⟨above, below⟩ :=
    roundHalfEven_near number.coefficient (show 0 < 10 ^ (number.digits - precision) by positivity)
  have above : (2 : ℚ) * number.coefficient ≤
      (2 * roundHalfEven number.coefficient (10 ^ (number.digits - precision)) + 1) *
        10 ^ (number.digits - precision) := by exact_mod_cast above
  have below : (2 : ℚ) *
      (roundHalfEven number.coefficient (10 ^ (number.digits - precision)) *
        10 ^ (number.digits - precision)) ≤
      2 * number.coefficient + 10 ^ (number.digits - precision) := by exact_mod_cast below
  have step : (0 : ℚ) < 10 ^ number.exponent := by positivity
  rw [value_of_positive positive, value_of_positive ((rounded_negative number).trans positive),
    rounded_of_long long]
  dsimp only
  rw [zpow_add₀ (by norm_num), zpow_natCast]
  constructor
  next => nlinarith
  next => nlinarith

theorem pow_le_value (positive : number.negative = false) (long : ¬number.digits ≤ precision) :
    10 ^ (number.rounded.exponent + 27) ≤ number.value := by
  have digits : number.digits - 1 = 27 + (number.digits - precision) := by
    rw [precision] at long ⊢
    omega
  have least : 10 ^ (number.digits - 1) ≤ number.coefficient := by
    refine Nat.pow_log_le_self 10 fun zero => long ?_
    rw [Decimal.digits, zero]
    decide
  have least : (10 : ℚ) ^ (27 + (number.digits - precision)) ≤ number.coefficient := by
    exact_mod_cast digits ▸ least
  have step : (0 : ℚ) < 10 ^ number.exponent := by positivity
  rw [rounded_of_long long, value_of_positive positive]
  calc (10 : ℚ) ^ (number.exponent + (number.digits - precision : Nat) + 27) =
      10 ^ (27 + (number.digits - precision)) * 10 ^ number.exponent := by
        rw [← zpow_natCast, ← zpow_add₀ (by norm_num)]
        congr 1
        push_cast
        ring
    _ ≤ number.coefficient * 10 ^ number.exponent := mul_le_mul_of_nonneg_right least step.le

theorem toInt_rounded_near (positive : number.negative = false) (small : number.value < 10 ^ 27) :
    |(number.rounded.toInt : ℚ) - number.value| < 1 := by
  rw [abs_lt]
  by_cases short : number.digits ≤ precision
  next =>
    rw [rounded, if_pos short]
    by_cases whole : 0 ≤ number.exponent
    next =>
      rw [toInt_whole positive whole, sub_self]
      exact ⟨by norm_num, by norm_num⟩
    next =>
      obtain ⟨below, above⟩ := toInt_near positive (Int.le_of_lt (Int.not_le.mp whole))
      have step : (0 : ℚ) < 10 ^ number.exponent := by positivity
      exact ⟨by linarith, by linarith⟩
  next =>
    -- The digits that are left reach below one.
    have fraction : number.rounded.exponent < 0 := by
      have bound := lt_of_le_of_lt (pow_le_value positive short) small
      rw [← zpow_natCast, zpow_lt_zpow_iff_right₀ (by norm_num)] at bound
      omega
    obtain ⟨below, above⟩ := toInt_near ((rounded_negative number).trans positive) (Int.le_of_lt fraction)
    obtain ⟨up, down⟩ := rounded_near positive short
    have step : (0 : ℚ) < 10 ^ number.rounded.exponent := by positivity
    have small : (10 : ℚ) ^ number.rounded.exponent < 1 := zpow_lt_one_of_neg₀ (by norm_num) fraction
    exact ⟨by linarith, by linarith⟩

theorem pow_adjusted_le (positive : number.negative = false) (some_digit : number.coefficient ≠ 0) :
    10 ^ number.adjusted ≤ number.value := by
  have least : (10 : ℚ) ^ Nat.log 10 number.coefficient ≤ number.coefficient := by
    exact_mod_cast Nat.pow_log_le_self 10 some_digit
  have step : (0 : ℚ) < 10 ^ number.exponent := by positivity
  rw [value_of_positive positive]
  calc (10 : ℚ) ^ number.adjusted = 10 ^ Nat.log 10 number.coefficient * 10 ^ number.exponent := by
        rw [← zpow_natCast, ← zpow_add₀ (by norm_num), adjusted, digits]
        congr 1
        push_cast
        ring
    _ ≤ number.coefficient * 10 ^ number.exponent := mul_le_mul_of_nonneg_right least step.le

theorem rounded_le_double (positive : number.negative = false) :
    number.rounded.value ≤ 2 * number.value := by
  have nonneg : 0 ≤ number.value := by
    rw [value_of_positive positive]
    positivity
  by_cases short : number.digits ≤ precision
  next =>
    rw [rounded, if_pos short]
    linarith
  next =>
    have lower : (10 : ℚ) ^ number.rounded.exponent ≤ 10 ^ (number.rounded.exponent + 27) :=
      zpow_le_zpow_right₀ (by norm_num) (by omega)
    have least := pow_le_value positive short
    have near := (rounded_near positive short).2
    linarith

theorem mul_negative {product : Decimal} (found : first.mul second = some product) :
    product.negative = (first.negative != second.negative) := by
  rw [mul] at found
  split at found
  next => cases found
  next =>
    cases found
    exact rounded_negative _

theorem toInt_nonneg (positive : number.negative = false) : 0 ≤ number.toInt := by
  rw [toInt, positive, if_neg Bool.false_ne_true]
  split
  next => positivity
  next => positivity

theorem mul_toInt_near (positive : first.negative = false) (other : second.negative = false)
    (small : first.value * second.value < 10 ^ 27) :
    ∃ product, first.mul second = some product ∧
      |(product.toInt : ℚ) - first.value * second.value| < 1 := by
  have sign : (exactProduct first second).negative = false := by
    rw [exactProduct, positive, other]
    rfl
  rw [← value_exactProduct] at small ⊢
  refine ⟨(exactProduct first second).rounded, ?_, toInt_rounded_near sign small⟩
  rw [mul]
  refine if_neg ?_
  rintro ⟨some_digit, large⟩
  have least := pow_adjusted_le ((rounded_negative _).trans sign) some_digit
  have double := rounded_le_double sign
  have huge : (10 : ℚ) ^ (28 : Int) ≤ 10 ^ (exactProduct first second).rounded.adjusted :=
    zpow_le_zpow_right₀ (by norm_num) (by omega)
  have number : (10 : ℚ) ^ (28 : Int) = 10 * 10 ^ 27 := by norm_num
  linarith

end Rounding

end Decimal

end MemoryCloud.Decimals
