import DefiBackend.Common.JsNumber
import Mathlib.Data.Rat.Floor

/-! # Decimal numbers of any size

The operations of big numbers that the integrations use. They have the special values of numbers;
only divisions and `toFixed` round, half away from zero. -/

namespace DefiBackend
namespace JsNumber

/-- Rounding half away from zero. -/
def roundHalfUp (places : Nat) (q : ℚ) : ℚ :=
  let scaled := (⌊|q| * 10 ^ places + 1 / 2⌋ : ℚ) / 10 ^ places
  if q < 0 then -scaled else scaled

/-- `Number(a.toFixed(places))`. -/
def toFixed (places : Nat) : JsNumber → JsNumber
  | finite q => finite (roundHalfUp places q)
  | a => a

/-- `a.div(b)`, with the default number of decimal places. -/
def dividedBy (a b : JsNumber) : JsNumber := (a / b).toFixed 20

/-- `a.pow(n)`. -/
def pow (a : JsNumber) : Nat → JsNumber
  | 0 => 1
  | n + 1 => pow a n * a

/-- `10 ** n`. -/
def tenPow (n : Int) : JsNumber := finite (10 ^ n)

/-- `a.shiftedBy(n)`. -/
def shiftedBy (a : JsNumber) (n : Int) : JsNumber := a * tenPow n

/-- `a > b`. -/
def gt : JsNumber → JsNumber → Bool
  | finite a, finite b => b < a
  | finite _, infinity n => n
  | infinity n, finite _ => !n
  | infinity m, infinity n => !m && n
  | nan, _ | _, nan => false

def gte (a b : JsNumber) : Bool := a.gt b || (a = b && a != nan)

/-- `Math.min(a, b)`. -/
def min (a b : JsNumber) : JsNumber :=
  if a = nan ∨ b = nan then nan else if b.gt a then a else b

/-- `normalizeDecimals`. -/
def normalizeDecimals (number : JsNumber) (decimals : Nat) : JsNumber :=
  number.dividedBy (tenPow decimals)

/-- `toDecimals`. -/
def toDecimals (amount : JsNumber) (decimals : Nat) : JsNumber := amount * tenPow (-decimals)

/-- Amounts with at most twenty decimals are not rounded. -/
theorem normalizeDecimals_natCast (n : Nat) {decimals : Nat} (h : decimals ≤ 20) :
    (finite n).normalizeDecimals decimals = finite (n / 10 ^ decimals) := by
  have hne : (10 : ℚ) ^ decimals ≠ 0 := pow_ne_zero _ (by norm_num)
  have hscaled : |(n : ℚ) / 10 ^ decimals| * 10 ^ 20 = (n * 10 ^ (20 - decimals) : ℕ) := by
    have hpow : (10 : ℚ) ^ 20 = 10 ^ decimals * 10 ^ (20 - decimals) := by
      rw [← pow_add, Nat.add_sub_cancel' h]
    rw [abs_of_nonneg (by positivity), hpow, ← mul_assoc, div_mul_cancel₀ _ hne]
    push_cast
    rfl
  have hround : roundHalfUp 20 ((n : ℚ) / 10 ^ decimals) = n / 10 ^ decimals := by
    have hfloor : ⌊((n * 10 ^ (20 - decimals) : ℕ) : ℚ) + 1 / 2⌋ = (n * 10 ^ (20 - decimals) : ℕ) := by
      rw [Int.floor_natCast_add]
      norm_num
    have hnonneg : ¬ (n : ℚ) / 10 ^ decimals < 0 := not_lt.mpr (by positivity)
    rw [roundHalfUp, hscaled, hfloor, if_neg hnonneg, Int.cast_natCast, ← hscaled,
      abs_of_nonneg (by positivity)]
    exact mul_div_cancel_right₀ _ (by norm_num)
  rw [normalizeDecimals, dividedBy, tenPow, zpow_natCast, finite_div _ hne, toFixed, hround]

theorem finite_shiftedBy (q : ℚ) (n : ℤ) : (finite q).shiftedBy n = finite (q * 10 ^ n) := rfl

@[simp] theorem neg_neg (a : JsNumber) : -(-a) = a := by
  cases a with
  | finite q => exact congrArg finite (InvolutiveNeg.neg_neg q)
  | infinity n => exact congrArg infinity (Bool.not_not n)
  | nan => rfl

end JsNumber
end DefiBackend
