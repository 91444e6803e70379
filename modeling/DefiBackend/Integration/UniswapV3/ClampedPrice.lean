import DefiBackend.Integration.UniswapV3.PositionAmounts
import DefiBackend.Theory.BitFold
import Mathlib.Data.Int.ConditionallyCompleteOrder
import Mathlib.Tactic.Positivity

/-! # Amounts by the price

The amounts of a position are computed in one of three branches, by ticks. They are those that the
price gives, clamped between the prices of the two ticks.

* `getSqrtRatioAtTick_mono`: prices go up with ticks, as far as the function looks at their bits;
* `mulDivRoundingUp_eq`, `getAmount0Delta_eq`, `getAmount1Delta_eq`: divisions that round up;
* `calculatePositionAmounts_clamped`: the law of the amounts. -/

namespace DefiBackend
namespace UniswapV3
open Theory

/-! ## Prices of ticks -/

/-- The factors with that of the lowest bit. -/
def factors : List (Nat × BN) := (0x1, 0xfffcb933bd6fad37aa2d162d1a594001) :: tickFactors

def factorMaps : List (BN → BN) := factors.map fun factor ratio => mulShift ratio factor.2

/-- The product of the factors of an absolute tick. -/
def ratioOf (absTick : Nat) : BN := bitFold factorMaps absTick Q128

/-- Back to units of `2 ^ 96`, upwards. -/
def roundToQ96 (ratio : BN) : BN :=
  if ratio.tmod Q32 > 0 then ratio.tdiv Q32 + 1 else ratio.tdiv Q32

theorem factors_masks : Masks 0 factors := by
  unfold factors tickFactors
  repeat' constructor

theorem foldl_factors (absTick : Nat) :
    factors.foldl (fun ratio factor => if absTick &&& factor.1 ≠ 0 then mulShift ratio factor.2
      else ratio) Q128 = ratioOf absTick := by
  rw [foldl_and_eq_bitFold factors_masks, Nat.pow_zero, Nat.div_one]
  rfl

/-- What `getSqrtRatioAtTick` makes of the product. -/
theorem getSqrtRatioAtTick_eq (tick : ℤ) :
    getSqrtRatioAtTick tick = roundToQ96
      (if tick > 0 then MaxUint256.tdiv (ratioOf tick.natAbs) else ratioOf tick.natAbs) := by
  have hfirst : mulShift Q128 0xfffcb933bd6fad37aa2d162d1a594001 =
      0xfffcb933bd6fad37aa2d162d1a594001 := by decide +kernel
  rw [← foldl_factors, factors, List.foldl_cons, hfirst]
  rfl

theorem mulShift_mono (h : 0 ≤ factor) : Monotone fun ratio => mulShift ratio factor := by
  intro a b hab
  exact Int.ediv_le_ediv (by decide) (mul_le_mul_of_nonneg_right hab h)

theorem factorMaps_mono : ∀ f ∈ factorMaps, Monotone f := by
  have hpos : ∀ factor ∈ factors, 0 ≤ factor.2 := by decide +kernel
  intro f hf
  obtain ⟨factor, hmem, rfl⟩ := List.mem_map.mp hf
  exact mulShift_mono (hpos factor hmem)

theorem factorMaps_carries : Carries factorMaps Q128 Q128 := by decide +kernel

/-- The product goes down as the absolute tick goes up, within the bits that have factors. -/
theorem ratioOf_antitone (hmn : m ≤ n) (hn : n < 2 ^ 20) : ratioOf n ≤ ratioOf m :=
  bitFold_antitone factorMaps_mono factorMaps_carries hmn hn

theorem ratioOf_pos (hn : n < 2 ^ 20) : 0 < ratioOf n := by
  have hlast : 0 < ratioOf (2 ^ 20 - 1) := by decide +kernel
  exact lt_of_lt_of_le hlast (ratioOf_antitone (by omega) (by omega))

theorem ratioOf_le (hn : n < 2 ^ 20) : ratioOf n ≤ Q128 :=
  ratioOf_antitone (Nat.zero_le n) hn

theorem roundToQ96_eq (h : 0 ≤ ratio) : roundToQ96 ratio = ⌈(ratio : ℚ) / Q32⌉ := by
  rw [← ediv_ite_eq_ceil ratio (by decide), roundToQ96, Int.tmod_eq_emod_of_nonneg h,
    Int.tdiv_eq_ediv_of_nonneg h]
  have hmod : 0 ≤ ratio % Q32 := Int.emod_nonneg ratio (by decide)
  exact if_congr ⟨ne_of_gt, fun hne => lt_of_le_of_ne hmod hne.symm⟩ rfl rfl

theorem roundToQ96_mono (ha : 0 ≤ a) (hab : a ≤ b) : roundToQ96 a ≤ roundToQ96 b := by
  rw [roundToQ96_eq ha, roundToQ96_eq (ha.trans hab)]
  have hQ : (0 : ℚ) ≤ Q32 := by norm_num [Q32]
  exact Int.ceil_mono (div_le_div_of_nonneg_right (Int.cast_le.mpr hab) hQ)

/-- The price before it is rounded. -/
def productAt (tick : ℤ) : BN :=
  if tick > 0 then MaxUint256.tdiv (ratioOf tick.natAbs) else ratioOf tick.natAbs

theorem productAt_of_nonpos (h : tick ≤ 0) : productAt tick = ratioOf tick.natAbs :=
  if_neg (not_lt.mpr h)

theorem productAt_of_pos (h : 0 < tick) : productAt tick = MaxUint256 / ratioOf tick.natAbs :=
  (if_pos h).trans (Int.tdiv_eq_ediv_of_nonneg (by decide))

theorem MaxUint256_div_anti (ha : 0 < a) (hab : a ≤ b) : MaxUint256 / b ≤ MaxUint256 / a := by
  have hb : 0 < b := lt_of_lt_of_le ha hab
  have hnonneg : 0 ≤ MaxUint256 / b := Int.ediv_nonneg (by decide) hb.le
  rw [Int.le_ediv_iff_mul_le ha]
  calc MaxUint256 / b * a ≤ MaxUint256 / b * b := mul_le_mul_of_nonneg_left hab hnonneg
    _ ≤ MaxUint256 := Int.ediv_mul_le MaxUint256 (ne_of_gt hb)

/-- One is the first tick with a quotient: the price goes up there, too. -/
theorem Q128_le_productAt (h : 0 < tick) (ht : tick < 2 ^ 20) : Q128 ≤ productAt tick := by
  have hone : Q128 ≤ MaxUint256 / ratioOf 1 := by decide +kernel
  have hle : ratioOf tick.natAbs ≤ ratioOf 1 := ratioOf_antitone (by omega) (by omega)
  rw [productAt_of_pos h]
  exact hone.trans (MaxUint256_div_anti (ratioOf_pos (by omega)) hle)

theorem productAt_mono (hs : -2 ^ 20 < s) (hst : s ≤ t) (ht : t < 2 ^ 20) :
    productAt s ≤ productAt t := by
  rcases le_or_gt s 0 with hs0 | hs0
  · rw [productAt_of_nonpos hs0]
    rcases le_or_gt t 0 with ht0 | ht0
    · rw [productAt_of_nonpos ht0]
      exact ratioOf_antitone (by omega) (by omega)
    · exact (ratioOf_le (by omega)).trans (Q128_le_productAt ht0 ht)
  · rw [productAt_of_pos hs0, productAt_of_pos (hs0.trans_le hst)]
    exact MaxUint256_div_anti (ratioOf_pos (by omega)) (ratioOf_antitone (by omega) (by omega))

theorem productAt_pos (hs : -2 ^ 20 < s) (hs' : s < 2 ^ 20) : 0 < productAt s := by
  rcases le_or_gt s 0 with hs0 | hs0
  · rw [productAt_of_nonpos hs0]
    exact ratioOf_pos (by omega)
  · exact lt_of_lt_of_le (by decide) (Q128_le_productAt hs0 hs')

/-- Prices go up with ticks, as far as the bits of the ticks have factors. -/
theorem getSqrtRatioAtTick_mono (hs : -2 ^ 20 < s) (hst : s ≤ t) (ht : t < 2 ^ 20) :
    getSqrtRatioAtTick s ≤ getSqrtRatioAtTick t := by
  rw [getSqrtRatioAtTick_eq, getSqrtRatioAtTick_eq]
  exact roundToQ96_mono (productAt_pos hs (lt_of_le_of_lt hst ht)).le (productAt_mono hs hst ht)

theorem getSqrtRatioAtTick_pos (hs : -2 ^ 20 < s) (hs' : s < 2 ^ 20) :
    0 < getSqrtRatioAtTick s := by
  have hpos : 0 < productAt s := productAt_pos hs hs'
  rw [getSqrtRatioAtTick_eq]
  change 0 < roundToQ96 (productAt s)
  rw [roundToQ96_eq hpos.le, Int.ceil_pos]
  exact div_pos (Int.cast_pos.mpr hpos) (by norm_num [Q32])

/-! ## Divisions that round up -/

theorem mulDivRoundingUp_eq (h : 0 ≤ a * b) (hd : 0 < d) :
    mulDivRoundingUp a b d = ⌈(a * b : ℚ) / d⌉ := by
  rw [mulDivRoundingUp, Int.tmod_eq_emod_of_nonneg h, Int.tdiv_eq_ediv_of_nonneg h]
  rw [ediv_ite_eq_ceil (a * b) hd, Int.cast_mul]

theorem sortRatios_of_le (h : A ≤ B) : sortRatios A B = (A, B) := if_neg (not_lt.mpr h)

theorem getAmount0Delta_eq (hA : 0 < A) (hAB : A ≤ B) (hL : 0 ≤ L) :
    getAmount0Delta A B L true = ⌈(L * 2 ^ 96 * (B - A) : ℚ) / (A * B)⌉ := by
  have hB : 0 < B := lt_of_lt_of_le hA hAB
  have hsub : 0 ≤ B - A := sub_nonneg.mpr hAB
  have hprod : 0 ≤ L * Q96 * (B - A) := mul_nonneg (mul_nonneg hL (by decide)) hsub
  have hB' : (0 : ℚ) < B := Int.cast_pos.mpr hB
  have hinner : 0 ≤ ⌈((L * Q96 : BN) * (B - A : BN) : ℚ) / B⌉ :=
    Int.ceil_nonneg (div_nonneg (by exact_mod_cast hprod) hB'.le)
  rw [getAmount0Delta, sortRatios_of_le hAB]
  simp only [if_true]
  rw [mulDivRoundingUp_eq hprod hB, mulDivRoundingUp_eq (by rwa [mul_one]) hA, Int.cast_one,
    mul_one, ceil_ceil_div _ hA, div_div, mul_comm (B : ℚ)]
  push_cast [Q96]
  rfl

theorem getAmount1Delta_eq (hAB : A ≤ B) (hL : 0 ≤ L) :
    getAmount1Delta A B L true = ⌈(L * (B - A) : ℚ) / 2 ^ 96⌉ := by
  have hprod : 0 ≤ L * (B - A) := mul_nonneg hL (sub_nonneg.mpr hAB)
  rw [getAmount1Delta, sortRatios_of_le hAB]
  simp only [if_true]
  rw [mulDivRoundingUp_eq hprod (by decide)]
  push_cast [Q96]
  rfl

/-! ## The law -/

/-- A position whose ticks are ticks of pools, at a price that lies at the current tick. -/
structure Consistent (args : PositionAmountsArgs) : Prop where
  tickLower : -887272 ≤ args.tickLower
  ticks : args.tickLower < args.tickUpper
  tickUpper : args.tickUpper ≤ 887272
  le_sqrtPrice : getSqrtRatioAtTick args.tickCurrent ≤ args.sqrtPrice
  sqrtPrice_le : args.sqrtPrice ≤ getSqrtRatioAtTick (args.tickCurrent + 1)

/-- The same position, at another tick and price. -/
def PositionAmountsArgs.movedTo (args : PositionAmountsArgs) (tickCurrent : ℤ) (sqrtPrice : BN) :
    PositionAmountsArgs :=
  { args with tickCurrent := tickCurrent, sqrtPrice := sqrtPrice }

/-- The twenty bits that have factors hold the tick and the next one. -/
def InBits (tickCurrent : ℤ) : Prop := -2 ^ 20 < tickCurrent ∧ tickCurrent + 1 < 2 ^ 20

/-- The price, clamped between the prices of the ticks. -/
def clampedPrice (args : PositionAmountsArgs) : BN :=
  max (getSqrtRatioAtTick args.tickLower)
    (min args.sqrtPrice (getSqrtRatioAtTick args.tickUpper))

/-- The first amount at a price below that of the upper tick. -/
def amount0At (liquidity price upper : BN) : BN :=
  ⌈(liquidity * 2 ^ 96 * (upper - price) : ℚ) / (price * upper)⌉

/-- The second amount at a price above that of the lower tick. -/
def amount1At (liquidity lower price : BN) : BN :=
  ⌈(liquidity * (price - lower) : ℚ) / 2 ^ 96⌉

/-- The amounts by the clamped price. The current tick is not among their arguments. -/
def clampedAmounts (args : PositionAmountsArgs) : NormalizedAmounts where
  amount0 := normalizeToString
    (amount0At args.liquidity (clampedPrice args) (getSqrtRatioAtTick args.tickUpper))
    args.token0Decimal
  amount1 := normalizeToString
    (amount1At args.liquidity (getSqrtRatioAtTick args.tickLower) (clampedPrice args))
    args.token1Decimal

/-- From the first amounts to the second ones, no more of the first token and no less of the
second. -/
def Exchanges : NormalizedAmounts → NormalizedAmounts → Prop
  | ⟨.finite amount0, .finite amount1⟩, ⟨.finite amount0', .finite amount1'⟩ =>
    amount0' ≤ amount0 ∧ amount1 ≤ amount1'
  | _, _ => False

theorem amount0At_anti (hL : 0 ≤ L) (hP : 0 < P) (hPP : P ≤ P') (hU : P' ≤ U) :
    amount0At L P' U ≤ amount0At L P U := by
  have hL' : (0 : ℚ) ≤ L := Int.cast_nonneg hL
  have hP' : (0 : ℚ) < P := Int.cast_pos.mpr hP
  have hPP' : (P : ℚ) ≤ P' := Int.cast_le.mpr hPP
  have hU' : (P' : ℚ) ≤ U := Int.cast_le.mpr hU
  have hUpos : (0 : ℚ) < U := hP'.trans_le (hPP'.trans hU')
  have hsub : (U - P' : ℚ) ≤ U - P := sub_le_sub_left hPP' _
  refine Int.ceil_mono (div_le_div₀ ?_ ?_ (mul_pos hP' hUpos) ?_)
  · exact mul_nonneg (by positivity) (sub_nonneg.mpr (hPP'.trans hU'))
  · exact mul_le_mul_of_nonneg_left hsub (by positivity)
  · exact mul_le_mul_of_nonneg_right hPP' hUpos.le

theorem amount1At_mono (hL : 0 ≤ L) (hPP : P ≤ P') : amount1At L A P ≤ amount1At L A P' := by
  have hL' : (0 : ℚ) ≤ L := Int.cast_nonneg hL
  have hsub : (P - A : ℚ) ≤ P' - A := sub_le_sub_right (Int.cast_le.mpr hPP) _
  have hprod : (L * (P - A) : ℚ) ≤ L * (P' - A) := mul_le_mul_of_nonneg_left hsub hL'
  exact Int.ceil_mono (div_le_div_of_nonneg_right hprod (by positivity))

theorem amount0At_self : amount0At L P P = 0 := by simp [amount0At]

theorem amount1At_self : amount1At L P P = 0 := by simp [amount1At]

theorem normalizeToString_eq (number : BN) (decimals : Nat) :
    normalizeToString number decimals = .finite (number / 10 ^ decimals) := by
  have hne : (10 : ℚ) ^ decimals ≠ 0 := pow_ne_zero decimals (by norm_num)
  change JsNumber.finite number / .finite ((10 : ℚ) ^ (decimals : ℤ)) = _
  rw [zpow_natCast, JsNumber.finite_div _ hne]

theorem normalizeToString_zero (decimals : Nat) : normalizeToString 0 decimals = 0 := by
  rw [normalizeToString_eq, Int.cast_zero, zero_div]
  rfl

theorem lower_le_clampedPrice (args : PositionAmountsArgs) :
    getSqrtRatioAtTick args.tickLower ≤ clampedPrice args := le_max_left _ _

section
variable {args : PositionAmountsArgs} (h : Consistent args)
include h

theorem Consistent.lower_le_upper :
    getSqrtRatioAtTick args.tickLower ≤ getSqrtRatioAtTick args.tickUpper :=
  getSqrtRatioAtTick_mono (by have := h.tickLower; omega) h.ticks.le
    (by have := h.tickUpper; omega)

theorem Consistent.lower_pos : 0 < getSqrtRatioAtTick args.tickLower := by
  obtain ⟨htickLower, hticks, htickUpper, -, -⟩ := h
  exact getSqrtRatioAtTick_pos (by omega) (by omega)

theorem Consistent.clampedPrice_le_upper : clampedPrice args ≤ getSqrtRatioAtTick args.tickUpper :=
  max_le h.lower_le_upper (min_le_right _ _)

/-- Below the position, the price is at most that of the lower tick. -/
theorem Consistent.clampedPrice_below (hbits : InBits args.tickCurrent)
    (hlt : args.tickCurrent < args.tickLower) :
    clampedPrice args = getSqrtRatioAtTick args.tickLower := by
  obtain ⟨htickLower, hticks, htickUpper, -, hle⟩ := h
  have hnext : getSqrtRatioAtTick (args.tickCurrent + 1) ≤ getSqrtRatioAtTick args.tickLower :=
    getSqrtRatioAtTick_mono (by have := hbits.1; omega) hlt (by omega)
  exact max_eq_left ((min_le_left _ _).trans (hle.trans hnext))

/-- In the position, the price is between those of the ticks. -/
theorem Consistent.clampedPrice_in (hbits : InBits args.tickCurrent)
    (hge : args.tickLower ≤ args.tickCurrent) (hlt : args.tickCurrent < args.tickUpper) :
    clampedPrice args = args.sqrtPrice := by
  obtain ⟨htickLower, hticks, htickUpper, hge', hle⟩ := h
  have hlower : getSqrtRatioAtTick args.tickLower ≤ getSqrtRatioAtTick args.tickCurrent :=
    getSqrtRatioAtTick_mono (by omega) hge (by have := hbits.2; omega)
  have hupper : getSqrtRatioAtTick (args.tickCurrent + 1) ≤ getSqrtRatioAtTick args.tickUpper :=
    getSqrtRatioAtTick_mono (by have := hbits.1; omega) hlt (by omega)
  rw [clampedPrice, min_eq_left (hle.trans hupper), max_eq_right (hlower.trans hge')]

/-- Above the position, the price is at least that of the upper tick. -/
theorem Consistent.clampedPrice_above (hbits : InBits args.tickCurrent)
    (hge : args.tickUpper ≤ args.tickCurrent) :
    clampedPrice args = getSqrtRatioAtTick args.tickUpper := by
  have hlower := h.lower_le_upper
  obtain ⟨htickLower, hticks, htickUpper, hge', -⟩ := h
  have hupper : getSqrtRatioAtTick args.tickUpper ≤ getSqrtRatioAtTick args.tickCurrent :=
    getSqrtRatioAtTick_mono (by omega) hge (by have := hbits.2; omega)
  rw [clampedPrice, min_eq_right (hupper.trans hge'), max_eq_right hlower]

/-- The branch chosen by the ticks gives the amounts of the price. -/
theorem Consistent.calculatePositionAmounts_eq (hbits : InBits args.tickCurrent)
    (hL : 0 ≤ args.liquidity) : calculatePositionAmounts args = clampedAmounts args := by
  have hpos := h.lower_pos
  have hlower := lower_le_clampedPrice args
  have hupper := h.clampedPrice_le_upper
  rw [calculatePositionAmounts, clampedAmounts]
  split
  · next hbelow =>
    rw [getAmount0Delta_eq hpos h.lower_le_upper hL, h.clampedPrice_below hbits hbelow,
      amount1At_self, normalizeToString_zero]
    rfl
  · next hbelow =>
    split
    · next habove =>
      rw [h.clampedPrice_in hbits (not_lt.mp hbelow) habove] at hlower hupper ⊢
      rw [getAmount0Delta_eq (hpos.trans_le hlower) hupper hL, getAmount1Delta_eq hlower hL]
      rfl
    · next habove =>
      rw [getAmount1Delta_eq h.lower_le_upper hL, h.clampedPrice_above hbits (not_lt.mp habove),
        amount0At_self, normalizeToString_zero]
      rfl

end

/-- At a higher price there is no more of the first token, and no less of the second. -/
theorem clampedAmounts_exchanges (h : Consistent args) (hL : 0 ≤ args.liquidity)
    (h' : Consistent (args.movedTo tickCurrent' sqrtPrice')) (hle : args.sqrtPrice ≤ sqrtPrice') :
    Exchanges (clampedAmounts args) (clampedAmounts (args.movedTo tickCurrent' sqrtPrice')) := by
  have hpos := h.lower_pos.trans_le (lower_le_clampedPrice args)
  have hclamped : clampedPrice args ≤
      clampedPrice (args.movedTo tickCurrent' sqrtPrice') :=
    max_le_max_left _ (min_le_min_right _ hle)
  simp only [clampedAmounts, normalizeToString_eq]
  constructor
  · have hanti := amount0At_anti hL hpos hclamped h'.clampedPrice_le_upper
    exact div_le_div_of_nonneg_right (Int.cast_le.mpr hanti) (by positivity)
  · have hmono := amount1At_mono (A := getSqrtRatioAtTick args.tickLower) hL hclamped
    exact div_le_div_of_nonneg_right (Int.cast_le.mpr hmono) (by positivity)

/-- The amounts of a position are those of its price, clamped between the prices of its ticks; the
tick decides nothing beyond. So they go one way with the price, also where a tick of the position is
crossed. -/
theorem calculatePositionAmounts_clamped (h : Consistent args) (hbits : InBits args.tickCurrent)
    (hL : 0 ≤ args.liquidity) :
    calculatePositionAmounts args = clampedAmounts args ∧
      ∀ tickCurrent' sqrtPrice', Consistent (args.movedTo tickCurrent' sqrtPrice') →
        InBits tickCurrent' → args.sqrtPrice ≤ sqrtPrice' →
          Exchanges (calculatePositionAmounts args)
            (calculatePositionAmounts (args.movedTo tickCurrent' sqrtPrice')) := by
  have heq := h.calculatePositionAmounts_eq hbits hL
  refine ⟨heq, fun tickCurrent' sqrtPrice' h' hbits' hle => ?_⟩
  rw [heq, h'.calculatePositionAmounts_eq hbits' hL]
  exact clampedAmounts_exchanges h hL h' hle

/-- A position around the price one. -/
def aroundOne : PositionAmountsArgs where
  tickCurrent := 0
  tickLower := -60
  tickUpper := 60
  liquidity := 10 ^ 18
  sqrtPrice := 2 ^ 96
  token0Decimal := 18
  token1Decimal := 6

theorem aroundOne_consistent : Consistent aroundOne :=
  ⟨by decide, by decide, by decide, by decide +kernel, by decide +kernel⟩

/-- Moving on to the upper tick. -/
theorem aroundOne_clamped : calculatePositionAmounts aroundOne = clampedAmounts aroundOne ∧
    Exchanges (calculatePositionAmounts aroundOne)
      (calculatePositionAmounts (aroundOne.movedTo 60 (getSqrtRatioAtTick 60))) := by
  have hmoved : Consistent (aroundOne.movedTo 60 (getSqrtRatioAtTick 60)) :=
    ⟨by decide, by decide, by decide, le_refl _, by decide +kernel⟩
  have hlaw :=
    calculatePositionAmounts_clamped aroundOne_consistent ⟨by decide, by decide⟩ (by decide)
  have hle : aroundOne.sqrtPrice ≤ getSqrtRatioAtTick 60 := by decide +kernel
  exact ⟨hlaw.1, hlaw.2 60 _ hmoved ⟨by decide, by decide⟩ hle⟩

end UniswapV3
end DefiBackend
