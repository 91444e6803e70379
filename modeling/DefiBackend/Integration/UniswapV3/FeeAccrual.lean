import DefiBackend.Integration.UniswapV3.PositionMath

/-! # Fee accrual of a position

`calculateTokensOwed` subtracts the growth at the last collection as plain integers and then
takes an absolute value, where the growth itself is computed with `subIn256`. The share owed is
exact when the growth has not wrapped since the last collection, and only by accident otherwise
(`calculateTokensOwed_exact_iff`). -/

namespace DefiBackend
namespace UniswapV3
open Theory

/-- The arguments are in range: accumulators are residues modulo `2 ^ 256` and the liquidity is
a `uint128`. -/
structure TokensOwedArgs.Valid (args : TokensOwedArgs) : Prop where
  lower0 : InRange Q256 args.tickLower.feeGrowthOutside0X128
  lower1 : InRange Q256 args.tickLower.feeGrowthOutside1X128
  upper0 : InRange Q256 args.tickUpper.feeGrowthOutside0X128
  upper1 : InRange Q256 args.tickUpper.feeGrowthOutside1X128
  last0 : InRange Q256 args.feeGrowthInside0LastX128
  last1 : InRange Q256 args.feeGrowthInside1LastX128
  global0 : InRange Q256 args.feeGrowthGlobal0X128
  global1 : InRange Q256 args.feeGrowthGlobal1X128
  liquidity : InRange Q128 args.liquidity

/-- The fees owed since the last collection: the growth modulo `2 ^ 256`, shared by liquidity in
units of `2 ^ 128`. -/
def feesOwed (inside last liquidity : BN) : BN := (inside - last) % Q256 * liquidity / Q128

/-- The owed amounts are the accrual law of both tokens. -/
def AccrualExact (args : TokensOwedArgs) : Prop :=
  calculateTokensOwed args =
    { amount0 := feesOwed args.feeGrowthInside.feeGrowthInside0X128
        args.feeGrowthInside0LastX128 args.liquidity
      amount1 := feesOwed args.feeGrowthInside.feeGrowthInside1X128
        args.feeGrowthInside1LastX128 args.liquidity }

instance : DecidablePred AccrualExact := fun _ => inferInstanceAs (Decidable (_ = _))

/-- The growth inside the position's range, of the first token. -/
def TokensOwedArgs.growthInside0 (args : TokensOwedArgs) : BN :=
  growthInside args.tickCurrent args.tickLower.tick args.tickUpper.tick args.feeGrowthGlobal0X128
    args.tickLower.feeGrowthOutside0X128 args.tickUpper.feeGrowthOutside0X128

/-- The growth inside the position's range, of the second token. -/
def TokensOwedArgs.growthInside1 (args : TokensOwedArgs) : BN :=
  growthInside args.tickCurrent args.tickLower.tick args.tickUpper.tick args.feeGrowthGlobal1X128
    args.tickLower.feeGrowthOutside1X128 args.tickUpper.feeGrowthOutside1X128

theorem TokensOwedArgs.Valid.feeGrowthInside {args : TokensOwedArgs} (H : args.Valid) :
    args.feeGrowthInside = ⟨args.growthInside0, args.growthInside1⟩ := by
  simp only [TokensOwedArgs.feeGrowthInside, getTicksFeeGrowthInside, growthInside0, growthInside1,
    subIn256_below_above H.global0 H.lower0 H.upper0,
    subIn256_below_above H.global1 H.lower1 H.upper1]

/-- One token: the truncated share of the plain difference against the share of the wrapped
difference. -/
theorem natAbs_mulDiv_eq_feesOwed_iff {inside last liquidity : BN} (hi : InRange Q256 inside)
    (hl : InRange Q256 last) (hL : 0 ≤ liquidity) :
    ((mulDiv (inside - last) liquidity Q128).natAbs : BN) = feesOwed inside last liquidity ↔
      last ≤ inside ∨ liquidity = 0 ∨ last - inside = 2 ^ 255 := by
  have hQ : Q256 = Q128 * Q128 := by decide
  have hq : (0 : ℤ) < Q128 := by decide
  have heven : (2 : ℤ) ∣ Q128 := by decide
  rw [hQ] at hi hl
  have key := natAbs_tdiv_eq_emod_div_iff hq heven hi hl hL
  have hhalf : 2 * (last - inside) = Q128 * Q128 ↔ last - inside = 2 ^ 255 := by
    rw [show Q128 * Q128 = 2 * 2 ^ 255 by decide]
    exact mul_right_inj' two_ne_zero
  rw [hhalf] at key
  rw [← key, feesOwed, hQ]
  rfl

/-- The amounts owed follow the accrual law exactly when, for each token, the growth inside the
range has not wrapped since the last collection, or the position has no liquidity, or the growth
fell short of its last value by exactly `2 ^ 255`. -/
theorem calculateTokensOwed_exact_iff (args : TokensOwedArgs) (H : args.Valid) :
    AccrualExact args ↔
      (args.feeGrowthInside0LastX128 ≤ args.growthInside0 ∨ args.liquidity = 0 ∨
        args.feeGrowthInside0LastX128 - args.growthInside0 = 2 ^ 255) ∧
      (args.feeGrowthInside1LastX128 ≤ args.growthInside1 ∨ args.liquidity = 0 ∨
        args.feeGrowthInside1LastX128 - args.growthInside1 = 2 ^ 255) := by
  have hi0 : InRange Q256 args.growthInside0 := growthInside_inRange
  have hi1 : InRange Q256 args.growthInside1 := growthInside_inRange
  simp only [AccrualExact, calculateTokensOwed, H.feeGrowthInside, TokenAmounts.mk.injEq,
    natAbs_mulDiv_eq_feesOwed_iff hi0 H.last0 H.liquidity.1,
    natAbs_mulDiv_eq_feesOwed_iff hi1 H.last1 H.liquidity.1]

/-- A position of liquidity `2 ^ 128 - 1` around the current tick whose growth wrapped from
`2 ^ 256 - 1` to `1` in the first token. -/
def wrappedPosition : TokensOwedArgs where
  tickCurrent := 0
  tickLower := ⟨-60, 0, 0⟩
  tickUpper := ⟨60, 0, 0⟩
  feeGrowthInside0LastX128 := 2 ^ 256 - 1
  feeGrowthInside1LastX128 := 0
  feeGrowthGlobal0X128 := 1
  feeGrowthGlobal1X128 := 2 ^ 128
  liquidity := 2 ^ 128 - 1

theorem wrappedPosition_valid : wrappedPosition.Valid := by
  constructor <;> decide

/-- The wrapped position is owed one unit of the first token and is reported about `2 ^ 256`. -/
theorem calculateTokensOwed_wrapped :
    wrappedPosition.Valid ∧ wrappedPosition.growthInside0 < wrappedPosition.feeGrowthInside0LastX128 ∧
      ¬AccrualExact wrappedPosition :=
  ⟨wrappedPosition_valid, by decide, by decide⟩

theorem calculateTokensOwed_exact_iff_wrapped :
    AccrualExact { wrappedPosition with feeGrowthInside0LastX128 := 0 } ↔
      (0 ≤ wrappedPosition.growthInside0 ∨ wrappedPosition.liquidity = 0 ∨
        0 - wrappedPosition.growthInside0 = 2 ^ 255) ∧
      (0 ≤ wrappedPosition.growthInside1 ∨ wrappedPosition.liquidity = 0 ∨
        0 - wrappedPosition.growthInside1 = 2 ^ 255) :=
  calculateTokensOwed_exact_iff { wrappedPosition with feeGrowthInside0LastX128 := 0 }
    (by constructor <;> decide)

end UniswapV3
end DefiBackend
