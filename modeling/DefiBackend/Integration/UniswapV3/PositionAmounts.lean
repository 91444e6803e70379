import DefiBackend.Integration.UniswapV3.PositionMath
import DefiBackend.Common.BigNumber

/-! # Token amounts of a position

The functions of `uniswapV3PositionMath.ts` that give the amounts of the two tokens behind the
liquidity of a position. Prices are square roots in units of `2 ^ 96`. -/

namespace DefiBackend
namespace UniswapV3

def Q32 : BN := 2 ^ 32
def Q96 : BN := 2 ^ 96
def MaxUint256 : BN := 2 ^ 256 - 1

/-- `mulDiv`, one up when the division leaves a remainder. -/
def mulDivRoundingUp (a b denominator : BN) : BN :=
  let product := a * b
  let result := product.tdiv denominator
  if product.tmod denominator ≠ 0 then result + 1 else result

/-- The two ratios in ascending order. -/
def sortRatios (sqrtRatioAX96 sqrtRatioBX96 : BN) : BN × BN :=
  if sqrtRatioAX96 > sqrtRatioBX96 then (sqrtRatioBX96, sqrtRatioAX96)
  else (sqrtRatioAX96, sqrtRatioBX96)

/-- `liquidity.shln(96)` is for a liquidity that is not negative, as a `uint128` is: it throws at
others. -/
def getAmount0Delta (sqrtRatioAX96 sqrtRatioBX96 liquidity : BN) (roundUp : Bool) : BN :=
  let ratios := sortRatios sqrtRatioAX96 sqrtRatioBX96
  let numerator1 := liquidity * Q96
  let numerator2 := ratios.2 - ratios.1
  if roundUp then mulDivRoundingUp (mulDivRoundingUp numerator1 numerator2 ratios.2) 1 ratios.1
  else ((numerator1 * numerator2).tdiv ratios.2).tdiv ratios.1

def getAmount1Delta (sqrtRatioAX96 sqrtRatioBX96 liquidity : BN) (roundUp : Bool) : BN :=
  let ratios := sortRatios sqrtRatioAX96 sqrtRatioBX96
  if roundUp then mulDivRoundingUp liquidity (ratios.2 - ratios.1) Q96
  else (liquidity * (ratios.2 - ratios.1)).tdiv Q96

def mulShift (val mulBy : BN) : BN := val * mulBy / Q128

/-- The factors of `getSqrtRatioAtTick`, each under the bit of the tick that asks for it. -/
def tickFactors : List (Nat × BN) := [
  (0x2, 0xfff97272373d413259a46990580e213a),
  (0x4, 0xfff2e50f5f656932ef12357cf3c7fdcc),
  (0x8, 0xffe5caca7e10e4e61c3624eaa0941cd0),
  (0x10, 0xffcb9843d60f6159c9db58835c926644),
  (0x20, 0xff973b41fa98c081472e6896dfb254c0),
  (0x40, 0xff2ea16466c96a3843ec78b326b52861),
  (0x80, 0xfe5dee046a99a2a811c461f1969c3053),
  (0x100, 0xfcbe86c7900a88aedcffc83b479aa3a4),
  (0x200, 0xf987a7253ac413176f2b074cf7815e54),
  (0x400, 0xf3392b0822b70005940c7a398e4b70f3),
  (0x800, 0xe7159475a2c29b7443b29c7fa6e889d9),
  (0x1000, 0xd097f3bdfd2022b8845ad8f792aa5825),
  (0x2000, 0xa9f746462d870fdf8a65dc1f90e061e5),
  (0x4000, 0x70d869a156d2a1b890bb3df62baf32f7),
  (0x8000, 0x31be135f97d08fd981231505542fcfa6),
  (0x10000, 0x9aa508b5b7a84e1c677de54f3e99bc9),
  (0x20000, 0x5d6af8dedb81196699c329225ee604),
  (0x40000, 0x2216e584f5fa1ea926041bedfe98),
  (0x80000, 0x48a170391f7dc42444e8fa2)]

def getSqrtRatioAtTick (tick : ℤ) : BN :=
  let absTick := tick.natAbs
  let first : BN :=
    if absTick &&& 0x1 ≠ 0 then 0xfffcb933bd6fad37aa2d162d1a594001
    else 0x100000000000000000000000000000000
  let product := tickFactors.foldl
    (fun ratio factor => if absTick &&& factor.1 ≠ 0 then mulShift ratio factor.2 else ratio) first
  let ratio := if tick > 0 then MaxUint256.tdiv product else product
  -- back to units of `2 ^ 96`, upwards
  if ratio.tmod Q32 > 0 then ratio.tdiv Q32 + 1 else ratio.tdiv Q32

/-- `Number(normalizeToString(number, decimals))`. -/
def normalizeToString (number : BN) (decimals : Nat) : JsNumber :=
  .finite number / .tenPow decimals

/-- The argument record of `calculatePositionAmounts`. -/
structure PositionAmountsArgs where
  tickCurrent : ℤ
  tickLower : ℤ
  tickUpper : ℤ
  liquidity : BN
  sqrtPrice : BN
  token0Decimal : Nat
  token1Decimal : Nat
  deriving DecidableEq

/-- Normalised amounts of the two tokens. -/
structure NormalizedAmounts where
  amount0 : JsNumber
  amount1 : JsNumber
  deriving DecidableEq

def calculatePositionAmounts (args : PositionAmountsArgs) : NormalizedAmounts :=
  if args.tickCurrent < args.tickLower then
    -- all in the first token
    { amount0 := normalizeToString
        (getAmount0Delta (getSqrtRatioAtTick args.tickLower) (getSqrtRatioAtTick args.tickUpper)
          args.liquidity true) args.token0Decimal
      amount1 := 0 }
  else if args.tickCurrent < args.tickUpper then
    { amount0 := normalizeToString
        (getAmount0Delta args.sqrtPrice (getSqrtRatioAtTick args.tickUpper) args.liquidity true)
        args.token0Decimal
      amount1 := normalizeToString
        (getAmount1Delta (getSqrtRatioAtTick args.tickLower) args.sqrtPrice args.liquidity true)
        args.token1Decimal }
  else
    { amount0 := 0
      amount1 := normalizeToString
        (getAmount1Delta (getSqrtRatioAtTick args.tickLower) (getSqrtRatioAtTick args.tickUpper)
          args.liquidity true) args.token1Decimal }

end UniswapV3
end DefiBackend
