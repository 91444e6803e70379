import DefiBackend.Common.BigNumber
import DefiBackend.Common.Int32
import DefiBackend.Theory.Fallible

/-! # Pool tokens of subgraph positions

`Mapper.mapLiquidityPositions` makes a liquidity position of each position of a subgraph and prices
its two tokens. A pair of which both tokens have a price in coins is priced by the value of its
reserves. Any other pair is priced from one side: both tokens share the value of the reserve whose
token has such a price.

* `run_priced`: what a run has made of the position at a place;
* `balanced_of_twoSided`: the reserves of a pair priced by its value are worth the same;
* `balanced_iff`: those of a pair priced from one side are worth what the priced reserve is worth
  exactly if that is an integer of 32 bits: the two sides are combined with `|`, not with `||`. -/

namespace DefiBackend
namespace Integration
namespace Mapper

open JsNumber Theory

abbrev Address := String
abbrev ChainId := Nat

def ZERO_ADDRESS : Address := "0x0000000000000000000000000000000000000000"

/-! ## Subgraph positions

Decimal texts are given by the numbers they denote, and a missing one by `nan`. -/

structure IncomeToken where
  id : Address
  decimals : JsNumber
  name : String
  symbol : String
  derivedETH : JsNumber

structure IncomeLiquidityPositionPair where
  id : Address
  reserve0 : JsNumber
  reserve1 : JsNumber
  reserveUSD : JsNumber
  token0 : IncomeToken
  token1 : IncomeToken
  totalSupply : JsNumber

structure IncomeLiquidityPosition where
  liquidityTokenBalance : JsNumber
  pair : IncomeLiquidityPositionPair

/-- The property `token0` or `token1`. -/
def IncomeLiquidityPositionPair.token (pair : IncomeLiquidityPositionPair) : Fin 2 → IncomeToken
  | 0 => pair.token0
  | 1 => pair.token1

/-- The property `reserve0` or `reserve1`. -/
def IncomeLiquidityPositionPair.reserve (pair : IncomeLiquidityPositionPair) : Fin 2 → JsNumber
  | 0 => pair.reserve0
  | 1 => pair.reserve1

/-! ## Liquidity positions -/

structure PoolToken where
  address : Address
  decimals : JsNumber
  name : String
  symbol : String
  totalSupply : Option JsNumber
  reserve : JsNumber
  priceUSD : JsNumber
  percentage : JsNumber
  amount : JsNumber

structure LiquidityPool where
  address : Address
  name : Option String

structure ERC20Token where
  address : Address
  decimals : JsNumber
  name : Option String
  symbol : Option String
  totalSupply : JsNumber

structure LiquidityPosition where
  pool : LiquidityPool
  lpToken : ERC20Token
  lpTokenBalance : JsNumber
  project : String
  poolTokens : List PoolToken
  earnedFeeUSD : JsNumber
  exitedAt : Option JsNumber

/-- A feature of a user; its other properties are only passed on. -/
structure AutomaticMarketMaker where
  projectName : String
  liquidityPositions : List LiquidityPosition

/-! ## The mapper -/

def PERCENTAGE : JsNumber := 50

/-- The prices of tokens, `nan` where there is none, or the error of the request. -/
abbrev Answer := Except String (Address → JsNumber)

/-! `quotient a b` is `a.div(b)`: the code's is `dividedBy`, which keeps twenty decimal places, and
over exact decimals it is the plain quotient. -/

section
variable (quotient : JsNumber → JsNumber → JsNumber)

def priceInUSD (totalUSD amount : JsNumber) : JsNumber := quotient (quotient totalUSD 2) amount

def priceInUSDByDerived (halfUSD amount : JsNumber) : JsNumber := quotient halfUSD amount

/-- A token of the pool, whose amount is not known yet. -/
def createPoolToken (pair : IncomeLiquidityPositionPair) (order : Fin 2) (calculateByDerived : Bool)
    (halfReserveUSD : JsNumber) : PoolToken :=
  let token := pair.token order
  let reserve := pair.reserve order
  { address := token.id, decimals := token.decimals, name := token.name, symbol := token.symbol
    totalSupply := none, reserve
    priceUSD :=
      if calculateByDerived then priceInUSDByDerived quotient halfReserveUSD reserve
      else priceInUSD quotient pair.reserveUSD reserve
    percentage := PERCENTAGE, amount := nan }

def createPoolTokenPoolNumber (pair : IncomeLiquidityPositionPair) (order : Fin 2)
    (userPoolShare : JsNumber) (calculateByDerived : Bool) (priceETH : JsNumber) : PoolToken :=
  let poolToken := createPoolToken quotient pair order calculateByDerived priceETH
  { poolToken with amount := userPoolShare * poolToken.reserve }

/-- Whether a token of the pair has no price in coins. -/
def calculateByDerived (pair : IncomeLiquidityPositionPair) : Bool :=
  !(!pair.token0.derivedETH.falsy && !pair.token1.derivedETH.falsy)

/-- The values of the two reserves, combined. -/
def halfReserveUSD (pair : IncomeLiquidityPositionPair) (priceETH : JsNumber) : JsNumber :=
  bitOr (pair.reserve0 * pair.token0.derivedETH * priceETH)
    (pair.reserve1 * pair.token1.derivedETH * priceETH)

variable (getTokenPricesFetch : Nat → List Address → ChainId → Answer)

/-- The `call`-th request for prices is the one made here. -/
def mapFromProjectTokenToPoolToken (call : Nat) (pair : IncomeLiquidityPositionPair)
    (userPoolShare : JsNumber) : Except String (List PoolToken) := do
  let priceETH ← getTokenPricesFetch call [ZERO_ADDRESS] 1
  let half := halfReserveUSD pair (priceETH ZERO_ADDRESS)
  let poolToken0 :=
    createPoolTokenPoolNumber quotient pair 0 userPoolShare (calculateByDerived pair) half
  let poolToken1 :=
    createPoolTokenPoolNumber quotient pair 1 userPoolShare (calculateByDerived pair) half
  return [poolToken0, poolToken1]

/-- One pass of the loop. -/
def mapLiquidityPosition (amm : AutomaticMarketMaker) (item : IncomeLiquidityPosition × Nat) :
    Except String AutomaticMarketMaker := do
  let (subgraphPool, call) := item
  let pair := subgraphPool.pair
  let pool : LiquidityPool := { address := pair.id, name := none }
  let lpToken : ERC20Token :=
    { address := pair.id, decimals := 18, name := none, symbol := none
      totalSupply := pair.totalSupply }
  let userPoolShare := subgraphPool.liquidityTokenBalance / pair.totalSupply
  let poolTokens ←
    mapFromProjectTokenToPoolToken quotient getTokenPricesFetch call pair userPoolShare
  let project := if amm.projectName = "uniswap" then "UniswapV2" else amm.projectName
  let liquidityPosition : LiquidityPosition :=
    { pool, lpToken, lpTokenBalance := subgraphPool.liquidityTokenBalance, project, poolTokens
      earnedFeeUSD := 0, exitedAt := none }
  return { amm with liquidityPositions := amm.liquidityPositions ++ [liquidityPosition] }

def mapLiquidityPositions (amm : AutomaticMarketMaker)
    (subgraphPools : List IncomeLiquidityPosition) : Except String AutomaticMarketMaker :=
  subgraphPools.zipIdx.foldlM (mapLiquidityPosition quotient getTokenPricesFetch) amm

end

/-! ## Runs -/

section
variable {quotient : JsNumber → JsNumber → JsNumber}
  {getTokenPricesFetch : Nat → List Address → ChainId → Answer}

theorem mapFromProjectTokenToPoolToken_eq_ok
    (h : mapFromProjectTokenToPoolToken quotient getTokenPricesFetch call pair userPoolShare =
      .ok tokens) :
    ∃ prices, getTokenPricesFetch call [ZERO_ADDRESS] 1 = .ok prices ∧
      tokens = [
        createPoolTokenPoolNumber quotient pair 0 userPoolShare (calculateByDerived pair)
          (halfReserveUSD pair (prices ZERO_ADDRESS)),
        createPoolTokenPoolNumber quotient pair 1 userPoolShare (calculateByDerived pair)
          (halfReserveUSD pair (prices ZERO_ADDRESS))] := by
  rw [mapFromProjectTokenToPoolToken] at h
  obtain ⟨prices, hprices, h⟩ := bind_eq_ok.mp h
  exact ⟨prices, hprices, (Except.ok.inj h).symm⟩

/-- One pass pushes one position, made with the prices of its own request. -/
theorem mapLiquidityPosition_eq_ok
    (h : mapLiquidityPosition quotient getTokenPricesFetch amm item = .ok amm') :
    ∃ mapped, amm'.liquidityPositions = amm.liquidityPositions ++ [mapped] ∧
      mapFromProjectTokenToPoolToken quotient getTokenPricesFetch item.2 item.1.pair
        (item.1.liquidityTokenBalance / item.1.pair.totalSupply) = .ok mapped.poolTokens := by
  rw [mapLiquidityPosition] at h
  obtain ⟨tokens, htokens, h⟩ := bind_eq_ok.mp h
  cases h
  exact ⟨_, rfl, htokens⟩

/-- A run returns if all requests for prices do. -/
theorem succeeds_mapLiquidityPositions :
    Succeeds (mapLiquidityPositions quotient getTokenPricesFetch amm pools) ↔
      ∀ call < pools.length, Succeeds (getTokenPricesFetch call [ZERO_ADDRESS] 1) := by
  have hpass amm (item : IncomeLiquidityPosition × Nat) :
      Succeeds (mapLiquidityPosition quotient getTokenPricesFetch amm item) ↔
        Succeeds (getTokenPricesFetch item.2 [ZERO_ADDRESS] 1) := by
    apply (succeeds_bind_of_forall fun _ => succeeds_pure).trans
    exact succeeds_bind_of_forall fun _ => succeeds_pure
  rw [mapLiquidityPositions, succeeds_foldlM hpass]
  constructor
  · intro h call hcall
    exact h (pools[call], call) (List.mem_zipIdx_iff_getElem?.mpr (List.getElem?_eq_getElem hcall))
  · intro h item hitem
    exact h item.2 (List.getElem?_eq_some_iff.mp (List.mem_zipIdx_iff_getElem?.mp hitem)).1

/-- What a run has made of the position at a place. -/
theorem run_priced (h : mapLiquidityPositions quotient getTokenPricesFetch amm pools = .ok amm')
    (hi : pools[i]? = some position) :
    ∃ mapped userPoolShare prices,
      amm'.liquidityPositions[amm.liquidityPositions.length + i]? = some mapped ∧
      getTokenPricesFetch i [ZERO_ADDRESS] 1 = .ok prices ∧
      mapped.poolTokens = [
        createPoolTokenPoolNumber quotient position.pair 0 userPoolShare
          (calculateByDerived position.pair)
          (halfReserveUSD position.pair (prices ZERO_ADDRESS)),
        createPoolTokenPoolNumber quotient position.pair 1 userPoolShare
          (calculateByDerived position.pair)
          (halfReserveUSD position.pair (prices ZERO_ADDRESS))] := by
  have hi' : pools.zipIdx[i]? = some (position, i) := by
    rw [List.getElem?_zipIdx, hi, Option.map_some, Nat.zero_add]
  have hpush amm item amm'
      (h : mapLiquidityPosition quotient getTokenPricesFetch amm item = .ok amm') :=
    mapLiquidityPosition_eq_ok h
  obtain ⟨mapped, hget, hmapped⟩ := foldlM_pushes_getElem? hpush h hi'
  obtain ⟨prices, hprices, htokens⟩ := mapFromProjectTokenToPoolToken_eq_ok hmapped
  exact ⟨mapped, position.liquidityTokenBalance / position.pair.totalSupply, prices, hget, hprices,
    htokens⟩

/-! ## Balanced pools -/

/-- The decimals that the reserves of a pair denote. -/
structure PositiveReserves (pair : IncomeLiquidityPositionPair) (reserve : Fin 2 → ℚ) : Prop where
  eq_finite (order) : pair.reserve order = finite (reserve order)
  pos (order) : 0 < reserve order

/-- Only the token `k` of a pair has a price in coins. -/
structure OneSided (pair : IncomeLiquidityPositionPair) (k : Fin 2) (derivedETH : ℚ) : Prop where
  eq_finite : (pair.token k).derivedETH = finite derivedETH
  ne_zero : derivedETH ≠ 0
  other_falsy (order) : order ≠ k → (pair.token order).derivedETH.falsy

/-- Both tokens of a pool have a price in coins. -/
def TwoSided (pair : IncomeLiquidityPositionPair) : Prop :=
  ∀ order, ¬ (pair.token order).derivedETH.falsy

/-- At the prices of a position's tokens both reserves are worth `value`. -/
def Balanced (reserve : Fin 2 → ℚ) (value : ℚ) (position : LiquidityPosition) : Prop :=
  ∃ token0 token1, position.poolTokens = [token0, token1] ∧
    token0.priceUSD * finite (reserve 0) = finite value ∧
    token1.priceUSD * finite (reserve 1) = finite value

theorem balanced_iff_of_tokens (h : mapped.poolTokens = [token0, token1]) :
    Balanced reserve value mapped ↔ token0.priceUSD * finite (reserve 0) = finite value ∧
      token1.priceUSD * finite (reserve 1) = finite value := by
  constructor
  · rintro ⟨_, _, htokens, hbalanced⟩
    cases h.symm.trans htokens
    exact hbalanced
  · exact fun hbalanced => ⟨token0, token1, h, hbalanced⟩

/-- A value that is shared out over a reserve. -/
theorem finite_div_mul (value : ℚ) (h : 0 < reserve) :
    finite value / finite reserve * finite reserve = finite value := by
  rw [finite_div value h.ne']
  exact congrArg finite (div_mul_cancel₀ value h.ne')

/-- The same with the division of the code, if the quotient ends in time. -/
theorem dividedBy_mul (h : 0 < reserve)
    (hplaces : roundHalfUp 20 (value / reserve) = value / reserve) :
    (finite value).dividedBy (finite reserve) * finite reserve = finite value := by
  have hdiv := finite_div value h.ne'
  have hfixed : (finite (value / reserve)).toFixed 20 = finite (value / reserve) :=
    congrArg finite hplaces
  rw [dividedBy, hdiv, hfixed, ← hdiv, finite_div_mul value h]

theorem finite_div_two (value : ℚ) : finite value / 2 = finite (value / 2) := by
  have hdiv : finite value / 2 = finite (value / (2 : ℕ)) := rfl
  rw [hdiv, Nat.cast_ofNat]

theorem falsy_mul_mul (h : b.falsy) : (finite a * b * finite c).falsy := by
  rcases falsy_iff.mp h with rfl | rfl
  · rfl
  · refine falsy_iff.mpr (.inr ?_)
    exact congrArg finite (by rw [mul_zero, zero_mul])

theorem OneSided.calculateByDerived (h : OneSided pair k derivedETH) :
    calculateByDerived pair = true := by
  have hor : pair.token0.derivedETH.falsy ∨ pair.token1.derivedETH.falsy := by
    match k, h with
    | 0, h => exact .inr (h.other_falsy 1 (by decide))
    | 1, h => exact .inl (h.other_falsy 0 (by decide))
  rcases hor with hfalsy | hfalsy
  · simp [Mapper.calculateByDerived, hfalsy]
  · simp [Mapper.calculateByDerived, hfalsy]

theorem TwoSided.calculateByDerived (h : TwoSided pair) : calculateByDerived pair = false := by
  have h0 : pair.token0.derivedETH.falsy = false := Bool.not_eq_true _ ▸ h 0
  have h1 : pair.token1.derivedETH.falsy = false := Bool.not_eq_true _ ▸ h 1
  simp [Mapper.calculateByDerived, h0, h1]

/-- The combined value is that of the priced side exactly if it is an integer of 32 bits. -/
theorem halfReserveUSD_iff (h : OneSided pair k derivedETH) (hr : PositiveReserves pair reserve) :
    halfReserveUSD pair (finite priceETH) = finite (reserve k * derivedETH * priceETH) ↔
      IsInt32 (reserve k * derivedETH * priceETH) := by
  have h0 : pair.reserve0 = finite (reserve 0) := hr.eq_finite 0
  have h1 : pair.reserve1 = finite (reserve 1) := hr.eq_finite 1
  match k, h with
  | 0, h =>
    have hd : pair.token0.derivedETH = finite derivedETH := h.eq_finite
    rw [halfReserveUSD, h0, h1, hd]
    exact bitOr_left_iff (falsy_mul_mul (h.other_falsy 1 (by decide)))
  | 1, h =>
    have hd : pair.token1.derivedETH = finite derivedETH := h.eq_finite
    rw [halfReserveUSD, h0, h1, hd]
    exact bitOr_right_iff (falsy_mul_mul (h.other_falsy 0 (by decide)))

@[simp] theorem priceUSD_of_derived :
    (createPoolTokenPoolNumber quotient pair order userPoolShare true half).priceUSD =
      quotient half (pair.reserve order) := rfl

@[simp] theorem priceUSD_of_reserveUSD :
    (createPoolTokenPoolNumber quotient pair order userPoolShare false half).priceUSD =
      quotient (quotient pair.reserveUSD 2) (pair.reserve order) := rfl

/-- The reserves of a pair priced by its value are worth the same. -/
theorem balanced_of_twoSided
    (h : mapLiquidityPositions (· / ·) getTokenPricesFetch amm pools = .ok amm')
    (hi : pools[i]? = some position) (htwo : TwoSided position.pair)
    (hr : PositiveReserves position.pair reserve)
    (hvalue : position.pair.reserveUSD = finite reserveUSD) :
    ∃ mapped, amm'.liquidityPositions[amm.liquidityPositions.length + i]? = some mapped ∧
      Balanced reserve (reserveUSD / 2) mapped := by
  obtain ⟨mapped, userPoolShare, prices, hget, _, htokens⟩ := run_priced h hi
  refine ⟨mapped, hget, (balanced_iff_of_tokens htokens).mpr ?_⟩
  rw [htwo.calculateByDerived, priceUSD_of_reserveUSD, priceUSD_of_reserveUSD, hr.eq_finite 0,
    hr.eq_finite 1, hvalue, finite_div_two]
  exact ⟨finite_div_mul _ (hr.pos 0), finite_div_mul _ (hr.pos 1)⟩

/-- Both tokens of a pair that is priced from one side share the combined value out. -/
theorem run_oneSided (h : mapLiquidityPositions quotient getTokenPricesFetch amm pools = .ok amm')
    (hi : pools[i]? = some position) (hone : OneSided position.pair k derivedETH)
    (hr : PositiveReserves position.pair reserve)
    (hprices : getTokenPricesFetch i [ZERO_ADDRESS] 1 = .ok prices) :
    ∃ mapped half, halfReserveUSD position.pair (prices ZERO_ADDRESS) = finite half ∧
      amm'.liquidityPositions[amm.liquidityPositions.length + i]? = some mapped ∧
      ∀ value, Balanced reserve value mapped ↔
        quotient (finite half) (finite (reserve 0)) * finite (reserve 0) = finite value ∧
          quotient (finite half) (finite (reserve 1)) * finite (reserve 1) = finite value := by
  obtain ⟨mapped, userPoolShare, prices', hget, hprices', htokens⟩ := run_priced h hi
  cases hprices.symm.trans hprices'
  obtain ⟨half, hhalf⟩ : ∃ half, halfReserveUSD position.pair (prices ZERO_ADDRESS) = finite half :=
    ⟨_, rfl⟩
  refine ⟨mapped, half, hhalf, hget, fun value => ?_⟩
  rw [balanced_iff_of_tokens htokens, hhalf, hone.calculateByDerived, priceUSD_of_derived,
    priceUSD_of_derived, hr.eq_finite 0, hr.eq_finite 1]

/-- The reserves of a pair that is priced from one side are worth what the priced reserve is worth
exactly if that is an integer of 32 bits. -/
theorem balanced_iff
    (h : mapLiquidityPositions (· / ·) getTokenPricesFetch amm pools = .ok amm')
    (hi : pools[i]? = some position) (hone : OneSided position.pair k derivedETH)
    (hr : PositiveReserves position.pair reserve)
    (hprices : getTokenPricesFetch i [ZERO_ADDRESS] 1 = .ok prices)
    (hETH : prices ZERO_ADDRESS = finite priceETH) :
    ∃ mapped, amm'.liquidityPositions[amm.liquidityPositions.length + i]? = some mapped ∧
      (Balanced reserve (reserve k * derivedETH * priceETH) mapped ↔
        IsInt32 (reserve k * derivedETH * priceETH)) := by
  obtain ⟨mapped, half, hhalf, hget, hbalanced⟩ := run_oneSided h hi hone hr hprices
  refine ⟨mapped, hget, (hbalanced _).trans ?_⟩
  rw [finite_div_mul half (hr.pos 0), finite_div_mul half (hr.pos 1), and_self, ← hhalf, hETH,
    halfReserveUSD_iff hone hr]

/-- With the division of the code the quotients must also end after twenty decimal places. -/
theorem balanced_of_places
    (h : mapLiquidityPositions dividedBy getTokenPricesFetch amm pools = .ok amm')
    (hi : pools[i]? = some position) (hone : OneSided position.pair k derivedETH)
    (hr : PositiveReserves position.pair reserve)
    (hprices : getTokenPricesFetch i [ZERO_ADDRESS] 1 = .ok prices)
    (hETH : prices ZERO_ADDRESS = finite priceETH)
    (hint : IsInt32 (reserve k * derivedETH * priceETH))
    (hplaces : ∀ order, roundHalfUp 20 (reserve k * derivedETH * priceETH / reserve order) =
      reserve k * derivedETH * priceETH / reserve order) :
    ∃ mapped, amm'.liquidityPositions[amm.liquidityPositions.length + i]? = some mapped ∧
      Balanced reserve (reserve k * derivedETH * priceETH) mapped := by
  obtain ⟨mapped, half, hhalf, hget, hbalanced⟩ := run_oneSided h hi hone hr hprices
  rw [hETH, (halfReserveUSD_iff hone hr).mpr hint] at hhalf
  cases hhalf
  refine ⟨mapped, hget, (hbalanced _).mpr ⟨?_, ?_⟩⟩
  · exact dividedBy_mul (hr.pos 0) (hplaces 0)
  · exact dividedBy_mul (hr.pos 1) (hplaces 1)

end

/-! ## One side of a pair -/

/-- Two coins against a token without a price in coins. -/
def samplePair : IncomeLiquidityPositionPair where
  id := "0xpair"
  reserve0 := 2
  reserve1 := 1000
  reserveUSD := 0
  token0 := { id := "0xcoin", decimals := 18, name := "Coin", symbol := "C", derivedETH := 1 }
  token1 := { id := "0xnew", decimals := 18, name := "New", symbol := "N", derivedETH := 0 }
  totalSupply := 40

def samplePool : IncomeLiquidityPosition where
  liquidityTokenBalance := 10
  pair := samplePair

def sampleFeature : AutomaticMarketMaker where
  projectName := "uniswap"
  liquidityPositions := []

def sampleReserve : Fin 2 → ℚ
  | 0 => 2
  | 1 => 1000

/-- Every request gives one price for the coin. -/
def samplePrices (priceETH : ℚ) : Nat → List Address → ChainId → Answer := fun _ _ _ =>
  .ok fun address => if address = ZERO_ADDRESS then finite priceETH else nan

/-- A run over the one position. -/
def sampleRun (quotient : JsNumber → JsNumber → JsNumber) (priceETH : ℚ) :
    Except String AutomaticMarketMaker :=
  mapLiquidityPositions quotient (samplePrices priceETH) sampleFeature [samplePool]

theorem samplePair_oneSided : OneSided samplePair 0 1 where
  eq_finite := rfl
  ne_zero := one_ne_zero
  other_falsy
    | 0, h => absurd rfl h
    | 1, _ => rfl

theorem samplePair_reserves : PositiveReserves samplePair sampleReserve where
  eq_finite
    | 0 => rfl
    | 1 => rfl
  pos
    | 0 => by decide +kernel
    | 1 => by decide +kernel

/-- At a price of 1800 both reserves are worth 3600. -/
theorem samplePair_balanced : ∃ amm' mapped, sampleRun (· / ·) 1800 = .ok amm' ∧
    amm'.liquidityPositions[0]? = some mapped ∧
    Balanced sampleReserve (2 * 1 * 1800) mapped := by
  obtain ⟨amm', h⟩ : Succeeds (sampleRun (· / ·) 1800) :=
    succeeds_mapLiquidityPositions.mpr fun _ _ => succeeds_ok
  have hi : [samplePool][0]? = some samplePool := rfl
  obtain ⟨mapped, hget, hbalanced⟩ :=
    balanced_iff h hi samplePair_oneSided samplePair_reserves rfl (if_pos rfl)
  exact ⟨amm', mapped, h, hget, hbalanced.mpr (by decide +kernel)⟩

/-- At a price of 1800.25 the fraction of the value is lost, over exact decimals as with the
division of the code. -/
theorem samplePair_not_balanced :
    (∃ amm' mapped, sampleRun (· / ·) (7201 / 4) = .ok amm' ∧
      amm'.liquidityPositions[0]? = some mapped ∧
      ¬ Balanced sampleReserve (2 * 1 * (7201 / 4)) mapped) ∧
    ∃ amm' mapped, sampleRun dividedBy (7201 / 4) = .ok amm' ∧
      amm'.liquidityPositions[0]? = some mapped ∧
      ¬ Balanced sampleReserve (2 * 1 * (7201 / 4)) mapped := by
  refine ⟨⟨_, _, rfl, rfl, ?_⟩, ⟨_, _, rfl, rfl, ?_⟩⟩
  · rintro ⟨token0, token1, htokens, hvalue, _⟩
    cases htokens
    revert hvalue
    decide +kernel
  · rintro ⟨token0, token1, htokens, hvalue, _⟩
    cases htokens
    revert hvalue
    decide +kernel

end Mapper
end Integration
end DefiBackend
