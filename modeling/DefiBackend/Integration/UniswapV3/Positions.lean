import DefiBackend.Common.Address
import DefiBackend.Common.CallData
import DefiBackend.Common.JsMap
import DefiBackend.Integration.UniswapV3.PositionAmounts
import DefiBackend.Theory.Fallible

/-! # Positions of Uniswap V3

`apps/integration/src/modules/protocols/protocols/uniswapProtocolV3.ts`: the positions behind the
NFTs of a request are read from the chain in three rounds of labelled calls, and every NFT is
valued against the pool that the last round answered for it. Maps of labels keep of two calls with
one label the later one.

* A request is a map from users to the ids of their NFTs.
* The answers of the contracts of the chain are a parameter, and so are the assets and the prices.
* Texts of big numbers are the numbers they denote. -/

namespace DefiBackend
namespace UniswapV3

abbrev TokenId := Nat

/-! ## The contracts -/

/-- `positions(id)` of the position manager. -/
structure NftPosition where
  token0 : Address
  token1 : Address
  fee : Nat
  tickLower : ℤ
  tickUpper : ℤ
  liquidity : BN
  feeGrowthInside0LastX128 : BN
  feeGrowthInside1LastX128 : BN
  tokensOwed0 : BN
  tokensOwed1 : BN
  deriving DecidableEq

/-- `slot0()` of a pool. -/
structure Slot0 where
  sqrtPriceX96 : BN
  tick : ℤ
  deriving DecidableEq

/-- `ticks(tick)` of a pool. -/
structure TickInfo where
  feeGrowthOutside0X128 : BN
  feeGrowthOutside1X128 : BN
  deriving DecidableEq

/-- `positions(key)` of a pool. -/
structure PoolPosition where
  liquidity : BN
  feeGrowthInside0LastX128 : BN
  feeGrowthInside1LastX128 : BN
  tokensOwed0 : BN
  tokensOwed1 : BN
  deriving DecidableEq

/-- The answers of the contracts of a chain: of the position manager, the factory, the pools and
the tokens. -/
structure Contracts (κ : Type) where
  nonfungiblePositionManager : Address
  positions : TokenId → NftPosition
  getPool : Address → Address → Nat → Address
  feeGrowthGlobal0X128 : Address → BN
  feeGrowthGlobal1X128 : Address → BN
  ticks : Address → ℤ → TickInfo
  slot0 : Address → Slot0
  poolPositions : Address → κ → PoolPosition
  balanceOf : Address → Address → BN

/-- The hash of the manager's address and two ticks. -/
structure PositionKeys (κ : Type) where
  soliditySha3 : Address → ℤ → ℤ → κ
  ticks_inj : soliditySha3 a l u = soliditySha3 a l' u' → l = l' ∧ u = u'

/-- A call of a pool. -/
inductive PoolMethod (κ : Type)
  | feeGrowthGlobal0X128
  | feeGrowthGlobal1X128
  | ticks (tick : ℤ)
  | slot0
  | positions (key : κ)
  deriving DecidableEq

/-- A decoded answer of a pool. -/
inductive PoolAnswer
  | number (n : BN)
  | tick (info : TickInfo)
  | slot0 (slot : Slot0)
  | position (p : PoolPosition)

/-- The answer of a pool to a call. -/
def Contracts.pool (C : Contracts κ) (address : Address) : PoolMethod κ → PoolAnswer
  | .feeGrowthGlobal0X128 => .number (C.feeGrowthGlobal0X128 address)
  | .feeGrowthGlobal1X128 => .number (C.feeGrowthGlobal1X128 address)
  | .ticks tick => .tick (C.ticks address tick)
  | .slot0 => .slot0 (C.slot0 address)
  | .positions key => .position (C.poolPositions address key)

namespace PoolAnswer

def number? : PoolAnswer → Except String BN
  | number n => .ok n
  | _ => .error typeError

def tick? : PoolAnswer → Except String TickInfo
  | tick info => .ok info
  | _ => .error typeError

def slot0? : PoolAnswer → Except String Slot0
  | slot0 slot => .ok slot
  | _ => .error typeError

def position? : PoolAnswer → Except String PoolPosition
  | position p => .ok p
  | _ => .error typeError

end PoolAnswer

/-- `multicall.handleInBatches`: each label with the answer to its call. -/
def handleInBatches (answer : γ → δ) (calls : JsMap ι γ) : JsMap ι δ :=
  calls.map fun call => (call.1, answer call.2)

/-- `results.get(label).output.data`. -/
def output [DecidableEq ι] (results : JsMap ι δ) (label : ι) : Except String δ :=
  match results.get label with
  | some answer => .ok answer
  | none => .error typeError

/-! ## The records of a request -/

structure ITokenPosition (κ : Type) where
  token0 : Address
  token1 : Address
  pool : Address
  fee : Nat
  tickLower : ℤ
  tickUpper : ℤ
  feeGrowthInside0LastX128 : BN
  feeGrowthInside1LastX128 : BN
  liquidity : BN
  key : κ
  tokensOwed0 : BN
  tokensOwed1 : BN

structure IPool where
  address : Address
  token0 : Address
  token1 : Address
  feeGrowthGlobal0X128 : BN
  feeGrowthGlobal1X128 : BN
  sqrtPrice : BN
  tickCurrent : ℤ
  tickLower : UniswapV3Tick
  tickUpper : UniswapV3Tick
  liquidity : BN
  feeGrowthInside0LastX128 : BN
  feeGrowthInside1LastX128 : BN
  tokensOwed0 : BN
  tokensOwed1 : BN
  deriving DecidableEq

section
variable {κ : Type} [DecidableEq κ] (K : PositionKeys κ) (C : Contracts κ)

def computeKey (tickLower tickUpper : ℤ) : κ :=
  K.soliditySha3 C.nonfungiblePositionManager tickLower tickUpper

/-- The record of an NFT whose pool was answered. -/
def tokenPosition (position : NftPosition) (pool : Address) : ITokenPosition κ where
  token0 := lowerCase position.token0
  token1 := lowerCase position.token1
  fee := position.fee
  pool := lowerCase pool
  tickLower := position.tickLower
  tickUpper := position.tickUpper
  feeGrowthInside0LastX128 := position.feeGrowthInside0LastX128
  feeGrowthInside1LastX128 := position.feeGrowthInside1LastX128
  liquidity := position.liquidity
  key := computeKey K C position.tickLower position.tickUpper
  tokensOwed0 := position.tokensOwed0
  tokensOwed1 := position.tokensOwed1

/-- The records by id. The label of a pool is made of the two tokens. -/
def getTokenDetails (userTokens : JsMap Address (List TokenId)) :
    Except String (JsMap TokenId (ITokenPosition κ)) := do
  let ids := userTokens.values.flatten
  let positionResults := handleInBatches C.positions (.ofEntries (ids.map fun id => (id, id)))
  let poolCalls ← ids.mapM fun id => do
    let position ← output positionResults id
    let { token0, token1, fee, .. } := position
    return ((token0, token1), (token0, token1, fee))
  let poolResults :=
    handleInBatches (fun call => C.getPool call.1 call.2.1 call.2.2) (.ofEntries poolCalls)
  let results ← ids.mapM fun id => do
    let position ← output positionResults id
    let pool ← output poolResults (position.token0, position.token1)
    return (id, tokenPosition K C position pool)
  return .ofEntries results

/-- What a record asks of its pool. -/
def poolMethods (position : ITokenPosition κ) : List (PoolMethod κ) :=
  [.feeGrowthGlobal0X128, .feeGrowthGlobal1X128, .ticks position.tickLower,
    .ticks position.tickUpper, .slot0, .positions position.key]

/-- The calls for a record, labelled by its key. -/
def positionCalls (position : ITokenPosition κ) :
    List ((κ × PoolMethod κ) × (Address × PoolMethod κ)) :=
  (poolMethods position).map fun method => ((position.key, method), (position.pool, method))

/-- The pool of a record, from the answers under the labels of its key. -/
def poolDetails (positionResults : JsMap (κ × PoolMethod κ) PoolAnswer)
    (position : ITokenPosition κ) : Except String IPool := do
  let response ← output positionResults (position.key, .positions position.key)
  let slot0 ← output positionResults (position.key, .slot0)
  let tickLower ← output positionResults (position.key, .ticks position.tickLower)
  let tickUpper ← output positionResults (position.key, .ticks position.tickUpper)
  let feeGrowthGlobal0X128 ← output positionResults (position.key, .feeGrowthGlobal0X128)
  let feeGrowthGlobal1X128 ← output positionResults (position.key, .feeGrowthGlobal1X128)
  let feeGrowthGlobal0X128 ← feeGrowthGlobal0X128.number?
  let feeGrowthGlobal1X128 ← feeGrowthGlobal1X128.number?
  let slot0 ← slot0.slot0?
  let tickLower ← tickLower.tick?
  let tickUpper ← tickUpper.tick?
  let response ← response.position?
  return {
    address := position.pool
    token0 := position.token0
    token1 := position.token1
    feeGrowthGlobal0X128
    feeGrowthGlobal1X128
    sqrtPrice := slot0.sqrtPriceX96
    tickCurrent := slot0.tick
    tickLower := {
      tick := position.tickLower
      feeGrowthOutside0X128 := tickLower.feeGrowthOutside0X128
      feeGrowthOutside1X128 := tickLower.feeGrowthOutside1X128 }
    tickUpper := {
      tick := position.tickUpper
      feeGrowthOutside0X128 := tickUpper.feeGrowthOutside0X128
      feeGrowthOutside1X128 := tickUpper.feeGrowthOutside1X128 }
    liquidity := response.liquidity
    feeGrowthInside0LastX128 := response.feeGrowthInside0LastX128
    feeGrowthInside1LastX128 := response.feeGrowthInside1LastX128
    tokensOwed0 := response.tokensOwed0
    tokensOwed1 := response.tokensOwed1 }

/-- The pools by key. -/
def getPoolDetails (positions : JsMap TokenId (ITokenPosition κ)) :
    Except String (JsMap κ IPool) := do
  let positionResults := handleInBatches (fun call => C.pool call.1 call.2)
    (.ofEntries (positions.values.flatMap positionCalls))
  let results ← positions.values.mapM fun position => do
    let pool ← poolDetails positionResults position
    return (position.key, pool)
  return .ofEntries results

end

/-! ## Underlying assets -/

structure Asset where
  address : Address
  name : String
  symbol : String
  decimals : Nat
  deriving DecidableEq

/-- The answers of the asset and the price services. -/
structure AssetServices where
  getAssets : List Address → List Asset
  getTokenPricesFetch : List Address → JsMap Address JsNumber

/-- The assets, their prices and the reserves of the pools. -/
structure UnderlyingAssets where
  assets : JsMap Address Asset
  prices : JsMap Address JsNumber
  reserves : JsMap Address (JsMap Address BN)

section
variable {κ : Type} (C : Contracts κ)

/-- The balances of each pool, of both its tokens. -/
def fillReserves (reserves : JsMap Address (JsMap Address BN)) :
    JsMap Address (JsMap Address BN) :=
  reserves.map fun pool => (pool.1, pool.2.map fun token => (token.1, C.balanceOf token.1 pool.1))

def getUnderlyingAssets (S : AssetServices) (positions : JsMap TokenId (ITokenPosition κ)) :
    UnderlyingAssets :=
  let reserves : JsMap Address (JsMap Address BN) := .ofEntries <| positions.values.map
    fun position => (position.pool, .ofEntries [(position.token0, 0), (position.token1, 0)])
  let addresses :=
    unique (positions.values.flatMap fun position => [position.token0, position.token1])
  if addresses = [] then { assets := [], prices := [], reserves }
  else
    { assets := .ofEntries ((S.getAssets addresses).map fun token => (token.address, token))
      prices := .ofEntries (S.getTokenPricesFetch addresses)
      reserves := fillReserves C reserves }

end

/-! ## The valued positions -/

structure PoolTokenDto where
  address : Address
  name : String
  symbol : String
  decimals : Nat
  reserve : JsNumber
  value : JsNumber
  balance : JsNumber
  price : Option JsNumber
  positionInPool : Nat
  weight : JsNumber
  deriving DecidableEq

structure ClaimableTokenDto where
  address : Address
  name : String
  symbol : String
  decimals : Nat
  price : Option JsNumber
  balance : JsNumber
  value : JsNumber
  deriving DecidableEq

structure LpToken where
  address : Address
  decimals : Nat
  totalSupply : Nat
  deriving DecidableEq

structure LiquidityPoolFeature where
  address : Address
  lpToken : LpToken
  tokens : List PoolTokenDto
  rewards : List ClaimableTokenDto
  deriving DecidableEq

structure BaseDataLp where
  userAddress : Address
  items : List LiquidityPoolFeature
  deriving DecidableEq

namespace UnderlyingAssets
variable (U : UnderlyingAssets)

/-- `amount * prices.get(address)`, not a number without a price. -/
def valueOf (amount : JsNumber) (address : Address) : JsNumber :=
  amount * (U.prices.get address).getD .nan

/-- `normalizeDecimals(reserves.get(pool).get(asset).toString(), decimals)`. -/
def reserveOf (pool : Address) (asset : Asset) : Except String JsNumber :=
  match (U.reserves.get pool).bind (JsMap.get · asset.address) with
  | some reserve => .ok (JsNumber.normalizeDecimals (.finite reserve) asset.decimals)
  | none => .error typeError

/-- One of the two tokens of a position. -/
def poolToken (pool : Address) (asset : Asset) (amount : JsNumber) (positionInPool : Nat) :
    Except String PoolTokenDto := do
  let reserve ← U.reserveOf pool asset
  return {
    address := asset.address
    name := asset.name
    symbol := asset.symbol
    decimals := asset.decimals
    reserve
    value := U.valueOf amount asset.address
    balance := amount
    price := U.prices.get asset.address
    positionInPool
    weight := .finite (1 / 2) }

/-- The uncollected fees of one of the two tokens. -/
def rewardToken (asset : Asset) (rewardsAmount : BN) : ClaimableTokenDto :=
  let rewards := JsNumber.normalizeDecimals (.finite rewardsAmount) asset.decimals
  { address := asset.address
    name := asset.name
    symbol := asset.symbol
    decimals := asset.decimals
    price := U.prices.get asset.address
    balance := rewards
    value := U.valueOf rewards asset.address }

/-- The item of a position that is valued against a pool, none when its value is falsy. -/
def valueIn {κ : Type} (position : ITokenPosition κ) (pool : IPool)
    (token0Asset token1Asset : Asset) : Except String (Option LiquidityPoolFeature) := do
  let { amount0, amount1 } := calculatePositionAmounts {
    tickCurrent := pool.tickCurrent
    tickLower := position.tickLower
    tickUpper := position.tickUpper
    token0Decimal := token0Asset.decimals
    token1Decimal := token1Asset.decimals
    liquidity := position.liquidity
    sqrtPrice := pool.sqrtPrice }
  let rewards := calculateTokensOwed {
    tickCurrent := pool.tickCurrent
    tickLower := pool.tickLower
    tickUpper := pool.tickUpper
    feeGrowthInside0LastX128 := position.feeGrowthInside0LastX128
    feeGrowthInside1LastX128 := position.feeGrowthInside1LastX128
    feeGrowthGlobal0X128 := pool.feeGrowthGlobal0X128
    feeGrowthGlobal1X128 := pool.feeGrowthGlobal1X128
    liquidity := position.liquidity }
  let token0 ← U.poolToken pool.address token0Asset amount0 0
  let token1 ← U.poolToken pool.address token1Asset amount1 1
  let poolFeature : LiquidityPoolFeature := {
    address := pool.address
    -- an NFT has no token of its own
    lpToken := { address := pool.address, decimals := 0, totalSupply := 1 }
    tokens := [token0, token1]
    rewards := [U.rewardToken token0Asset rewards.amount0, U.rewardToken token1Asset rewards.amount1] }
  return if (token0.value + token1.value).falsy then none else some poolFeature

/-- The item of a position, none when an asset is missing or the pool has no liquidity in the
range. -/
def positionItem {κ : Type} (position : ITokenPosition κ) (pool : IPool) :
    Except String (Option LiquidityPoolFeature) :=
  match U.assets.get position.token0, U.assets.get position.token1 with
  | some token0Asset, some token1Asset =>
    if pool.liquidity = 0 then .ok none else U.valueIn position pool token0Asset token1Asset
  | _, _ => .ok none

end UnderlyingAssets

section
variable {κ : Type} [DecidableEq κ] (K : PositionKeys κ) (C : Contracts κ)

/-- The record of an NFT and the pool that it is valued against. -/
def positionAndPool (userPositions : JsMap TokenId (ITokenPosition κ)) (pools : JsMap κ IPool)
    (tokenId : TokenId) : Except String (ITokenPosition κ × IPool) := do
  let position ← output userPositions tokenId
  let pool ← output pools position.key
  return (position, pool)

def getUserPositions (S : AssetServices) (userTokens : JsMap Address (List TokenId)) :
    Except String (List BaseDataLp) := do
  let userPositions ← getTokenDetails K C userTokens
  let pools ← getPoolDetails C userPositions
  let underlying := getUnderlyingAssets C S userPositions
  userTokens.mapM fun user => do
    let items ← user.2.mapM fun tokenId => do
      let (position, pool) ← positionAndPool userPositions pools tokenId
      underlying.positionItem position pool
    return { userAddress := user.1, items := items.reduceOption }

/-- What the NFTs of a request are valued against. -/
def valuedAgainst (userTokens : JsMap Address (List TokenId)) (tokenId : TokenId) :
    Except String (ITokenPosition κ × IPool) := do
  let userPositions ← getTokenDetails K C userTokens
  let pools ← getPoolDetails C userPositions
  positionAndPool userPositions pools tokenId

end

end UniswapV3
end DefiBackend
