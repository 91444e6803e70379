import DefiBackend.Common.BigNumber
import DefiBackend.Common.JsMap
import DefiBackend.Theory.Fallible
import DefiBackend.Theory.WeightedMean

/-! # Prices from reserves

`processor.ts` of the prices job: the price of a token from the reserves of its pairs. Pairs count
that are sufficiently liquid, each by its share of the token's reserves; what is liquid and what the
other token of a pair is worth depends on the category of the token.

* `getTokenPrice_eq`: for a token whose pairs all have reserves, a price is the total of the shares
  of its liquid pairs, if they have what is read of the prices so far.
* `isMean_iff`: a price is the mean of what the liquid pairs imply, by their reserves, unless a
  stable coin has a liquid pair without any reserve of the other token. -/

namespace DefiBackend
namespace Jobs
namespace LambdaPrices
open Theory

/-! ## Data -/

structure Config where
  stableCoins : List String
  whiteListCoins : List String
  wrappedCoin : String
  liquidityLimit : JsNumber
  chainId : Nat
  currencyId : Nat

structure Token where
  tokenAddress : String
  pairPosition : Nat
  decimals : Option Nat

/-- A pair has two tokens. -/
structure Pair where
  address : String
  token0 : Token
  token1 : Token

structure AssetsApiDto where
  address : String
  chainId : Nat
  pairs : List Pair

structure UniswapPairReserves where
  reserve0 : Nat
  reserve1 : Nat
  blockTimestampLast : Nat

/-- `Object.values(assetPairsReserves)`. -/
def UniswapPairReserves.values (r : UniswapPairReserves) : List Nat :=
  [r.reserve0, r.reserve1, r.blockTimestampLast]

abbrev UniswapReservesData := JsMap String UniswapPairReserves

structure PriceDto where
  address : String
  price : JsNumber
  chainId : Nat
  currencyId : Nat

/-- A price that could not be found is stored as undefined. -/
abbrev PriceMap := JsMap String (Option PriceDto)

structure AssetPairReserveValue where
  baseAssetAddress : String
  baseAssetReserve : JsNumber
  assetReserve : JsNumber
  reserveUsd : JsNumber

inductive TokensCategories
  | stable | base | simple
  deriving DecidableEq

/-- What is read of `undefined`. -/
inductive Thrown
  | values | get | address | price
  deriving DecidableEq

/-! ## Reserves -/

def getCorrectTokenDecimals (decimals : Option Nat) : Nat := decimals.getD 18

def decimalsReserve (reserve : JsNumber) (decimals : Nat) : JsNumber :=
  if decimals = 0 then reserve else reserve / JsNumber.tenPow decimals

def getPairTokenReserve (token : Token) (reserves : List Nat) : JsNumber :=
  let reserve := match reserves[token.pairPosition]? with
    | some reserve => .finite reserve
    | none => .nan
  decimalsReserve reserve (getCorrectTokenDecimals token.decimals)

/-- `coinPriceMap?.get(address)`. -/
def lookup (coinPriceMap : Option PriceMap) (address : String) : Option PriceDto :=
  (coinPriceMap.bind (·.get address)).join

section
variable (config : Config)

def getBaseAssetPairReserveValue (baseAsset asset : Token) (reserves : List Nat)
    (baseTokesPriceMap : Option PriceMap) : Except Thrown (Option AssetPairReserveValue) :=
  let priceDto := lookup baseTokesPriceMap baseAsset.tokenAddress
  let reserveDecimals := getPairTokenReserve baseAsset reserves
  let reserveTokenUsd := match priceDto with
    | some priceDto => priceDto.price * reserveDecimals
    | none => reserveDecimals
  if config.liquidityLimit.le reserveTokenUsd then
    return some {
      baseAssetAddress := baseAsset.tokenAddress
      baseAssetReserve := reserveDecimals
      assetReserve := getPairTokenReserve asset reserves
      reserveUsd := reserveTokenUsd * 2 }
  else return none

def getStableAssetPairReserveValue (baseAsset asset : Token) (reserves : List Nat)
    (_ : Option PriceMap) : Except Thrown (Option AssetPairReserveValue) :=
  let reserveStableToken := getPairTokenReserve asset reserves
  if config.liquidityLimit.le reserveStableToken then
    return some {
      baseAssetAddress := baseAsset.tokenAddress
      baseAssetReserve := getPairTokenReserve baseAsset reserves
      assetReserve := reserveStableToken
      reserveUsd := reserveStableToken * 2 }
  else return none

def getAssetPairReserveValue (baseAsset asset : Token) (reserves : List Nat)
    (baseTokesPriceMap : Option PriceMap) : Except Thrown (Option AssetPairReserveValue) :=
  let baseAssetReserve := getPairTokenReserve baseAsset reserves
  match baseTokesPriceMap with
  | none => throw .get
  | some _ =>
    match lookup baseTokesPriceMap baseAsset.tokenAddress with
    | none => return none
    | some baseAssetPrice =>
      if baseAssetPrice.price.falsy then return none
      else
        let reserveTokenUsd := baseAssetReserve * baseAssetPrice.price
        if config.liquidityLimit.le reserveTokenUsd then
          return some {
            baseAssetAddress := baseAsset.tokenAddress
            baseAssetReserve
            assetReserve := getPairTokenReserve asset reserves
            reserveUsd := reserveTokenUsd * 2 }
        else return none

/-- The two tokens of a pair, that of the address last. -/
def pairTokens (pair : Pair) (assetAddress : String) : Token × Token :=
  if pair.token0.tokenAddress = assetAddress then (pair.token1, pair.token0)
  else (pair.token0, pair.token1)

def getPairBaseTokensReservesValue (pair : Pair) (assetPairsReserves : Option UniswapPairReserves)
    (assetAddress : String)
    (reserveFunction : Token → Token → List Nat → Option PriceMap →
      Except Thrown (Option AssetPairReserveValue))
    (coinPriceMap : Option PriceMap) : Except Thrown (Option AssetPairReserveValue) :=
  match assetPairsReserves with
  | none => throw .values
  | some assetPairsReserves =>
    let (baseAsset, asset) := pairTokens pair assetAddress
    reserveFunction baseAsset asset assetPairsReserves.values coinPriceMap

/-! ## Prices -/

/-- What is read of the price of the other token. -/
def priceOf : Option PriceDto → Except Thrown JsNumber
  | some baseTokenPrice => return baseTokenPrice.price
  | none => throw .price

def getStablePrice (value : AssetPairReserveValue) (totalLiquidityToken : JsNumber)
    (wrappedCoinPrice : Option PriceMap) : Except Thrown JsNumber := do
  let tokenWeight := value.assetReserve / totalLiquidityToken
  if wrappedCoinPrice.isNone then throw .get
  let baseTokenPrice ← priceOf (lookup wrappedCoinPrice value.baseAssetAddress)
  let tokenPairPrice := value.baseAssetReserve * baseTokenPrice / value.assetReserve
  let price := tokenWeight * tokenPairPrice
  return if price.falsy then 1 else price

def getPrice (value : AssetPairReserveValue) (totalLiquidityToken : JsNumber)
    (stableTokensPrice : Option PriceMap) : Except Thrown JsNumber := do
  let tokenWeight := value.assetReserve / totalLiquidityToken
  if stableTokensPrice.isNone then throw .get
  let baseTokenPrice ← priceOf (lookup stableTokensPrice value.baseAssetAddress)
  let tokenPairPrice := value.baseAssetReserve * baseTokenPrice / value.assetReserve
  return tokenWeight * tokenPairPrice

def getBasePrice (value : AssetPairReserveValue) (totalLiquidityToken : JsNumber)
    (coinPriceMap : Option PriceMap) : Except Thrown JsNumber := do
  let coinPrice := lookup coinPriceMap config.wrappedCoin
  let tokenWeight := value.assetReserve / totalLiquidityToken
  let tokenPairPrice ←
    if value.baseAssetAddress = config.wrappedCoin then do
      let price ← priceOf coinPrice
      pure (value.baseAssetReserve * price / value.assetReserve)
    else pure (value.baseAssetReserve / value.assetReserve)
  return tokenWeight * tokenPairPrice

def priceFunction : TokensCategories → AssetPairReserveValue → JsNumber → Option PriceMap →
    Except Thrown JsNumber
  | .stable => getStablePrice
  | .base => getBasePrice config
  | .simple => getPrice

def reserveFunction : TokensCategories → Token → Token → List Nat → Option PriceMap →
    Except Thrown (Option AssetPairReserveValue)
  | .stable => getStableAssetPairReserveValue config
  | .base => getBaseAssetPairReserveValue config
  | .simple => getAssetPairReserveValue config

/-- The callback of `getTokenPrice` for a pair: it adds to the liquidity and to the values. -/
def addPair (assetAddress : String) (tokenReserves : UniswapReservesData)
    (tokensCategory : TokensCategories) (coinPriceMap : Option PriceMap)
    (s : JsNumber × List AssetPairReserveValue) (pair : Pair) :
    Except Thrown (JsNumber × List AssetPairReserveValue) := do
  let (totalLiquidityToken, coinsReserveValues) := s
  let pairReservesResult ← getPairBaseTokensReservesValue pair (tokenReserves.get pair.address)
    assetAddress (reserveFunction config tokensCategory) coinPriceMap
  match pairReservesResult with
  | some result =>
    return (totalLiquidityToken + result.assetReserve, coinsReserveValues ++ [result])
  | none => return (totalLiquidityToken, coinsReserveValues)

def getTokenPrice (asset : Option AssetsApiDto) (tokenReserves : UniswapReservesData)
    (tokensCategory : TokensCategories) (coinPriceMap : Option PriceMap) :
    Except Thrown (Option PriceDto) :=
  match asset with
  | none => return none
  | some asset => do
    let (totalLiquidityToken, coinsReserveValues) ← asset.pairs.foldlM
      (addPair config asset.address tokenReserves tokensCategory coinPriceMap) (0, [])
    if coinsReserveValues.isEmpty then return none
    let price ← coinsReserveValues.foldlM
      (fun price value => do
        let share ← priceFunction config tokensCategory value totalLiquidityToken coinPriceMap
        return price + share)
      (0 : JsNumber)
    return some {
      address := asset.address
      price
      chainId := asset.chainId
      currencyId := config.currencyId }

end

/-! ## Liquid pairs -/

/-- A pair, as seen from one of its tokens. -/
structure Side where
  partner : String
  partnerReserve : JsNumber
  ownReserve : JsNumber
  deriving DecidableEq

def Side.ofTokens (baseAsset asset : Token) (reserves : List Nat) : Side :=
  ⟨baseAsset.tokenAddress, getPairTokenReserve baseAsset reserves,
    getPairTokenReserve asset reserves⟩

def side (assetAddress : String) (pair : Pair) (r : UniswapPairReserves) : Side :=
  .ofTokens (pairTokens pair assetAddress).1 (pairTokens pair assetAddress).2 r.values

/-- The pairs of an asset that have reserves. -/
def sides (tokenReserves : UniswapReservesData) (asset : AssetsApiDto) : List Side :=
  asset.pairs.filterMap fun pair => (tokenReserves.get pair.address).map (side asset.address pair)

/-- The prices that are known, by address. -/
abbrev Known := String → Option JsNumber

def known (coinPriceMap : Option PriceMap) : Known := fun address =>
  (lookup coinPriceMap address).map (·.price)

namespace Side
variable (config : Config) (prices : Known) (category : TokensCategories) (s : Side)

/-- Half of what a pair is worth, as the limit is compared with it. -/
def usd : JsNumber :=
  match category with
  | .stable => s.ownReserve
  | .base =>
    match prices s.partner with
    | some price => price * s.partnerReserve
    | none => s.partnerReserve
  | .simple =>
    match prices s.partner with
    | some price => if price.falsy then .nan else s.partnerReserve * price
    | none => .nan

def liquid : Bool := config.liquidityLimit.le (s.usd prices category)

/-- The price of the other token. -/
def partnerPrice : Option JsNumber :=
  match category with
  | .base => if s.partner = config.wrappedCoin then prices config.wrappedCoin else some 1
  | _ => prices s.partner

/-- What the other token's reserve is worth. -/
def worth : JsNumber := s.partnerReserve * (s.partnerPrice config prices category).getD .nan

/-- What a pair adds to the price. -/
def share (totalLiquidityToken : JsNumber) : JsNumber :=
  let share := s.ownReserve / totalLiquidityToken * (s.worth config prices category / s.ownReserve)
  if category = .stable ∧ share.falsy then 1 else share

def value : AssetPairReserveValue :=
  ⟨s.partner, s.partnerReserve, s.ownReserve, s.usd prices category * 2⟩

def valueIfLiquid : Option AssetPairReserveValue :=
  if s.liquid config prices category then some (s.value prices category) else none

end Side

section
variable (config : Config) (prices : Known) (category : TokensCategories)
variable (tokenReserves : UniswapReservesData) (asset : AssetsApiDto)

/-- The pairs that are sufficiently liquid. -/
def liquidSides : List Side :=
  (sides tokenReserves asset).filter (·.liquid config prices category)

/-- All the reserves of a token. -/
def liquidity : JsNumber :=
  .total ((liquidSides config prices category tokenReserves asset).map (·.ownReserve))

/-- What is read of reserves and prices is there. -/
structure Answerable : Prop where
  reserves : ∀ pair ∈ asset.pairs, (tokenReserves.get pair.address).isSome
  prices : ∀ s ∈ liquidSides config prices category tokenReserves asset,
    (s.partnerPrice config prices category).isSome

end

section
variable {config : Config} {prices : Known} {coinPriceMap : Option PriceMap}
variable {category : TokensCategories} {tokenReserves : UniswapReservesData} {asset : AssetsApiDto}

/-- The value of a pair, if it is liquid. -/
theorem reserveFunction_eq (hmap : category ≠ .base → coinPriceMap.isSome) (baseAsset asset : Token)
    (reserves : List Nat) :
    reserveFunction config category baseAsset asset reserves coinPriceMap =
      .ok ((Side.ofTokens baseAsset asset reserves).valueIfLiquid config (known coinPriceMap)
        category) := by
  cases category with
  | stable => exact (apply_ite Except.ok _ _ _).symm
  | base =>
    cases hlookup : lookup coinPriceMap baseAsset.tokenAddress with
    | none =>
      have husd : (Side.ofTokens baseAsset asset reserves).usd (known coinPriceMap) .base =
          getPairTokenReserve baseAsset reserves := by
        simp only [Side.usd, known, Side.ofTokens, hlookup, Option.map_none]
      simp only [reserveFunction, getBaseAssetPairReserveValue, hlookup]
      rw [Side.valueIfLiquid, Side.liquid, Side.value, husd]
      exact (apply_ite Except.ok _ _ _).symm
    | some priceDto =>
      have husd : (Side.ofTokens baseAsset asset reserves).usd (known coinPriceMap) .base =
          priceDto.price * getPairTokenReserve baseAsset reserves := by
        simp only [Side.usd, known, Side.ofTokens, hlookup, Option.map_some]
      simp only [reserveFunction, getBaseAssetPairReserveValue, hlookup]
      rw [Side.valueIfLiquid, Side.liquid, Side.value, husd]
      exact (apply_ite Except.ok _ _ _).symm
  | simple =>
    obtain ⟨map, rfl⟩ := Option.isSome_iff_exists.mp (hmap TokensCategories.noConfusion)
    cases hlookup : lookup (some map) baseAsset.tokenAddress with
    | none =>
      have husd : (Side.ofTokens baseAsset asset reserves).usd (known (some map)) .simple =
          .nan := by
        simp only [Side.usd, known, Side.ofTokens, hlookup, Option.map_none]
      simp only [reserveFunction, getAssetPairReserveValue, hlookup]
      rw [Side.valueIfLiquid, Side.liquid, husd, JsNumber.not_le_nan]
      rfl
    | some priceDto =>
      simp only [reserveFunction, getAssetPairReserveValue, hlookup]
      by_cases hfalsy : priceDto.price.falsy
      · have husd : (Side.ofTokens baseAsset asset reserves).usd (known (some map)) .simple =
            .nan := by
          simp only [Side.usd, known, Side.ofTokens, hlookup, Option.map_some, hfalsy, if_true]
        rw [if_pos hfalsy, Side.valueIfLiquid, Side.liquid, husd, JsNumber.not_le_nan]
        rfl
      · have husd : (Side.ofTokens baseAsset asset reserves).usd (known (some map)) .simple =
            getPairTokenReserve baseAsset reserves * priceDto.price := by
          simp only [Side.usd, known, Side.ofTokens, hlookup, Option.map_some, hfalsy,
            Bool.false_eq_true, if_false]
        rw [if_neg hfalsy, Side.valueIfLiquid, Side.liquid, Side.value, husd]
        exact (apply_ite Except.ok _ _ _).symm

theorem Side.share_eq (h : category ≠ .stable) (s : Side) (total : JsNumber) :
    s.share config prices category total =
      s.ownReserve / total * (s.worth config prices category / s.ownReserve) := by
  simp only [Side.share, h, false_and, if_false]

/-- The share of a pair of which the other token's price is known. -/
theorem priceFunction_eq (hmap : category ≠ .base → coinPriceMap.isSome) (s : Side)
    (total : JsNumber) :
    priceFunction config category (s.value (known coinPriceMap) category) total coinPriceMap =
      match s.partnerPrice config (known coinPriceMap) category with
      | some _ => .ok (s.share config (known coinPriceMap) category total)
      | none => throw .price := by
  cases category with
  | stable =>
    obtain ⟨map, rfl⟩ := Option.isSome_iff_exists.mp (hmap TokensCategories.noConfusion)
    have hpartner : s.partnerPrice config (known (some map)) .stable =
        (lookup (some map) s.partner).map (·.price) := rfl
    simp only [Side.share, Side.worth, hpartner, true_and]
    simp only [priceFunction, getStablePrice, Side.value]
    cases lookup (some map) s.partner with
    | none => rfl
    | some baseTokenPrice => rfl
  | base =>
    rw [Side.share_eq TokensCategories.noConfusion, Side.worth]
    simp only [Side.partnerPrice, priceFunction, getBasePrice, Side.value]
    by_cases hwrapped : s.partner = config.wrappedCoin
    · simp only [hwrapped, if_true, known]
      cases lookup coinPriceMap config.wrappedCoin with
      | none => rfl
      | some coinPrice => rfl
    · simp only [hwrapped, if_false, Option.getD_some, JsNumber.mul_one]
      rfl
  | simple =>
    obtain ⟨map, rfl⟩ := Option.isSome_iff_exists.mp (hmap TokensCategories.noConfusion)
    rw [Side.share_eq TokensCategories.noConfusion, Side.worth]
    simp only [Side.partnerPrice, priceFunction, getPrice, Side.value, known]
    cases lookup (some map) s.partner with
    | none => rfl
    | some baseTokenPrice => rfl

/-- The value of a pair that has reserves and is liquid. -/
def pairValue (config : Config) (prices : Known) (category : TokensCategories)
    (tokenReserves : UniswapReservesData) (assetAddress : String) (pair : Pair) :
    Option AssetPairReserveValue :=
  ((tokenReserves.get pair.address).map (side assetAddress pair)).bind
    (·.valueIfLiquid config prices category)

theorem addPair_eq (hmap : category ≠ .base → coinPriceMap.isSome) (assetAddress : String)
    (s : JsNumber × List AssetPairReserveValue) {pair : Pair} {r : UniswapPairReserves}
    (h : tokenReserves.get pair.address = some r) :
    addPair config assetAddress tokenReserves category coinPriceMap s pair =
      .ok (match pairValue config (known coinPriceMap) category tokenReserves assetAddress pair with
        | some result => (s.1 + result.assetReserve, s.2 ++ [result])
        | none => s) := by
  have hvalue : getPairBaseTokensReservesValue pair (tokenReserves.get pair.address) assetAddress
      (reserveFunction config category) coinPriceMap =
        .ok (pairValue config (known coinPriceMap) category tokenReserves assetAddress pair) := by
    rw [pairValue, h]
    exact reserveFunction_eq hmap _ _ _
  rw [addPair, hvalue, ok_bind]
  cases pairValue config (known coinPriceMap) category tokenReserves assetAddress pair with
  | none => rfl
  | some result => rfl

/-- The pairs are gone through exactly when all have reserves. -/
theorem succeeds_pairs (hmap : category ≠ .base → coinPriceMap.isSome) (assetAddress : String)
    {pairs : List Pair} {s : JsNumber × List AssetPairReserveValue} :
    Succeeds (pairs.foldlM (addPair config assetAddress tokenReserves category coinPriceMap) s) ↔
      ∀ pair ∈ pairs, (tokenReserves.get pair.address).isSome := by
  apply succeeds_foldlM
  intro s pair
  cases h : tokenReserves.get pair.address with
  | none =>
    rw [addPair, h]
    exact ⟨fun ⟨_, hs⟩ => (nomatch hs), fun hs => (nomatch hs)⟩
  | some r =>
    rw [addPair_eq hmap assetAddress s h]
    exact ⟨fun _ => rfl, fun _ => succeeds_ok⟩

/-- The liquidity and the values of the liquid pairs are added. -/
theorem foldlM_addPair (hmap : category ≠ .base → coinPriceMap.isSome) (assetAddress : String)
    {pairs : List Pair} (h : ∀ pair ∈ pairs, (tokenReserves.get pair.address).isSome)
    (s : JsNumber × List AssetPairReserveValue) :
    pairs.foldlM (addPair config assetAddress tokenReserves category coinPriceMap) s =
      .ok (s.1 + .total ((pairs.filterMap (pairValue config (known coinPriceMap) category
          tokenReserves assetAddress)).map (·.assetReserve)),
        s.2 ++ pairs.filterMap (pairValue config (known coinPriceMap) category tokenReserves
          assetAddress)) := by
  induction pairs generalizing s with
  | nil =>
    rw [List.filterMap_nil, List.append_nil]
    exact congrArg (fun t => Except.ok (t, s.2)) (JsNumber.add_zero s.1).symm
  | cons pair pairs ih =>
    obtain ⟨hpair, hpairs⟩ := List.forall_mem_cons.mp h
    obtain ⟨r, hr⟩ := Option.isSome_iff_exists.mp hpair
    rw [List.foldlM_cons, addPair_eq hmap assetAddress s hr, ok_bind, ih hpairs]
    cases hvalue :
        pairValue config (known coinPriceMap) category tokenReserves assetAddress pair with
    | none => rw [List.filterMap_cons_none hvalue]
    | some result =>
      rw [List.filterMap_cons_some hvalue, List.map_cons, JsNumber.total_cons, ← JsNumber.add_assoc,
        List.append_assoc, List.singleton_append]

/-- The values are those of the liquid pairs. -/
theorem filterMap_pairValue (config : Config) (prices : Known) (category : TokensCategories)
    (tokenReserves : UniswapReservesData) (asset : AssetsApiDto) :
    asset.pairs.filterMap (pairValue config prices category tokenReserves asset.address) =
      (liquidSides config prices category tokenReserves asset).map (·.value prices category) := by
  rw [liquidSides, sides, ← List.filterMap_eq_map, ← List.filterMap_eq_filter,
    List.filterMap_filterMap, List.filterMap_filterMap]
  apply List.filterMap_congr
  intro pair _
  rw [pairValue]
  cases tokenReserves.get pair.address with
  | none => rfl
  | some r =>
    simp only [Option.map_some, Option.bind_some, Side.valueIfLiquid, Option.guard]
    split <;> rfl

/-- The shares of liquid pairs are added. -/
theorem foldlM_share (hmap : category ≠ .base → coinPriceMap.isSome) (total : JsNumber)
    {l : List Side} (h : ∀ s ∈ l, (s.partnerPrice config (known coinPriceMap) category).isSome)
    (price : JsNumber) :
    (l.map (·.value (known coinPriceMap) category)).foldlM (m := Except Thrown)
        (fun price value => do
        let share ← priceFunction config category value total coinPriceMap
        return price + share) price =
      .ok (price + .total (l.map (·.share config (known coinPriceMap) category total))) := by
  induction l generalizing price with
  | nil => exact congrArg Except.ok (JsNumber.add_zero price).symm
  | cons s l ih =>
    obtain ⟨hs, hl⟩ := List.forall_mem_cons.mp h
    obtain ⟨p, hp⟩ := Option.isSome_iff_exists.mp hs
    rw [List.map_cons, List.foldlM_cons, priceFunction_eq hmap, hp, List.map_cons,
      JsNumber.total_cons, ← JsNumber.add_assoc]
    exact ih hl _

theorem succeeds_shares (hmap : category ≠ .base → coinPriceMap.isSome) (total price : JsNumber)
    {l : List Side} :
    Succeeds ((l.map (·.value (known coinPriceMap) category)).foldlM (fun price value => do
        let share ← priceFunction config category value total coinPriceMap
        return price + share) price) ↔
      ∀ s ∈ l, (s.partnerPrice config (known coinPriceMap) category).isSome := by
  rw [List.foldlM_map]
  apply succeeds_foldlM
  intro price s
  rw [priceFunction_eq hmap]
  cases s.partnerPrice config (known coinPriceMap) category with
  | none => exact ⟨fun ⟨_, hs⟩ => (nomatch hs), fun hs => (nomatch hs)⟩
  | some p => exact ⟨fun _ => rfl, fun _ => succeeds_ok⟩

/-- The price of a token: the total of the shares of its liquid pairs. -/
def priceFor (config : Config) (prices : Known) (category : TokensCategories)
    (tokenReserves : UniswapReservesData) (asset : AssetsApiDto) : Option PriceDto :=
  let l := liquidSides config prices category tokenReserves asset
  if l = [] then none
  else some {
    address := asset.address
    price := .total (l.map (·.share config prices category
      (liquidity config prices category tokenReserves asset)))
    chainId := asset.chainId
    currencyId := config.currencyId }

/-- What is left to do when all reserves are there. -/
theorem getTokenPrice_of_reserves (hmap : category ≠ .base → coinPriceMap.isSome)
    (h : ∀ pair ∈ asset.pairs, (tokenReserves.get pair.address).isSome) :
    getTokenPrice config (some asset) tokenReserves category coinPriceMap =
      if liquidSides config (known coinPriceMap) category tokenReserves asset = [] then .ok none
      else ((liquidSides config (known coinPriceMap) category tokenReserves asset).map
          (·.value (known coinPriceMap) category)).foldlM (fun price value => do
            let share ← priceFunction config category value
              (liquidity config (known coinPriceMap) category tokenReserves asset) coinPriceMap
            return price + share) 0 >>= fun price =>
        .ok (some {
          address := asset.address
          price
          chainId := asset.chainId
          currencyId := config.currencyId }) := by
  have hzero : ∀ a : JsNumber, 0 + a = a := JsNumber.zero_add
  rw [getTokenPrice, foldlM_addPair hmap asset.address h, ok_bind]
  simp only [filterMap_pairValue, List.map_map, hzero, List.nil_append, List.isEmpty_iff,
    List.map_eq_nil_iff]
  split
  · rfl
  · rfl

/-- A price is found when all reserves are there, and what is read of the prices so far. -/
theorem getTokenPrice_eq (hmap : category ≠ .base → coinPriceMap.isSome)
    (h : Answerable config (known coinPriceMap) category tokenReserves asset) :
    getTokenPrice config (some asset) tokenReserves category coinPriceMap =
      .ok (priceFor config (known coinPriceMap) category tokenReserves asset) := by
  have hzero : ∀ a : JsNumber, 0 + a = a := JsNumber.zero_add
  rw [getTokenPrice_of_reserves hmap h.reserves, foldlM_share hmap _ h.prices, priceFor]
  split
  · rfl
  · rw [ok_bind, hzero]

theorem succeeds_getTokenPrice (hmap : category ≠ .base → coinPriceMap.isSome) :
    Succeeds (getTokenPrice config (some asset) tokenReserves category coinPriceMap) ↔
      Answerable config (known coinPriceMap) category tokenReserves asset := by
  constructor
  · intro h
    have hreserves : ∀ pair ∈ asset.pairs, (tokenReserves.get pair.address).isSome := by
      obtain ⟨_, h⟩ := h
      obtain ⟨s, hs, -⟩ := bind_eq_ok.mp h
      exact (succeeds_pairs hmap asset.address).mp ⟨s, hs⟩
    refine ⟨hreserves, ?_⟩
    rw [getTokenPrice_of_reserves hmap hreserves] at h
    split at h
    · next hnil => rw [hnil]; exact List.forall_mem_nil _
    · obtain ⟨_, hprice, -⟩ := succeeds_bind.mp h
      exact (succeeds_shares hmap _ _).mp ⟨_, hprice⟩
  · intro h
    rw [getTokenPrice_eq hmap h]
    exact succeeds_ok

end

/-! ## Means -/

section
variable (config : Config) (category : TokensCategories) (tokenReserves : UniswapReservesData)
variable (asset : AssetsApiDto) (coinPriceMap : Option PriceMap)

/-- All pairs have reserves, those of the asset positive and those of the partners not negative; the
partners' prices are positive, and known for a stable coin. -/
structure Positive : Prop where
  reserves : ∀ pair ∈ asset.pairs, (tokenReserves.get pair.address).isSome
  own : ∀ s ∈ sides tokenReserves asset, ∃ q : ℚ, 0 < q ∧ s.ownReserve = .finite q
  partner : ∀ s ∈ sides tokenReserves asset, ∃ q : ℚ, 0 ≤ q ∧ s.partnerReserve = .finite q
  prices : ∀ s ∈ sides tokenReserves asset, ∀ price, known coinPriceMap s.partner = some price →
    ∃ q : ℚ, 0 < q ∧ price = .finite q
  priced : category = .stable →
    ∀ s ∈ sides tokenReserves asset, (known coinPriceMap s.partner).isSome

/-- A price is what the liquid pairs' reserves of the partners are worth, over their reserves of the
asset; and is between the prices that two of them imply. -/
def IsMean : Prop :=
  ∀ price,
    getTokenPrice config (some asset) tokenReserves category coinPriceMap = .ok (some price) →
    let prices := known coinPriceMap
    let l := liquidSides config prices category tokenReserves asset
    price.price = .total (l.map (·.worth config prices category)) / .total (l.map (·.ownReserve)) ∧
      (∃ s ∈ l, (s.worth config prices category / s.ownReserve).le price.price) ∧
      ∃ s ∈ l, price.price.le (s.worth config prices category / s.ownReserve)

end

section
variable {config : Config} {category : TokensCategories} {tokenReserves : UniswapReservesData}
variable {asset : AssetsApiDto} {coinPriceMap : Option PriceMap}

/-- A partner's price is positive. -/
theorem Positive.partnerPrice (H : Positive category tokenReserves asset coinPriceMap) {s : Side}
    (hs : s ∈ sides tokenReserves asset) {price : JsNumber}
    (hprice : s.partnerPrice config (known coinPriceMap) category = some price) :
    ∃ q : ℚ, 0 < q ∧ price = .finite q := by
  cases category with
  | stable => exact H.prices s hs price hprice
  | base =>
    by_cases hwrapped : s.partner = config.wrappedCoin
    · rw [Side.partnerPrice, if_pos hwrapped, ← hwrapped] at hprice
      exact H.prices s hs price hprice
    · rw [Side.partnerPrice, if_neg hwrapped] at hprice
      cases hprice
      exact ⟨1, one_pos, rfl⟩
  | simple => exact H.prices s hs price hprice

/-- Reserves and worth of a pair are numbers. -/
structure Side.Finite (config : Config) (prices : Known) (category : TokensCategories) (s : Side) :
    Prop where
  own : s.ownReserve = .finite s.ownReserve.toRat
  pos : 0 < s.ownReserve.toRat
  worth : s.worth config prices category = .finite (s.worth config prices category).toRat

structure Side.Good (config : Config) (prices : Known) (category : TokensCategories) (s : Side) :
    Prop extends s.Finite config prices category where
  zero : (s.worth config prices category).toRat = 0 ↔ s.partnerReserve = 0

theorem Positive.good (H : Positive category tokenReserves asset coinPriceMap) {s : Side}
    (hs : s ∈ sides tokenReserves asset)
    (hprice : (s.partnerPrice config (known coinPriceMap) category).isSome) :
    s.Good config (known coinPriceMap) category := by
  obtain ⟨own, hpos, hown⟩ := H.own s hs
  obtain ⟨partner, -, hpartner⟩ := H.partner s hs
  obtain ⟨price, hprice⟩ := Option.isSome_iff_exists.mp hprice
  obtain ⟨q, hq, rfl⟩ := H.partnerPrice hs hprice
  have hworth : s.worth config (known coinPriceMap) category = .finite (partner * q) := by
    rw [Side.worth, hprice, hpartner]
    rfl
  refine ⟨⟨by rw [hown]; rfl, by rw [hown]; exact hpos, by rw [hworth]; rfl⟩, ?_⟩
  rw [hworth, hpartner]
  constructor
  · intro h
    exact congrArg JsNumber.finite ((mul_eq_zero.mp h).resolve_right hq.ne')
  · intro h
    have hzero : partner = 0 := JsNumber.finite.inj h
    rw [hzero]
    exact zero_mul q

/-- What is added for a pair of a stable coin in place of nothing. -/
def Side.extra (category : TokensCategories) (s : Side) : ℚ :=
  if category = .stable ∧ s.partnerReserve = 0 then 1 else 0

theorem Side.Finite.weighted {prices : Known} {s : Side} (h : s.Finite config prices category)
    {total : ℚ} (htotal : total ≠ 0) :
    s.ownReserve / .finite total * (s.worth config prices category / s.ownReserve) =
      .finite (s.ownReserve.toRat / total *
        ((s.worth config prices category).toRat / s.ownReserve.toRat)) := by
  rw [h.own, h.worth, JsNumber.finite_div _ htotal]
  exact congrArg (JsNumber.finite (s.ownReserve.toRat / total) * ·)
    (JsNumber.finite_div _ h.pos.ne')

theorem Side.Good.share {prices : Known} {s : Side} (h : s.Good config prices category) {total : ℚ}
    (htotal : total ≠ 0) :
    s.share config prices category (.finite total) =
      .finite (s.ownReserve.toRat / total *
        ((s.worth config prices category).toRat / s.ownReserve.toRat) + s.extra category) := by
  have hfalsy : s.ownReserve.toRat / total *
      ((s.worth config prices category).toRat / s.ownReserve.toRat) = 0 ↔ s.partnerReserve = 0 := by
    rw [← h.zero, mul_eq_zero_iff_left (div_ne_zero h.pos.ne' htotal), div_eq_zero_iff,
      or_iff_left h.pos.ne']
  simp only [Side.share, h.toFinite.weighted htotal, JsNumber.falsy_finite, hfalsy, Side.extra]
  split
  · next hzero =>
    rw [hfalsy.mpr hzero.2, zero_add]
    rfl
  · rw [add_zero]

/-- The total of the shares: the mean, and what is added in place of nothing. -/
theorem total_share {prices : Known} {l : List Side} (hne : l ≠ [])
    (h : ∀ s ∈ l, s.Good config prices category) :
    JsNumber.total (l.map (·.share config prices category (.total (l.map (·.ownReserve))))) =
      .finite (mean (·.ownReserve.toRat) (fun s => (s.worth config prices category).toRat) l +
        (l.map (·.extra category)).sum) := by
  have hpos : 0 < (l.map fun s : Side => s.ownReserve.toRat).sum :=
    sum_weight_pos hne fun s hs => (h s hs).pos
  rw [JsNumber.total_finite fun s hs => (h s hs).own,
    JsNumber.total_finite fun s hs => (h s hs).share hpos.ne', List.sum_map_add]
  rw [sum_share_eq_mean fun s hs => (h s hs).pos.ne']

/-- Nothing is added exactly when no pair of a stable coin is without a partner's reserve. -/
theorem sum_extra_eq_zero {l : List Side} :
    (l.map (·.extra category)).sum = 0 ↔ category = .stable → ∀ s ∈ l, s.partnerReserve ≠ 0 := by
  constructor
  · intro h hstable s hs hzero
    have hnonneg : ∀ q ∈ l.map (·.extra category), 0 ≤ q := by
      intro q hq
      obtain ⟨s, -, rfl⟩ := List.mem_map.mp hq
      rw [Side.extra]
      split
      · exact zero_le_one
      · exact le_refl 0
    have hle := List.single_le_sum hnonneg _ (List.mem_map_of_mem hs)
    rw [h, Side.extra, if_pos ⟨hstable, hzero⟩] at hle
    exact absurd hle (not_le_of_gt one_pos)
  · intro h
    apply List.sum_eq_zero
    intro q hq
    obtain ⟨s, hs, rfl⟩ := List.mem_map.mp hq
    exact if_neg fun hzero => h hzero.1 s hs hzero.2

/-- The mean is finite. -/
theorem mean_finite {prices : Known} {l : List Side} (hne : l ≠ [])
    (h : ∀ s ∈ l, s.Finite config prices category) :
    JsNumber.total (l.map (·.worth config prices category)) / .total (l.map (·.ownReserve)) =
      .finite (mean (·.ownReserve.toRat) (fun s => (s.worth config prices category).toRat) l) := by
  have hpos : 0 < (l.map fun s : Side => s.ownReserve.toRat).sum :=
    sum_weight_pos hne fun s hs => (h s hs).pos
  rw [JsNumber.total_finite fun s hs => (h s hs).own,
    JsNumber.total_finite fun s hs => (h s hs).worth, JsNumber.finite_div _ hpos.ne', mean]

/-- The price that a pair implies is finite. -/
theorem Side.Finite.implied {prices : Known} {s : Side} (h : s.Finite config prices category) :
    s.worth config prices category / s.ownReserve =
      .finite ((s.worth config prices category).toRat / s.ownReserve.toRat) := by
  rw [h.own, h.worth]
  exact JsNumber.finite_div _ h.pos.ne'

theorem Positive.goods (H : Positive category tokenReserves asset coinPriceMap)
    (h : Answerable config (known coinPriceMap) category tokenReserves asset) :
    ∀ s ∈ liquidSides config (known coinPriceMap) category tokenReserves asset,
      s.Good config (known coinPriceMap) category := by
  intro s hs
  exact H.good (List.mem_of_mem_filter hs) (h.prices s hs)

/-- The prices that are read for a stable coin are there. -/
theorem Positive.answerable (H : Positive .stable tokenReserves asset coinPriceMap) :
    Answerable config (known coinPriceMap) .stable tokenReserves asset := by
  refine ⟨H.reserves, ?_⟩
  intro s hs
  exact H.priced rfl s (List.mem_of_mem_filter hs)

/-- A price that is the mean leaves out no pair. -/
theorem IsMean.partner_ne_zero (hmap : category ≠ .base → coinPriceMap.isSome)
    (H : Positive category tokenReserves asset coinPriceMap)
    (h : IsMean config category tokenReserves asset coinPriceMap) (hstable : category = .stable) :
    ∀ s ∈ liquidSides config (known coinPriceMap) category tokenReserves asset,
      s.partnerReserve ≠ 0 := by
  subst hstable
  have hanswer : Answerable config (known coinPriceMap) .stable tokenReserves asset :=
    H.answerable
  intro s hs
  have hne := List.ne_nil_of_mem hs
  have hprice := getTokenPrice_eq hmap hanswer
  simp only [priceFor, if_neg hne] at hprice
  have heq := (h _ hprice).1
  have hgoods := H.goods hanswer
  simp only [liquidity, total_share hne hgoods,
    mean_finite hne fun s hs => (hgoods s hs).toFinite] at heq
  have hextra := add_eq_left.mp (JsNumber.finite.inj heq)
  exact sum_extra_eq_zero.mp hextra rfl s hs

/-- A price is the mean exactly when no liquid pair of a stable coin is without any reserve of the
other token. -/
theorem isMean_iff (hmap : category ≠ .base → coinPriceMap.isSome)
    (H : Positive category tokenReserves asset coinPriceMap) :
    IsMean config category tokenReserves asset coinPriceMap ↔
      (category = .stable →
        ∀ s ∈ liquidSides config (known coinPriceMap) category tokenReserves asset,
          s.partnerReserve ≠ 0) := by
  constructor
  · exact IsMean.partner_ne_zero hmap H
  · intro h price hprice
    have hanswer := (succeeds_getTokenPrice hmap).mp ⟨_, hprice⟩
    have hgoods := H.goods hanswer
    rw [getTokenPrice_eq hmap hanswer] at hprice
    have hsome := Except.ok.inj hprice
    simp only [priceFor] at hsome
    split at hsome
    · cases hsome
    · next hne =>
      cases hsome
      simp only [liquidity, total_share hne hgoods,
        mean_finite hne fun s hs => (hgoods s hs).toFinite, sum_extra_eq_zero.mpr h, add_zero]
      refine ⟨trivial, ?_, ?_⟩
      · obtain ⟨s, hs, hle⟩ := exists_le_mean hne fun s hs => (hgoods s hs).pos
        refine ⟨s, hs, ?_⟩
        rw [(hgoods s hs).toFinite.implied]
        exact JsNumber.finite_le.mpr hle
      · obtain ⟨s, hs, hle⟩ := exists_mean_le hne fun s hs => (hgoods s hs).pos
        refine ⟨s, hs, ?_⟩
        rw [(hgoods s hs).toFinite.implied]
        exact JsNumber.finite_le.mpr hle

end

/-! ## A stable coin -/

def exampleConfig : Config where
  stableCoins := ["usd"]
  whiteListCoins := []
  wrappedCoin := "coin"
  liquidityLimit := 1000
  chainId := 1
  currencyId := 1

/-- A stable coin with one pair. -/
def stableCoin : AssetsApiDto where
  address := "usd"
  chainId := 1
  pairs := [⟨"pair", ⟨"coin", 0, some 0⟩, ⟨"usd", 1, some 0⟩⟩]

def coinPrices : PriceMap := [("coin", some ⟨"coin", 500, 1, 1⟩)]

/-- The reserves of its pair, of which those of the other token are given. -/
def pairReserves (reserve0 : Nat) : UniswapReservesData := [("pair", ⟨reserve0, 2000, 0⟩)]

theorem positive_stableCoin (reserve0 : Nat) :
    Positive .stable (pairReserves reserve0) stableCoin (some coinPrices) := by
  have hsides : ∀ s ∈ sides (pairReserves reserve0) stableCoin,
      s = ⟨"coin", .finite reserve0, .finite 2000⟩ := fun s hs => List.mem_singleton.mp hs
  refine ⟨?_, ?_, ?_, ?_, ?_⟩
  · intro pair hpair
    rw [List.mem_singleton.mp hpair]
    rfl
  · intro s hs
    exact ⟨2000, by norm_num, by rw [hsides s hs]⟩
  · intro s hs
    exact ⟨reserve0, Nat.cast_nonneg _, by rw [hsides s hs]⟩
  · intro s hs price hprice
    rw [hsides s hs] at hprice
    cases hprice
    exact ⟨500, by norm_num, rfl⟩
  · intro _ s hs
    rw [hsides s hs]
    rfl

/-- With reserves of both tokens, the price is the mean. -/
theorem bothReserves_isMean :
    IsMean exampleConfig .stable (pairReserves 4) stableCoin (some coinPrices) := by
  apply (isMean_iff (fun _ => rfl) (positive_stableCoin 4)).mpr
  intro _ s hs
  have hs' : s = ⟨"coin", .finite 4, .finite 2000⟩ :=
    List.mem_singleton.mp (List.mem_of_mem_filter hs)
  rw [hs']
  intro h
  exact four_ne_zero (JsNumber.finite.inj h)

/-- With reserves of the stable coin only, it is one instead. -/
theorem oneReserve_not_isMean :
    ¬ IsMean exampleConfig .stable (pairReserves 0) stableCoin (some coinPrices) := by
  intro h
  have hliquid : liquidSides exampleConfig (known (some coinPrices)) .stable (pairReserves 0)
      stableCoin = [⟨"coin", .finite 0, .finite 2000⟩] := by
    decide +kernel
  apply h.partner_ne_zero (fun _ => rfl) (positive_stableCoin 0) rfl
    ⟨"coin", .finite 0, .finite 2000⟩
  · rw [hliquid]
    exact List.mem_singleton_self _
  · rfl

end LambdaPrices
end Jobs
end DefiBackend
