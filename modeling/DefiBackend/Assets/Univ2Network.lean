import DefiBackend.Common.BigNumber
import DefiBackend.Common.MulticallAggregator
import DefiBackend.Theory.Chunks
import DefiBackend.Theory.Places
import Mathlib.Data.List.Induction
import Mathlib.Tactic.FieldSimp
import Mathlib.Tactic.Linarith

/-! # Prices from the reserves of pairs

`Univ2NetworkStrategy.fetchPrices`: the prices of tokens from the reserves of the pairs that they
are in with a base token, as means that are weighted by what the pairs are worth.

* `foldl_weigh`: the fold over the pairs of an asset gives their weighted mean;
* `Surroundings.fetchPrices_found`: with prices for all rows of the query, the result has the means
  over the rows;
* `Market.rightPrices_iff`: when these are the means over the pairs. A row without a price makes
  the run throw, and a pair whose tokens are both tracked is in two rows. -/

namespace DefiBackend
namespace Assets
namespace Univ2Network
open MulticallAggregator Theory JsNumber

abbrev ChainId := Nat

structure AssetPair where
  address : Address
  token0 : Address
  token1 : Address
  deriving DecidableEq

structure AssetEntity where
  address : Address
  decimals : Nat

/-- The least cap is a positive number, as in all configurations. -/
structure Univ2NetworkPriceProviderConfig where
  chainId : ChainId
  factory : Address
  wrappedCoin : Address
  stableCoins : List Address
  proxyCoins : Option (List Address)
  minCap : Option ℚ
  minCap_pos : ∀ cap ∈ minCap, 0 < cap

structure PriceSource where
  sourceId : Nat
  config : Univ2NetworkPriceProviderConfig

structure AssetPrice where
  address : Address
  price : JsNumber
  chainId : ChainId
  sourceId : Nat
  deriving DecidableEq

def COIN_ADDRESS : Address := "0x0000000000000000000000000000000000000000"

/-! ## Asset bags -/

structure AssetBag where
  pricesMap : JsMap Address (Option ℚ)
  assetsMap : JsMap Address AssetEntity

namespace AssetBag
variable (bag : AssetBag)

def getAsset (address : Address) : Option AssetEntity := bag.assetsMap.get address

def hasAsset (address : Address) : Bool := (bag.getAsset address).isSome

def setAssets (assets : List AssetEntity) : AssetBag :=
  { bag with assetsMap := assets.foldl (fun m asset => m.set asset.address asset) bag.assetsMap }

def getPrice (address : Address) : Option ℚ := (bag.pricesMap.get address).join

def hasPrice (address : Address) : Bool := (bag.getPrice address).any (0 < ·)

def setPrice (address : Address) (price : Option ℚ) : AssetBag :=
  { bag with pricesMap := bag.pricesMap.set address price }

end AssetBag

/-! ## What is read from elsewhere -/

def getReservesAbi : AbiItem :=
  ⟨"getReserves", [], [⟨"_reserve0", "uint112"⟩, ⟨"_reserve1", "uint112"⟩,
    ⟨"_blockTimestampLast", "uint32"⟩]⟩

def getReservesCall (pair : AssetPair) : CallData := createCall pair.address getReservesAbi []

/-- The two reserves in a response. -/
def readReserves : Option OutputData → Except String (JsNumber × JsNumber)
  | some (.object fields) =>
    let reserve (name : String) := match fields.lookup name with
      | some (.bigNumber n) => n
      | _ => nan
    pure (reserve "_reserve0", reserve "_reserve1")
  | _ => throw typeError

/-- The checksums of addresses, the average prices in the cache, the assets in the database with
their decimals, and a chain with the reserves of all pairs. -/
structure Surroundings where
  formatAddress : Address → Address
  cachedPrice : Address → Option ℚ
  decimals : Address → Option Nat
  provider : Provider
  reserves : AssetPair → Nat × Nat
  call_getReserves : ∀ pair, ∃ data, provider.call (getReservesCall pair) = .ok data ∧
    readReserves data = .ok (finite (reserves pair).1, finite (reserves pair).2)

/-- A pair in the database, of the factory and of the category of these pairs, with what is known of
its tokens. -/
structure StoredPair where
  pair : AssetPair
  tracked0 : Bool
  tracked1 : Bool
  deriving DecidableEq

/-- The rows of the query, in some order: `UNION ALL` keeps repetitions. -/
def findUniV2LikePairsForTrackedAssets (stored : List StoredPair) : List AssetPair :=
  (stored.filter (·.tracked0)).map (·.pair) ++ (stored.filter (·.tracked1)).map (·.pair)

/-! ## The strategy -/

/-- `chunkRunAsync`, with lists as responses, for chunks of some size. -/
def chunkRunAsync {α β : Type} (array : List α) (chunkSize : Nat)
    (func : List α → Except String (List β)) : Except String (List β) := do
  let responses ← (chunks (chunkSize - 1) array).mapM func
  pure responses.flatten

structure PairPrice where
  cap : JsNumber
  asset : Address
  price : JsNumber

structure AssetStats where
  price : JsNumber
  cap : JsNumber

/-- The base asset of a pair with its reserve, and the target asset with its own. -/
def sides (baseAssets : List Address) (pair : AssetPair) (reserves : JsNumber × JsNumber) :
    Option ((Address × JsNumber) × (Address × JsNumber)) :=
  if pair.token0 ∈ baseAssets then some ((pair.token0, reserves.1), (pair.token1, reserves.2))
  else if pair.token1 ∈ baseAssets then
    some ((pair.token1, reserves.2), (pair.token0, reserves.1))
  else none

/-- The decimals of an asset in the bag. -/
def AssetBag.decimals (bag : AssetBag) (address : Address) : Except String Nat :=
  match bag.getAsset address with
  | some asset => pure asset.decimals
  | none => throw typeError

def calculatePrice (bag : AssetBag) (baseAssets : List Address) (pair : AssetPair)
    (response : Option OutputData) : Except String PairPrice := do
  let reserves ← readReserves response
  match sides baseAssets pair reserves with
  | none =>
    let text := JsValue.obj [("address", .str pair.address), ("token0", .str pair.token0),
      ("token1", .str pair.token1)]
    throw ("None asset in pair is in base assets, this is not possible. Pair " ++
      text.stringify.getD "")
  | some ((baseAsset, baseAssetReserve), (targetAsset, targetAssetReserve)) =>
    let baseAssetDecimals ← bag.decimals baseAsset
    let targetAssetDecimals ← bag.decimals targetAsset
    let oneAssetCap := ((bag.getPrice baseAsset).elim nan finite) *
      normalizeDecimals baseAssetReserve baseAssetDecimals
    return {
      cap := oneAssetCap * 2
      asset := targetAsset
      price := oneAssetCap / normalizeDecimals targetAssetReserve targetAssetDecimals }

/-- What a pair makes of what is known of its asset so far. -/
def weigh (stats : Option AssetStats) (p : PairPrice) : AssetStats :=
  match stats with
  | none => ⟨p.price, p.cap⟩
  | some prev =>
    let totalCap := prev.cap + p.cap
    ⟨prev.price * (prev.cap / totalCap) + p.price * (p.cap / totalCap), totalCap⟩

def assetStatsMap (pairPrices : List PairPrice) : JsMap Address AssetStats :=
  pairPrices.foldl (fun map p => map.set p.asset (weigh (map.get p.asset) p)) []

def calculateWeightedPrices (pairPrices : List PairPrice) : List (Address × JsNumber) :=
  (assetStatsMap pairPrices).map fun e => (e.1, e.2.price)

namespace Surroundings
variable (S : Surroundings)

def getBaseAssetsAddresses (config : Univ2NetworkPriceProviderConfig) : List Address :=
  ([config.wrappedCoin] ++ config.stableCoins ++ config.proxyCoins.getD []).map S.formatAddress

/-- Without a price, a stable coin has the price one. -/
def loadBaseAssetsPricesIntoBag (config : Univ2NetworkPriceProviderConfig) (bag : AssetBag) :
    AssetBag :=
  let bag := (S.getBaseAssetsAddresses config).foldl
    (fun bag address => bag.setPrice address (S.cachedPrice address)) bag
  (config.stableCoins.map S.formatAddress).foldl (fun bag address =>
    if (bag.getPrice address).all (· = 0) then bag.setPrice address (some 1) else bag) bag

def getBaseAssetWithPrices (bag : AssetBag) (config : Univ2NetworkPriceProviderConfig) :
    List Address :=
  (S.getBaseAssetsAddresses config).filter bag.hasPrice

def findManyByChainIdAndAddresses (addresses : List Address) : List AssetEntity :=
  addresses.filterMap fun address => (S.decimals address).map (⟨address, ·⟩)

def getAssetsInformation (baseAssets : List Address) (pairs : List AssetPair) : List AssetEntity :=
  let uniqueAssets := pairs.foldl
    (fun assets pair => addToSet (addToSet assets pair.token0) pair.token1) baseAssets
  S.findManyByChainIdAndAddresses uniqueAssets

/-- The bag of the base assets, and the base assets with a price. -/
def priceBag (config : Univ2NetworkPriceProviderConfig) : AssetBag :=
  S.loadBaseAssetsPricesIntoBag config ⟨[], []⟩

def baseAssets (config : Univ2NetworkPriceProviderConfig) : List Address :=
  S.getBaseAssetWithPrices (S.priceBag config) config

/-- The bag after the assets have been loaded. -/
def assetBag (config : Univ2NetworkPriceProviderConfig) (pairs : List AssetPair) : AssetBag :=
  (S.priceBag config).setAssets (S.getAssetsInformation (S.baseAssets config) pairs)

/-- `price?.cap >= minCap`. -/
def sufficient (config : Univ2NetworkPriceProviderConfig) (p : PairPrice) : Bool :=
  (finite (config.minCap.getD 2000)).le p.cap

/-- The prices of the pairs: responses are found by the places of the pairs. -/
def pairPrices (config : Univ2NetworkPriceProviderConfig) (pairs : List AssetPair) :
    Except String (List PairPrice) := do
  let bag := S.assetBag config pairs
  let calls := (pairs.filter fun pair => bag.hasAsset pair.token0 && bag.hasAsset pair.token1).map
    getReservesCall
  let responses ← chunkRunAsync calls 1000 S.provider.callArray
  pairs.zipIdx.mapM fun (pair, index) =>
    calculatePrice bag (S.baseAssets config) pair (responses[index]?).join

def fetchPrices (source : PriceSource) (pairs : List AssetPair) :
    Except String (List AssetPrice) := do
  let config := source.config
  if S.baseAssets config = [] then return []
  if pairs = [] then return []
  let pairPrices ← S.pairPrices config pairs
  let assetPrices := calculateWeightedPrices (pairPrices.filter (sufficient config))
  let wrappedCoinPrice := assetPrices.find? fun e =>
    lowerCase e.1 = lowerCase config.wrappedCoin && !e.2.falsy
  let assetPrices := assetPrices ++ (wrappedCoinPrice.map fun e => (COIN_ADDRESS, e.2)).toList
  return assetPrices.map fun e => ⟨e.1, e.2, config.chainId, source.sourceId⟩

end Surroundings

/-! ## Weighted means -/

/-- `sum(price * cap) / sum(cap)`. -/
def meanPrice (l : List PairPrice) : JsNumber :=
  total (l.map fun p => p.price * p.cap) / total (l.map (·.cap))

/-- A number, or more than all numbers. -/
def Upper (a : JsNumber) : Prop := a = infinity false ∨ ∃ q, a = finite q

/-- A pair that is worth something. -/
structure PairPrice.Good (p : PairPrice) : Prop where
  cap : ∃ c, 0 < c ∧ p.cap = finite c
  price : Upper p.price

theorem meanPrice_perm {l l' : List PairPrice} (h : l.Perm l') : meanPrice l = meanPrice l' := by
  rw [meanPrice, meanPrice, total_perm (h.map _), total_perm (h.map _)]

theorem infinity_mul {c : ℚ} (hc : 0 < c) : infinity false * finite c = infinity false := by
  show mulInfinity false c = _
  rw [mulInfinity, if_neg hc.ne', decide_eq_false hc.not_gt]
  rfl

theorem infinity_div {c : ℚ} (hc : 0 < c) : infinity false / finite c = infinity false := by
  show infinity (false != decide (c < 0)) = _
  rw [decide_eq_false hc.not_gt]
  rfl

theorem Upper.add_mul {a b : JsNumber} {c : ℚ} (ha : Upper a) (hb : Upper b) (hc : 0 < c) :
    Upper (a + b * finite c) := by
  rcases hb with rfl | ⟨q, rfl⟩
  · rw [infinity_mul hc]
    rcases ha with rfl | ⟨r, rfl⟩
    · exact .inl rfl
    · exact .inl rfl
  · rcases ha with rfl | ⟨r, rfl⟩
    · exact .inl rfl
    · exact .inr ⟨r + q * c, rfl⟩

/-- The mean of what is known and of one pair more. -/
theorem mean_step {V price : JsNumber} {C c : ℚ} (hV : Upper V) (hprice : Upper price) (hC : 0 < C)
    (hc : 0 < c) :
    V / finite C * (finite C / (finite C + finite c)) + price * (finite c / (finite C + finite c)) =
      (V + price * finite c) / (finite C + finite c) := by
  have hsum : 0 < C + c := add_pos hC hc
  have hadd : finite C + finite c = finite (C + c) := rfl
  rw [hadd, finite_div C hsum.ne', finite_div c hsum.ne']
  rcases hV with rfl | ⟨v, rfl⟩
  · rw [infinity_div hC, infinity_mul (div_pos hC hsum)]
    rcases hprice with rfl | ⟨q, rfl⟩
    · rw [infinity_mul (div_pos hc hsum), infinity_mul hc]
      exact (infinity_div hsum).symm
    · exact (infinity_div hsum).symm
  · rw [finite_div v hC.ne']
    rcases hprice with rfl | ⟨q, rfl⟩
    · rw [infinity_mul (div_pos hc hsum), infinity_mul hc]
      exact (infinity_div hsum).symm
    · have hmean : v / C * (C / (C + c)) + q * (c / (C + c)) = (v + q * c) / (C + c) := by
        field_simp
      have hvalue : finite v + finite q * finite c = finite (v + q * c) := rfl
      rw [hvalue, finite_div _ hsum.ne', ← hmean]
      rfl

/-- What the sums of good pairs are. -/
theorem total_good {l : List PairPrice} (hl : ∀ p ∈ l, p.Good) :
    Upper (total (l.map fun p => p.price * p.cap)) ∧
      ∃ C, total (l.map (·.cap)) = finite C ∧ 0 ≤ C ∧ (l ≠ [] → 0 < C) := by
  induction l using List.reverseRecOn with
  | nil => exact ⟨.inr ⟨0, rfl⟩, 0, rfl, le_refl _, fun h => absurd rfl h⟩
  | append_singleton l p ih =>
    obtain ⟨hV, C, hC, hC0, -⟩ := ih fun p hp => hl p (List.mem_append_left _ hp)
    obtain ⟨⟨c, hc, hcap⟩, hprice⟩ := hl p (by simp)
    rw [List.map_append, List.map_append, List.map_singleton, List.map_singleton, total_concat,
      total_concat, hC, hcap]
    exact ⟨hV.add_mul hprice hc, C + c, rfl, by linarith, fun _ => by linarith⟩

/-- The fold over the pairs of an asset gives their weighted mean. -/
theorem foldl_weigh {l : List PairPrice} (hl : ∀ p ∈ l, p.Good) (hne : l ≠ []) :
    l.foldl (fun s p => some (weigh s p)) none =
      some ⟨meanPrice l, total (l.map (·.cap))⟩ := by
  induction l using List.reverseRecOn with
  | nil => exact absurd rfl hne
  | append_singleton l p ih =>
    obtain ⟨⟨c, hc, hcap⟩, hprice⟩ := hl p (by simp)
    have hl' : ∀ p ∈ l, p.Good := fun p hp => hl p (List.mem_append_left _ hp)
    rw [List.foldl_append, List.foldl_cons, List.foldl_nil, meanPrice, List.map_append,
      List.map_append, List.map_singleton, List.map_singleton, total_concat, total_concat, hcap]
    rcases eq_or_ne l [] with rfl | hne'
    · have hzero : total ([] : List JsNumber) = finite 0 := rfl
      have hmean : p.price * finite c / finite c = p.price := by
        rcases hprice with h | ⟨q, h⟩
        · rw [h, infinity_mul hc, infinity_div hc]
        · have hmul : finite q * finite c = finite (q * c) := rfl
          rw [h, hmul, finite_div _ hc.ne', mul_div_cancel_right₀ q hc.ne']
      rw [List.foldl_nil, weigh, List.map_nil, List.map_nil, hzero, JsNumber.zero_add,
        JsNumber.zero_add, hmean, ← hcap]
    · obtain ⟨hV, C, hC, -, hpos⟩ := total_good hl'
      rw [ih hl' hne', weigh, meanPrice, hC, hcap, mean_step hV hprice (hpos hne') hc]

theorem total_eq_infinity {l : List PairPrice} (hl : ∀ p ∈ l, p.Good) :
    total (l.map fun p => p.price * p.cap) = infinity false ↔
      ∃ p ∈ l, p.price = infinity false := by
  induction l using List.reverseRecOn with
  | nil => simp [total, show (0 : JsNumber) = finite 0 from rfl]
  | append_singleton l p ih =>
    have hl' : ∀ p ∈ l, p.Good := fun p hp => hl p (List.mem_append_left _ hp)
    obtain ⟨⟨c, hc, hcap⟩, hprice⟩ := hl p (by simp)
    have hsplit : (∃ q ∈ l ++ [p], q.price = infinity false) ↔
        (∃ q ∈ l, q.price = infinity false) ∨ p.price = infinity false := by
      simp only [List.mem_append, List.mem_singleton, or_and_right, exists_or, exists_eq_left]
    rw [hsplit, ← ih hl', List.map_append, List.map_singleton, total_concat, hcap]
    rcases hprice with h | ⟨q, h⟩
    · rw [h, infinity_mul hc]
      refine iff_of_true ?_ (.inr rfl)
      rcases (total_good hl').1 with hV | ⟨v, hV⟩ <;> rw [hV] <;> rfl
    · have hmul : finite q * finite c = finite (q * c) := rfl
      rw [h, hmul]
      rcases (total_good hl').1 with hV | ⟨v, hV⟩
      · rw [hV]
        exact iff_of_true rfl (.inl rfl)
      · have hadd : finite v + finite (q * c) = finite (v + q * c) := rfl
        rw [hV, hadd]
        simp

/-- Pairs that count twice leave the mean as it is if they have the same mean. -/
theorem meanPrice_append_eq_iff {U B : List PairPrice} (hU : ∀ p ∈ U, p.Good)
    (hsubset : ∀ p ∈ B, p ∈ U) (hne : B ≠ []) : meanPrice (U ++ B) = meanPrice U ↔
      (∃ p ∈ U, p.price = infinity false) ∨ meanPrice B = meanPrice U := by
  have hB : ∀ p ∈ B, p.Good := fun p hp => hU p (hsubset p hp)
  have hneU : U ≠ [] := by
    rintro rfl
    obtain ⟨p, hp⟩ := List.exists_mem_of_ne_nil B hne
    exact absurd (hsubset p hp) List.not_mem_nil
  obtain ⟨hVU, C, hC, -, hCpos⟩ := total_good hU
  obtain ⟨hVB, D, hD, -, hDpos⟩ := total_good hB
  have hCpos := hCpos hneU
  have hDpos := hDpos hne
  have hadd : finite C + finite D = finite (C + D) := rfl
  rw [meanPrice, meanPrice, meanPrice, List.map_append, List.map_append, total_append,
    total_append, hC, hD, hadd, ← total_eq_infinity hU]
  rcases hVU with hV | ⟨u, hV⟩
  · rw [hV]
    refine iff_of_true ?_ (.inl rfl)
    rw [infinity_div hCpos]
    rcases hVB with hV' | ⟨b, hV'⟩ <;> rw [hV'] <;> exact infinity_div (add_pos hCpos hDpos)
  · have hfinite : total (B.map fun p => p.price * p.cap) ≠ infinity false := by
      intro h
      obtain ⟨p, hp, hprice⟩ := (total_eq_infinity hB).mp h
      have hinfinity := (total_eq_infinity hU).mpr ⟨p, hsubset p hp, hprice⟩
      rw [hV] at hinfinity
      cases hinfinity
    obtain ⟨b, hb⟩ := hVB.resolve_left hfinite
    have hvalue : finite u + finite b = finite (u + b) := rfl
    rw [hV, hb, hvalue, finite_div _ (add_pos hCpos hDpos).ne', finite_div _ hCpos.ne',
      finite_div _ hDpos.ne', finite.injEq, finite.injEq,
      div_eq_div_iff (add_pos hCpos hDpos).ne' hCpos.ne', div_eq_div_iff hDpos.ne' hCpos.ne']
    constructor
    · intro h
      exact .inr (by linarith)
    · rintro (h | h)
      · cases h
      · linarith

/-! ## The price of one pair -/

namespace Surroundings
variable (S : Surroundings) (config : Univ2NetworkPriceProviderConfig)

/-- Both tokens are in the database. -/
def known (pair : AssetPair) : Bool :=
  (S.decimals pair.token0).isSome && (S.decimals pair.token1).isSome

/-- A token is a base asset with a price. -/
def based (pair : AssetPair) : Prop :=
  pair.token0 ∈ S.baseAssets config ∨ pair.token1 ∈ S.baseAssets config

/-- What is computed of a pair and its own reserves. -/
def ownPrice (pair : AssetPair) : Except String PairPrice := do
  let data ← S.provider.call (getReservesCall pair)
  calculatePrice (S.assetBag config [pair]) (S.baseAssets config) pair data

variable {S config} {pairs : List AssetPair} {pair : AssetPair}

theorem mem_uniqueAssets (hpair : pair ∈ pairs) (assets : List Address) :
    pair.token0 ∈ pairs.foldl (fun assets pair =>
      addToSet (addToSet assets pair.token0) pair.token1) assets ∧
    pair.token1 ∈ pairs.foldl (fun assets pair =>
      addToSet (addToSet assets pair.token0) pair.token1) assets := by
  have hfold : pairs.foldl (fun assets pair =>
      addToSet (addToSet assets pair.token0) pair.token1) assets =
        (pairs.flatMap fun pair => [pair.token0, pair.token1]).foldl addToSet assets := by
    rw [List.foldl_flatMap]
    rfl
  rw [hfold, mem_foldl_addToSet, mem_foldl_addToSet]
  exact ⟨.inr (List.mem_flatMap.mpr ⟨pair, hpair, by simp⟩),
    .inr (List.mem_flatMap.mpr ⟨pair, hpair, by simp⟩)⟩

theorem getAsset_setAssets (bag : AssetBag) (hbag : bag.assetsMap = []) {addresses : List Address}
    {a : Address} (ha : a ∈ addresses) :
    (bag.setAssets (S.findManyByChainIdAndAddresses addresses)).getAsset a =
      (S.decimals a).map (⟨a, ·⟩) := by
  have hget : (bag.setAssets (S.findManyByChainIdAndAddresses addresses)).getAsset a =
      JsMap.lastWith (·.address) (S.findManyByChainIdAndAddresses addresses) a := by
    rw [← JsMap.get_ofEntries_self, AssetBag.getAsset, AssetBag.setAssets, hbag, JsMap.ofEntries,
      List.foldl_map]
  rw [hget]
  cases hd : S.decimals a with
  | none =>
    cases hlast : JsMap.lastWith (·.address) (S.findManyByChainIdAndAddresses addresses) a with
    | none => rfl
    | some asset =>
      obtain ⟨haddress, hmem⟩ := JsMap.lastWith_eq_some hlast
      obtain ⟨b, -, hb⟩ := List.mem_filterMap.mp hmem
      obtain ⟨d, hd', rfl⟩ := Option.map_eq_some_iff.mp hb
      cases haddress
      rw [hd] at hd'
      cases hd'
  | some d =>
    have hmem : (⟨a, d⟩ : AssetEntity) ∈ S.findManyByChainIdAndAddresses addresses :=
      List.mem_filterMap.mpr ⟨a, ha, by rw [hd]; rfl⟩
    obtain ⟨asset, hlast⟩ := JsMap.exists_lastWith (·.address) hmem
    obtain ⟨haddress, hmem'⟩ := JsMap.lastWith_eq_some hlast
    obtain ⟨b, -, hb⟩ := List.mem_filterMap.mp hmem'
    obtain ⟨d', hd', rfl⟩ := Option.map_eq_some_iff.mp hb
    cases haddress
    rw [hd] at hd'
    cases hd'
    rw [hlast]
    rfl

theorem assetsMap_priceBag : (S.priceBag config).assetsMap = [] := by
  have hprices : ∀ (addresses : List Address) (bag : AssetBag), (addresses.foldl
      (fun bag address => bag.setPrice address (S.cachedPrice address)) bag).assetsMap =
        bag.assetsMap := by
    intro addresses
    induction addresses with
    | nil => intro bag; rfl
    | cons a addresses ih => intro bag; exact ih _
  have hstable : ∀ (addresses : List Address) (bag : AssetBag), (addresses.foldl
      (fun bag address => if (bag.getPrice address).all (· = 0) then bag.setPrice address (some 1)
        else bag) bag).assetsMap = bag.assetsMap := by
    intro addresses
    induction addresses with
    | nil => intro bag; rfl
    | cons a addresses ih =>
      intro bag
      rw [List.foldl_cons, ih]
      split <;> rfl
  rw [priceBag, loadBaseAssetsPricesIntoBag, hstable, hprices]

variable (S config) in
/-- The tokens of a pair that is loaded are in the bag if they are in the database. -/
theorem getAsset_assetBag (hpair : pair ∈ pairs) :
    (S.assetBag config pairs).getAsset pair.token0 = (S.decimals pair.token0).map (⟨pair.token0, ·⟩) ∧
    (S.assetBag config pairs).getAsset pair.token1 =
      (S.decimals pair.token1).map (⟨pair.token1, ·⟩) := by
  obtain ⟨h0, h1⟩ := mem_uniqueAssets hpair (S.baseAssets config)
  exact ⟨getAsset_setAssets _ assetsMap_priceBag h0, getAsset_setAssets _ assetsMap_priceBag h1⟩

theorem hasAsset_assetBag (hpair : pair ∈ pairs) :
    ((S.assetBag config pairs).hasAsset pair.token0 && (S.assetBag config pairs).hasAsset pair.token1) =
      S.known pair := by
  obtain ⟨h0, h1⟩ := getAsset_assetBag S config hpair
  rw [AssetBag.hasAsset, AssetBag.hasAsset, h0, h1, Option.isSome_map, Option.isSome_map, known]

theorem getPrice_setAssets (bag : AssetBag) (assets : List AssetEntity) :
    (bag.setAssets assets).getPrice = bag.getPrice := rfl

/-- The price of a pair is the same whatever other pairs are loaded. -/
theorem calculatePrice_assetBag (hpair : pair ∈ pairs) (data : Option OutputData) :
    calculatePrice (S.assetBag config pairs) (S.baseAssets config) pair data =
      calculatePrice (S.assetBag config [pair]) (S.baseAssets config) pair data := by
  obtain ⟨h0, h1⟩ := getAsset_assetBag S config hpair
  obtain ⟨h0', h1'⟩ := getAsset_assetBag S config (List.mem_singleton_self pair)
  have hdecimals : ∀ a, a = pair.token0 ∨ a = pair.token1 →
      (S.assetBag config pairs).decimals a = (S.assetBag config [pair]).decimals a := by
    rintro a (rfl | rfl)
    · rw [AssetBag.decimals, AssetBag.decimals, h0, h0']
    · rw [AssetBag.decimals, AssetBag.decimals, h1, h1']
  have hprice : (S.assetBag config pairs).getPrice = (S.assetBag config [pair]).getPrice := rfl
  rw [calculatePrice, calculatePrice]
  refine bind_congr fun reserves => ?_
  rw [sides]
  split
  · next hsides =>
    split at hsides
    · cases hsides
    · split at hsides
      · cases hsides
      · rfl
  · next base baseReserve target targetReserve hsides =>
    have htokens : (base = pair.token0 ∨ base = pair.token1) ∧
        (target = pair.token0 ∨ target = pair.token1) := by
      split at hsides
      · cases hsides
        exact ⟨.inl rfl, .inr rfl⟩
      · split at hsides
        · cases hsides
          exact ⟨.inr rfl, .inl rfl⟩
        · cases hsides
    rw [hdecimals base htokens.1, hdecimals target htokens.2, hprice]

theorem normalizeDecimals_finite (q : ℚ) (decimals : Nat) :
    ∃ r, normalizeDecimals (finite q) decimals = finite r := by
  have hdiv : finite q / tenPow decimals = finite (q / 10 ^ (decimals : ℤ)) :=
    finite_div q (zpow_ne_zero _ (by norm_num))
  rw [normalizeDecimals, dividedBy, hdiv]
  exact ⟨_, rfl⟩

/-- A quotient of something by anything is a number, or more than all numbers. -/
theorem upper_div {a : ℚ} (ha : 0 < a) (b : ℚ) : Upper (finite a / finite b) := by
  rcases eq_or_ne b 0 with rfl | hb
  · have hdiv : finite a / finite 0 = infinity (decide (a < 0)) := by
      show (if (0 : ℚ) = 0 then if a = 0 then nan else infinity (decide (a < 0))
        else finite (a / 0)) = _
      rw [if_pos rfl, if_neg ha.ne']
    rw [hdiv, decide_eq_false ha.not_gt]
    exact .inl rfl
  · exact .inr ⟨_, finite_div a hb⟩

theorem getPrice_of_mem_baseAssets {a : Address} (h : a ∈ S.baseAssets config) :
    ∃ price, 0 < price ∧ (S.priceBag config).getPrice a = some price := by
  have hprice := (List.mem_filter.mp h).2
  rw [AssetBag.hasPrice] at hprice
  cases hget : (S.priceBag config).getPrice a with
  | none =>
    rw [hget] at hprice
    cases hprice
  | some price =>
    rw [hget] at hprice
    exact ⟨price, of_decide_eq_true hprice, rfl⟩

/-- A pair has a price exactly if both of its tokens are known and one is a base asset. -/
theorem succeeds_ownPrice : Succeeds (S.ownPrice config pair) ↔ S.known pair ∧ S.based config pair := by
  obtain ⟨data, hdata, hreserves⟩ := S.call_getReserves pair
  obtain ⟨h0, h1⟩ := getAsset_assetBag S config (List.mem_singleton_self pair)
  have hdecimals : ∀ a, (S.assetBag config [pair]).getAsset a = (S.decimals a).map (⟨a, ·⟩) →
      (Succeeds ((S.assetBag config [pair]).decimals a) ↔ (S.decimals a).isSome) := by
    intro a h
    rw [AssetBag.decimals, h]
    cases S.decimals a with
    | none => simp
    | some d => simp
  rw [ownPrice, hdata, ok_bind, calculatePrice, hreserves, ok_bind, sides, known, based,
    Bool.and_eq_true, ← hdecimals _ h0, ← hdecimals _ h1]
  by_cases hb0 : pair.token0 ∈ S.baseAssets config
  · rw [if_pos hb0]
    refine (succeeds_bind_bind fun _ _ => succeeds_pure).trans ?_
    simp [hb0]
  · rw [if_neg hb0]
    by_cases hb1 : pair.token1 ∈ S.baseAssets config
    · rw [if_pos hb1]
      refine (succeeds_bind_bind fun _ _ => succeeds_pure).trans ?_
      simp [hb1, and_comm]
    · rw [if_neg hb1]
      simp [hb0, hb1]

/-- A pair of sufficient cap is worth something. -/
theorem good_of_sufficient {p : PairPrice} (h : S.ownPrice config pair = .ok p)
    (hcap : sufficient config p) : p.Good := by
  obtain ⟨data, hdata, hreserves⟩ := S.call_getReserves pair
  rw [ownPrice, hdata, ok_bind, calculatePrice, hreserves, ok_bind] at h
  have hmin : 0 < config.minCap.getD 2000 := by
    cases hminCap : config.minCap with
    | none => exact (by norm_num : (0 : ℚ) < 2000)
    | some cap => exact config.minCap_pos cap hminCap
  split at h
  · cases h
  · next base baseReserve target targetReserve hsides =>
    have hbase : base ∈ S.baseAssets config ∧ (∃ r, baseReserve = finite r) ∧
        ∃ r, targetReserve = finite r := by
      rw [sides] at hsides
      split at hsides
      · next hb =>
        cases hsides
        exact ⟨hb, ⟨_, rfl⟩, _, rfl⟩
      · split at hsides
        · next hb =>
          cases hsides
          exact ⟨hb, ⟨_, rfl⟩, _, rfl⟩
        · cases hsides
    obtain ⟨hbase, ⟨r, rfl⟩, r', rfl⟩ := hbase
    obtain ⟨price, -, hget⟩ := getPrice_of_mem_baseAssets hbase
    obtain ⟨d, -, h⟩ := bind_eq_ok.mp h
    obtain ⟨d', -, h⟩ := bind_eq_ok.mp h
    obtain ⟨q, hq⟩ := normalizeDecimals_finite r d
    obtain ⟨q', hq'⟩ := normalizeDecimals_finite r' d'
    rw [hq, hq', assetBag, getPrice_setAssets, hget] at h
    cases h
    have hle : config.minCap.getD 2000 ≤ price * q * 2 := by
      have hle' : (!decide (price * q * (2 : ℕ) < config.minCap.getD 2000)) = true := hcap
      simpa using hle'
    have hpos : 0 < price * q := by linarith
    exact ⟨⟨price * q * (2 : ℕ), by push_cast; linarith, rfl⟩, upper_div hpos q'⟩

/-! ## Runs -/

/-- Every pair that is asked for has its own response, whatever chunk it is in. -/
theorem responses_eq {data : AssetPair → Option OutputData}
    (hdata : ∀ pair, S.provider.call (getReservesCall pair) = .ok (data pair))
    (pairs : List AssetPair) :
    chunkRunAsync (pairs.map getReservesCall) 1000 S.provider.callArray =
      .ok (pairs.map data) := by
  have hcalls : ∀ chunk ∈ chunks 999 (pairs.map getReservesCall), ∀ call ∈ chunk,
      ∃ pair, getReservesCall pair = call := by
    intro chunk hchunk call hcall
    have hmem := List.mem_flatten_of_mem hchunk hcall
    rw [flatten_chunks] at hmem
    obtain ⟨pair, -, h⟩ := List.mem_map.mp hmem
    exact ⟨pair, h⟩
  have hchunks : ∀ chunk ∈ chunks 999 (pairs.map getReservesCall),
      S.provider.callArray chunk = chunk.mapM S.provider.call := by
    intro chunk hchunk
    refine @Provider.callArray_eq_mapM _ _ getReservesAbi ?_ ?_ ?_
    · intro call hcall
      obtain ⟨pair, rfl⟩ := hcalls chunk hchunk call hcall
      rfl
    · intro call hcall call' hcall' hkey
      obtain ⟨pair, rfl⟩ := hcalls chunk hchunk call hcall
      obtain ⟨pair', rfl⟩ := hcalls chunk hchunk call' hcall'
      rw [getReservesCall, getReservesCall, createCall_key_inj hkey]
    · intro call hcall
      obtain ⟨pair, rfl⟩ := hcalls chunk hchunk call hcall
      exact ⟨_, hdata pair⟩
  have hall := mapM_chunks 999 hchunks
  rw [chunkRunAsync]
  refine hall.trans ?_
  rw [List.mapM_map]
  exact mapM_eq_ok fun pair _ => hdata pair

/-- The prices of the pairs are their own if all of them have prices. Otherwise none is returned:
the last pair has no response, or a pair without a base asset throws. -/
theorem pairPrices_spec (S : Surroundings) (config : Univ2NetworkPriceProviderConfig)
    (pairs : List AssetPair) :
    (Succeeds (S.pairPrices config pairs) ↔ ∀ pair ∈ pairs, Succeeds (S.ownPrice config pair)) ∧
      ((∀ pair ∈ pairs, Succeeds (S.ownPrice config pair)) →
        S.pairPrices config pairs = pairs.mapM (S.ownPrice config)) := by
  choose data hdata hreserves using S.call_getReserves
  have hfilter : (pairs.filter fun pair => (S.assetBag config pairs).hasAsset pair.token0 &&
      (S.assetBag config pairs).hasAsset pair.token1) = pairs.filter S.known :=
    List.filter_congr fun pair hpair => hasAsset_assetBag hpair
  have hrun : S.pairPrices config pairs = pairs.zipIdx.mapM fun (pair, index) =>
      calculatePrice (S.assetBag config pairs) (S.baseAssets config) pair
        (((pairs.filter S.known).map data)[index]?).join := by
    rw [pairPrices, hfilter, responses_eq hdata, ok_bind]
  have hown : (∀ pair ∈ pairs, S.known pair) →
      S.pairPrices config pairs = pairs.mapM (S.ownPrice config) := by
    intro hknown
    have hall : pairs.filter S.known = pairs := List.filter_eq_self.mpr hknown
    rw [hrun, hall]
    have hzip := mapM_zipIdx_eq (f := fun x : AssetPair × Nat =>
      calculatePrice (S.assetBag config pairs) (S.baseAssets config) x.1
        ((pairs.map data)[x.2]?).join) (g := S.ownPrice config) (k := id) (l := pairs) ?_
    · rwa [List.map_id] at hzip
    · intro idx pair hidx
      have hpair := List.mem_of_getElem? hidx
      simp only [id, List.getElem?_map, hidx, Option.map_some, Option.join_some]
      rw [calculatePrice_assetBag hpair, ownPrice, hdata, ok_bind]
  have hprices : (∀ pair ∈ pairs, Succeeds (S.ownPrice config pair)) →
      S.pairPrices config pairs = pairs.mapM (S.ownPrice config) :=
    fun h => hown fun pair hpair => (succeeds_ownPrice.mp (h pair hpair)).1
  refine ⟨⟨fun hsucceeds => ?_, fun h => ?_⟩, hprices⟩
  · by_cases hknown : ∀ pair ∈ pairs, S.known pair
    · rw [hown hknown, succeeds_mapM] at hsucceeds
      exact hsucceeds
    · -- there are fewer responses than pairs
      have hlength : (pairs.filter S.known).length < pairs.length := by
        rw [List.length_filter_lt_length_iff_exists]
        push Not at hknown
        exact hknown
      have hlast : pairs.length - 1 < pairs.length := by omega
      have hmem : (pairs[pairs.length - 1], pairs.length - 1) ∈ pairs.zipIdx :=
        List.mem_zipIdx_iff_getElem?.mpr (List.getElem?_eq_getElem hlast)
      rw [hrun, succeeds_mapM] at hsucceeds
      obtain ⟨p, hp⟩ := hsucceeds _ hmem
      have hnone : ((pairs.filter S.known).map data)[pairs.length - 1]? = none := by
        rw [List.getElem?_eq_none_iff, List.length_map]
        omega
      simp only [hnone] at hp
      cases hp
  · rw [hprices h, succeeds_mapM]
    exact h

/-- The prices of sufficient cap that some pairs have for an asset. -/
def usablePrices (S : Surroundings) (config : Univ2NetworkPriceProviderConfig) (t : Address)
    (pairs : List AssetPair) : List PairPrice :=
  ((pairs.filterMap fun pair => (S.ownPrice config pair).toOption).filter
    (sufficient config)).filter (·.asset = t)

theorem usablePrices_perm {pairs' : List AssetPair} (h : pairs.Perm pairs') (t : Address) :
    (S.usablePrices config t pairs).Perm (S.usablePrices config t pairs') :=
  ((h.filterMap _).filter _).filter _

theorem usablePrices_append (t : Address) (pairs pairs' : List AssetPair) :
    S.usablePrices config t (pairs ++ pairs') =
      S.usablePrices config t pairs ++ S.usablePrices config t pairs' := by
  rw [usablePrices, List.filterMap_append, List.filter_append, List.filter_append]
  rfl

theorem good_of_mem_usablePrices {t : Address} {p : PairPrice}
    (h : p ∈ S.usablePrices config t pairs) : p.Good := by
  obtain ⟨hp, -⟩ := List.mem_filter.mp h
  obtain ⟨hp, hsufficient⟩ := List.mem_filter.mp hp
  obtain ⟨pair, -, hprice⟩ := List.mem_filterMap.mp hp
  cases hown : S.ownPrice config pair with
  | error e =>
    rw [hown] at hprice
    cases hprice
  | ok p' =>
    rw [hown] at hprice
    cases hprice
    exact good_of_sufficient hown hsufficient

theorem usablePrices_subset {pairs' : List AssetPair} (h : ∀ pair ∈ pairs, pair ∈ pairs')
    {t : Address} {p : PairPrice} (hp : p ∈ S.usablePrices config t pairs) :
    p ∈ S.usablePrices config t pairs' := by
  obtain ⟨hp, htarget⟩ := List.mem_filter.mp hp
  obtain ⟨hp, hsufficient⟩ := List.mem_filter.mp hp
  obtain ⟨pair, hpair, hprice⟩ := List.mem_filterMap.mp hp
  refine List.mem_filter.mpr ⟨List.mem_filter.mpr ⟨?_, hsufficient⟩, htarget⟩
  exact List.mem_filterMap.mpr ⟨pair, h pair hpair, hprice⟩

/-- The result has one price for an asset: the mean over the prices that the rows have for it. -/
def HasMean (result : List AssetPrice) (source : PriceSource) (t : Address)
    (prices : List PairPrice) : Prop :=
  ∃ extra, result.filter (·.address = t) =
      ⟨t, meanPrice prices, source.config.chainId, source.sourceId⟩ :: extra ∧
    (t ≠ COIN_ADDRESS → extra = [])

/-- With base assets and prices for all rows, each asset has the mean over the rows. -/
theorem fetchPrices_found {source : PriceSource} (hbase : S.baseAssets source.config ≠ [])
    (hown : ∀ pair ∈ pairs, Succeeds (S.ownPrice source.config pair)) :
    ∃ result, S.fetchPrices source pairs = .ok result ∧
      ∀ t, S.usablePrices source.config t pairs ≠ [] →
        HasMean result source t (S.usablePrices source.config t pairs) := by
  rw [fetchPrices]
  simp only [if_neg hbase]
  by_cases hnil : pairs = []
  · subst hnil
    exact ⟨[], rfl, fun t h => absurd rfl h⟩
  · obtain ⟨prices, hprices⟩ := succeeds_mapM.mpr hown
    simp only [if_neg hnil, (S.pairPrices_spec source.config pairs).2 hown, hprices, ok_bind]
    refine ⟨_, rfl, fun t ht => ?_⟩
    have husable : S.usablePrices source.config t pairs =
        (prices.filter (sufficient source.config)).filter (·.asset = t) := by
      rw [usablePrices, filterMap_toOption_of_mapM hprices]
    generalize prices.filter (sufficient source.config) = sufficientPrices at *
    have hget : (assetStatsMap sufficientPrices).get t =
        some ⟨meanPrice (S.usablePrices source.config t pairs),
          total ((S.usablePrices source.config t pairs).map (·.cap))⟩ := by
      rw [assetStatsMap, JsMap.foldl_update_get PairPrice.asset weigh, JsMap.get_nil, ← husable]
      exact foldl_weigh (fun p hp => good_of_mem_usablePrices hp) ht
    have hnodup : (assetStatsMap sufficientPrices).keys.Nodup := by
      rw [assetStatsMap, JsMap.foldl_update_keys PairPrice.asset weigh, foldl_addToSet]
      exact nodup_fresh [] _
    have hentry := JsMap.filter_key_eq hnodup hget
    let price (e : Address × JsNumber) : AssetPrice :=
      ⟨e.1, e.2, source.config.chainId, source.sourceId⟩
    have hsplit : ∀ coin : List (Address × JsNumber),
        ((calculateWeightedPrices sufficientPrices ++ coin).map price).filter (·.address = t) =
          price (t, meanPrice (S.usablePrices source.config t pairs)) ::
            (coin.map price).filter (·.address = t) := by
      intro coin
      have hfound : ((assetStatsMap sufficientPrices).filter
          ((fun x : AssetPrice => decide (x.address = t)) ∘ price ∘
            fun e : Address × AssetStats => (e.1, e.2.price))) = _ := hentry
      rw [calculateWeightedPrices, List.map_append, List.map_map, List.filter_append,
        List.filter_map, hfound]
      rfl
    refine ⟨_, hsplit _, fun hcoin => ?_⟩
    refine List.filter_eq_nil_iff.mpr fun p hp haddress => hcoin ?_
    obtain ⟨e, he, rfl⟩ := List.mem_map.mp hp
    obtain ⟨e', -, rfl⟩ := Option.map_eq_some_iff.mp (Option.mem_toList.mp he)
    exact (of_decide_eq_true haddress).symm

/-- What is returned needs prices for all rows, or has no base asset. -/
theorem ownPrice_of_fetchPrices {source : PriceSource} (hbase : S.baseAssets source.config ≠ [])
    (h : Succeeds (S.fetchPrices source pairs)) :
    ∀ pair ∈ pairs, Succeeds (S.ownPrice source.config pair) := by
  rw [fetchPrices] at h
  simp only [if_neg hbase] at h
  by_cases hnil : pairs = []
  · subst hnil
    exact fun pair hpair => absurd hpair List.not_mem_nil
  · simp only [if_neg hnil] at h
    obtain ⟨prices, hprices, -⟩ := succeeds_bind.mp h
    exact (S.pairPrices_spec source.config pairs).1.mp ⟨prices, hprices⟩

end Surroundings

/-! ## Right prices -/

/-- The stored pairs, which have different addresses, a source and what surrounds them. -/
structure Market where
  surroundings : Surroundings
  source : PriceSource
  stored : List StoredPair
  nodup : (stored.map (·.pair.address)).Nodup

namespace Market
variable (M : Market)

def baseAssets : List Address := M.surroundings.baseAssets M.source.config

/-- The pairs with a tracked token. -/
def listed : List AssetPair :=
  (M.stored.filter fun s => s.tracked0 || s.tracked1).map (·.pair)

/-- The pairs with two tracked tokens, which are in two rows. -/
def listedTwice : List AssetPair :=
  (M.stored.filter fun s => s.tracked0 && s.tracked1).map (·.pair)

def usablePrices (t : Address) (pairs : List AssetPair) : List PairPrice :=
  M.surroundings.usablePrices M.source.config t pairs

/-- Whatever the order of the rows, prices are returned, and each asset that is no base asset and
has usable pairs has the weighted mean over them, each counted once. -/
def RightPrices : Prop :=
  ∀ rows, rows.Perm (findUniV2LikePairsForTrackedAssets M.stored) →
    ∃ result, M.surroundings.fetchPrices M.source rows = .ok result ∧
      ∀ t ∉ M.baseAssets, M.usablePrices t M.listed ≠ [] →
        Surroundings.HasMean result M.source t (M.usablePrices t M.listed)

theorem rows_perm :
    (findUniV2LikePairsForTrackedAssets M.stored).Perm (M.listed ++ M.listedTwice) := by
  rw [findUniV2LikePairsForTrackedAssets, listed, listedTwice, ← List.map_append,
    ← List.map_append]
  exact (filter_append_filter_perm (·.tracked0) (·.tracked1) M.stored).map _

theorem listedTwice_subset : ∀ pair ∈ M.listedTwice, pair ∈ M.listed := by
  intro pair hpair
  obtain ⟨s, hs, rfl⟩ := List.mem_map.mp hpair
  obtain ⟨hs, htracked⟩ := List.mem_filter.mp hs
  refine List.mem_map_of_mem (List.mem_filter.mpr ⟨hs, ?_⟩)
  rw [Bool.or_eq_true]
  exact .inl (Bool.and_eq_true_iff.mp htracked).1

/-- The rows have the prices of the pairs and, once more, those of the pairs with two rows. -/
theorem usablePrices_rows_perm {rows : List AssetPair}
    (hrows : rows.Perm (findUniV2LikePairsForTrackedAssets M.stored)) (t : Address) :
    (M.usablePrices t rows).Perm (M.usablePrices t M.listed ++ M.usablePrices t M.listedTwice) := by
  rw [usablePrices, usablePrices, usablePrices, ← Surroundings.usablePrices_append]
  exact Surroundings.usablePrices_perm (hrows.trans M.rows_perm) t

theorem mem_rows {rows : List AssetPair}
    (hrows : rows.Perm (findUniV2LikePairsForTrackedAssets M.stored)) {pair : AssetPair} :
    pair ∈ rows ↔ pair ∈ M.listed := by
  rw [(hrows.trans M.rows_perm).mem_iff, List.mem_append]
  exact ⟨fun h => h.elim id (M.listedTwice_subset pair), .inl⟩

theorem usablePrices_rows_ne_nil {rows : List AssetPair}
    (hrows : rows.Perm (findUniV2LikePairsForTrackedAssets M.stored)) {t : Address}
    (h : M.usablePrices t M.listed ≠ []) : M.usablePrices t rows ≠ [] := by
  intro hnil
  have hperm := M.usablePrices_rows_perm hrows t
  rw [hnil] at hperm
  exact h (List.append_eq_nil_iff.mp hperm.nil_eq.symm).1

theorem mean_rows_eq_iff {rows : List AssetPair}
    (hrows : rows.Perm (findUniV2LikePairsForTrackedAssets M.stored)) {t : Address} :
    meanPrice (M.usablePrices t rows) = meanPrice (M.usablePrices t M.listed) ↔
      M.usablePrices t M.listedTwice = [] ∨
      (∃ p ∈ M.usablePrices t M.listed, p.price = infinity false) ∨
      meanPrice (M.usablePrices t M.listedTwice) = meanPrice (M.usablePrices t M.listed) := by
  rw [meanPrice_perm (M.usablePrices_rows_perm hrows t)]
  rcases eq_or_ne (M.usablePrices t M.listedTwice) [] with hnil | hne
  · rw [hnil, List.append_nil]
    exact iff_of_true rfl (.inl rfl)
  · rw [or_iff_right hne]
    exact meanPrice_append_eq_iff (fun p hp => Surroundings.good_of_mem_usablePrices hp)
      (fun p hp => Surroundings.usablePrices_subset M.listedTwice_subset hp) hne

/-- With base assets, prices are right exactly if all pairs have known tokens, of which one is a
base asset, and if for every other asset the pairs with two rows have the mean of all of its pairs:
they are counted twice. -/
theorem rightPrices_iff : M.RightPrices ↔ M.baseAssets = [] ∨
    (∀ pair ∈ M.listed, M.surroundings.known pair ∧
      M.surroundings.based M.source.config pair) ∧
    ∀ t ∉ M.baseAssets, M.usablePrices t M.listedTwice = [] ∨
      (∃ p ∈ M.usablePrices t M.listed, p.price = infinity false) ∨
      meanPrice (M.usablePrices t M.listedTwice) = meanPrice (M.usablePrices t M.listed) := by
  by_cases hbase : M.baseAssets = []
  · refine iff_of_true ?_ (.inl hbase)
    intro rows hrows
    refine ⟨[], ?_, fun t ht husable => ?_⟩
    · rw [Surroundings.fetchPrices]
      exact if_pos hbase
    · obtain ⟨p, hp⟩ := List.exists_mem_of_ne_nil _ husable
      obtain ⟨hp, -⟩ := List.mem_filter.mp hp
      obtain ⟨hp, -⟩ := List.mem_filter.mp hp
      obtain ⟨pair, -, hprice⟩ := List.mem_filterMap.mp hp
      cases hown : M.surroundings.ownPrice M.source.config pair with
      | error e =>
        rw [hown] at hprice
        cases hprice
      | ok p' =>
        have hbased := (Surroundings.succeeds_ownPrice.mp ⟨p', hown⟩).2
        have hnone : M.surroundings.baseAssets M.source.config = [] := hbase
        rw [Surroundings.based, hnone] at hbased
        simp at hbased
  · rw [or_iff_right hbase]
    constructor
    · intro hright
      obtain ⟨result, hresult, hmean⟩ := hright _ (.refl _)
      have hown := Surroundings.ownPrice_of_fetchPrices hbase ⟨result, hresult⟩
      refine ⟨fun pair hpair => ?_, fun t ht => ?_⟩
      · exact Surroundings.succeeds_ownPrice.mp (hown pair ((M.mem_rows (.refl _)).mpr hpair))
      · by_cases hnil : M.usablePrices t M.listed = []
        · refine .inl (List.eq_nil_iff_forall_not_mem.mpr fun p hp => ?_)
          have hp' := Surroundings.usablePrices_subset M.listedTwice_subset hp
          rw [usablePrices] at hnil
          rw [hnil] at hp'
          cases hp'
        · obtain ⟨result', hresult', hrows⟩ := Surroundings.fetchPrices_found hbase hown
          rw [hresult] at hresult'
          cases hresult'
          obtain ⟨extra, hextra, -⟩ := hmean t ht hnil
          obtain ⟨extra', hextra', -⟩ := hrows t (M.usablePrices_rows_ne_nil (.refl _) hnil)
          rw [hextra] at hextra'
          exact (M.mean_rows_eq_iff (.refl _)).mp
            (congrArg AssetPrice.price (List.cons.inj hextra').1).symm
    · rintro ⟨hpairs, hmeans⟩ rows hrows
      have hown : ∀ pair ∈ rows, Succeeds (M.surroundings.ownPrice M.source.config pair) :=
        fun pair hpair =>
          Surroundings.succeeds_ownPrice.mpr (hpairs pair ((M.mem_rows hrows).mp hpair))
      obtain ⟨result, hresult, hfound⟩ := Surroundings.fetchPrices_found hbase hown
      refine ⟨result, hresult, fun t ht hne => ?_⟩
      obtain ⟨extra, hextra, hcoin⟩ := hfound t (M.usablePrices_rows_ne_nil hrows hne)
      have hmean := (M.mean_rows_eq_iff hrows).mpr (hmeans t ht)
      refine ⟨extra, hextra.trans ?_, hcoin⟩
      exact congrArg (fun price => (⟨t, price, _, _⟩ : AssetPrice) :: extra) hmean

end Market

/-! ## A token that is not in the database -/

/-- A chain on which all pairs have a thousand of both tokens. -/
def sampleProvider : Provider where
  chain := 1
  encodeFunctionCall _ _ := .ok "0x0902f1ac"
  decodeParameters _ _ := .ok ⟨[], fun _ => some (.text "1000" (finite 1000))⟩
  execute _ _ := .ok "0x"
  hex h := by
    cases h
    decide

/-- The decimals of the stable coin only are known. -/
def sampleSurroundings : Surroundings where
  formatAddress := id
  cachedPrice _ := none
  decimals a := if a = "0xa" then some 0 else none
  provider := sampleProvider
  reserves _ := (1000, 1000)
  call_getReserves _ := ⟨_, Provider.call_eq _, rfl⟩

def sampleMarket : Market where
  surroundings := sampleSurroundings
  source := ⟨1, ⟨1, "0xf", "0xc", ["0xa"], none, some 500, by decide +kernel⟩⟩
  stored := [⟨⟨"0xd", "0xa", "0xb"⟩, true, false⟩]
  nodup := by decide

/-- A pair with a token that is not in the database makes the whole run throw. -/
theorem sampleMarket_throws : ¬ sampleMarket.RightPrices := by
  intro h
  obtain ⟨result, hresult, -⟩ := h _ (.refl _)
  have hbase : sampleSurroundings.baseAssets sampleMarket.source.config ≠ [] := by decide +kernel
  have hown := Surroundings.ownPrice_of_fetchPrices hbase ⟨result, hresult⟩
    ⟨"0xd", "0xa", "0xb"⟩ (List.mem_cons_self ..)
  exact absurd (Surroundings.succeeds_ownPrice.mp hown).1 (by decide)

end Univ2Network
end Assets
end DefiBackend
