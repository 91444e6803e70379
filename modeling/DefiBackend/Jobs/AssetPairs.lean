import DefiBackend.Common.Address
import DefiBackend.Common.Chunking
import DefiBackend.Jobs.MissingReserves
import DefiBackend.Theory.Correspondence
import DefiBackend.Theory.Tasks

/-! # Pairs of assets

`processor.ts` of the prices job, before the prices: the factories are asked for the pairs of all
assets that have none or old ones, with the base assets, and the contract of each pair for its first
token. The calls for a hundred pairs run at once, and each adds its pair to the asset when it is
answered.

* `updateAssetWithPairData`: what an answer changes;
* `findsPairs`: in whatever order the answers come, each of these assets gets the pairs that there
  are, the others keep theirs, and every pair has its reserves when the prices are computed. -/

namespace DefiBackend
namespace Jobs
namespace AssetPairs
open LambdaPrices Theory

structure Protocol where
  name : String
  address : String

structure Config extends LambdaPrices.Config where
  protocol : List Protocol

def Config.baseAssets (config : Config) : List String :=
  config.wrappedCoin :: (config.stableCoins ++ config.whiteListCoins)

structure Pair extends LambdaPrices.Pair where
  type : String

structure AssetsApiDto where
  address : String
  chainId : Nat
  decimals : Option Nat
  pairs : List Pair
  createdAt : String

/-- What the prices are computed from. -/
def AssetsApiDto.priced (asset : AssetsApiDto) : LambdaPrices.AssetsApiDto :=
  ⟨asset.address, asset.chainId, asset.pairs.map Pair.toPair⟩

structure AssetPairArguments where
  baseAsset : String
  asset : String
  factoryAddress : String
  protocolName : String

structure AssetPairData extends AssetPairArguments where
  pairAddress : String

/-- The answers of the contracts, nothing if a call fails. -/
structure Network where
  getPair : String → String → String → Option String
  token0 : String → Option String
  getReserves : String → Option UniswapPairReserves

/-! ## Multicalls -/

section
variable (network : Network)

/-- One failed call fails the batch. -/
def getPairsForBatch (assetPairs : List AssetPairArguments) : Option (List String) :=
  assetPairs.mapM fun pair => network.getPair pair.factoryAddress pair.asset pair.baseAsset

def getAssetsPairs (assetPairs : List AssetPairArguments) : Option (List AssetPairData) := do
  let chunks ← (toChunkedArray assetPairs 100).mapM fun chunkAssetPairs => do
    let pairs ← getPairsForBatch network chunkAssetPairs
    pure (chunkAssetPairs.zipWith (fun assetPair pair => ⟨assetPair, lowerCase pair⟩) pairs)
  pure chunks.flatten

def getReservesForBatch (pairs : List String) : Option (List (String × UniswapPairReserves)) :=
  pairs.mapM fun pair => (network.getReserves pair).map (Prod.mk pair)

def getPairsReserves (pairs : List String) : Option UniswapReservesData := do
  let slices ← (toChunkedArray pairs 100).mapM (getReservesForBatch network)
  pure (JsMap.ofEntries slices.flatten)

end

/-! ## Possible pairs -/

/-- An object of the loaded assets, at its place. Its pairs are what changes. -/
abbrev Asset := AssetsApiDto × Nat

abbrev AssetsMap := JsMap String Asset

/-- The pairs of the assets by place. -/
abbrev Memory := Nat → List Pair

def getPossibleAssetPairs (coins : List String) (protocol : Protocol) (asset : String) :
    List AssetPairArguments :=
  coins.map fun coin => ⟨coin, asset, protocol.address, protocol.name⟩

section
variable (config : Config) (assets : List AssetsApiDto) (upToDate : AssetsApiDto → Bool)

def buildBaseAssetsMap : AssetsMap :=
  .ofEntries ((assets.zipIdx.filter fun asset => asset.1.address ∈ config.baseAssets).map
    fun asset => (asset.1.address, asset))

def buildAssetsMap : AssetsMap :=
  .ofEntries (assets.zipIdx.map fun asset => (asset.1.address, asset))

/-- The coins an asset may have a pair with. -/
def coinsFor (asset : AssetsApiDto) : List String :=
  if asset.address ∈ config.stableCoins then config.whiteListCoins ++ [config.wrappedCoin]
  else if asset.address ∈ config.whiteListCoins then config.stableCoins ++ [config.wrappedCoin]
  else if asset.address = config.wrappedCoin then config.stableCoins
  else (buildBaseAssetsMap config assets).keys

def buildPossibleAssetPairs (asset : AssetsApiDto) : List AssetPairArguments :=
  config.protocol.flatMap fun protocol =>
    getPossibleAssetPairs (coinsFor config assets asset) protocol asset.address

/-- Whether pairs are up to date depends on the time and on a random number. -/
def assetsWithNoPairs : List Asset :=
  (buildAssetsMap assets).values.filter fun asset => asset.1.pairs.isEmpty || !upToDate asset.1

def assetsWithNoPairsMap : AssetsMap :=
  .ofEntries ((assetsWithNoPairs assets upToDate).map fun asset => (asset.1.address, asset))

def assetsPairsArgs : List AssetPairArguments :=
  (assetsWithNoPairs assets upToDate).flatMap fun asset =>
    buildPossibleAssetPairs config assets asset.1

/-- The pairs as loaded, but none for the assets that are looked up. -/
def cleared : Memory := fun i =>
  if i ∈ (assetsWithNoPairs assets upToDate).map Prod.snd then []
  else (assets[i]?).elim [] (·.pairs)

/-! ## Updates -/

variable (network : Network)

/-- The pair that is added to an asset, nothing if there is none or an exception is caught. -/
def newPair (asset : AssetsApiDto) (pairData : AssetPairData) : Option Pair :=
  if pairData.pairAddress = zeroAddress then none
  else do
    let stable ← (buildBaseAssetsMap config assets).get pairData.baseAsset
    let token0Address ← network.token0 pairData.pairAddress
    let position (address : String) : Nat := if address = lowerCase token0Address then 0 else 1
    pure {
      address := pairData.pairAddress
      type := pairData.protocolName
      token0 := ⟨pairData.baseAsset, position pairData.baseAsset, stable.1.decimals⟩
      token1 := ⟨pairData.asset, position pairData.asset, asset.decimals⟩ }

def updateAssetWithPairData (memory : Memory) (pairData : AssetPairData) : Memory :=
  match (assetsWithNoPairsMap assets upToDate).get pairData.asset with
  | none => memory
  | some asset =>
    Function.update memory asset.2
      (memory asset.2 ++ (newPair config assets network asset.1 pairData).toList)

/-- `updateAssetsWithPairData`, before its first chunk. -/
def updateAssetsWithPairData (assetPairs : List AssetPairData) : Batches Memory AssetPairData :=
  .init (toChunkedArray assetPairs 100) (cleared assets upToDate)

/-- The pairs after `getAssetsWithNewPairs`, if the answers come in some order. -/
def FindsPairs (memory : Memory) : Prop :=
  ∃ assetPairs turns updated,
    getAssetsPairs network (assetsPairsArgs config assets upToDate) = some assetPairs ∧
      run (Batches.step (updateAssetWithPairData config assets upToDate network))
        (updateAssetsWithPairData assets upToDate assetPairs) turns = some updated ∧
      updated.Done ∧ updated.state = memory

/-- The assets with the pairs they have. -/
def withPairs (memory : Memory) : List AssetsApiDto :=
  assets.zipIdx.map fun asset => { asset.1 with pairs := memory asset.2 }

/-- What is saved by `AssetsService.saveAssetsPairs`. -/
def assetsToUpdate (memory : Memory) : List AssetsApiDto :=
  (((assetsWithNoPairs assets upToDate).map fun asset =>
    { asset.1 with pairs := memory asset.2 }).filter fun asset => !asset.pairs.isEmpty)

end

def getUniquePairAddresses (assets : List AssetsApiDto) : List String :=
  unique (assets.flatMap fun asset => asset.pairs.map (·.address))

/-! ## What is found -/

section
variable (config : Config) (assets : List AssetsApiDto) (network : Network)

/-- The coins an asset is to be paired with, by its address: all base assets that are loaded, unless
it is one itself. -/
inductive Partners (address : String) : List String → Prop
  | stable : address ∈ config.stableCoins →
    Partners address (config.whiteListCoins ++ [config.wrappedCoin])
  | whiteList : address ∉ config.stableCoins → address ∈ config.whiteListCoins →
    Partners address (config.stableCoins ++ [config.wrappedCoin])
  | wrapped : address ∉ config.stableCoins → address ∉ config.whiteListCoins →
    address = config.wrappedCoin → Partners address config.stableCoins
  | simple (coins : List String) : address ∉ config.baseAssets → coins.Nodup →
    (∀ coin, coin ∈ coins ↔ coin ∈ config.baseAssets ∧ ∃ asset ∈ assets, asset.address = coin) →
    Partners address coins

/-- The pair that a factory has for an asset and a coin. The coin is a base asset that is loaded,
and the pair tells its first token. -/
structure PairOn (asset : AssetsApiDto) (protocol : Protocol) (coin : String) (pair : Pair) :
    Prop where
  created : ∃ created, network.getPair protocol.address asset.address coin = some created ∧
    pair.address = lowerCase created
  nonzero : pair.address ≠ zeroAddress
  type : pair.type = protocol.name
  base : coin ∈ config.baseAssets
  decimals : ∃ base, JsMap.lastWith AssetsApiDto.address assets coin = some base ∧
    pair.token0.decimals = base.decimals
  tokens : pair.token0.tokenAddress = coin ∧ pair.token1.tokenAddress = asset.address ∧
    pair.token1.decimals = asset.decimals
  positions : ∃ token0, network.token0 pair.address = some token0 ∧
    pair.token0.pairPosition = (if coin = lowerCase token0 then 0 else 1) ∧
    pair.token1.pairPosition = (if asset.address = lowerCase token0 then 0 else 1)

/-- The pairs of an asset, in any order: that of each protocol and each coin, as often as these are
listed, if there is one. -/
def HasPairs (asset : AssetsApiDto) (pairs : List Pair) : Prop :=
  ∃ coins found, Partners config assets asset.address coins ∧
    Collects (fun place => PairOn config assets network asset place.1 place.2)
      (config.protocol ×ˢ coins) found ∧
    pairs.Perm found

/-- An asset that no later one with its address replaces, and that has no pairs or old ones. -/
def LookedUp (assets : List AssetsApiDto) (upToDate : AssetsApiDto → Bool) (asset : Asset) : Prop :=
  JsMap.lastWith (fun asset => asset.1.address) assets.zipIdx asset.1.address = some asset ∧
    (asset.1.pairs = [] ∨ upToDate asset.1 = false)

/-- The pair that is added for an asset and a coin on a protocol. -/
def pairOn (asset : AssetsApiDto) (protocol : Protocol) (coin : String) : Option Pair := do
  let pair ← network.getPair protocol.address asset.address coin
  newPair config assets network asset ⟨⟨coin, asset.address, protocol.address, protocol.name⟩,
    lowerCase pair⟩

/-- All pairs that are added for an asset. -/
def pairsOf (asset : AssetsApiDto) : List Pair :=
  config.protocol.flatMap fun protocol =>
    (coinsFor config assets asset).filterMap (pairOn config assets network asset protocol)

end

/-! ## Multicalls, without batches -/

section
variable {network : Network}

theorem getAssetsPairs_eq (assetPairs : List AssetPairArguments) :
    getAssetsPairs network assetPairs = assetPairs.mapM fun assetPair =>
      (network.getPair assetPair.factoryAddress assetPair.asset assetPair.baseAsset).map fun pair =>
        ⟨assetPair, lowerCase pair⟩ := by
  rw [getAssetsPairs, toChunkedArray_eq]
  exact mapM_chunks _ fun chunk _ => mapM_zipWith _ chunk

theorem getPairsReserves_get {pairs : List String} {reserves : UniswapReservesData}
    (h : getPairsReserves network pairs = some reserves) {pair : String} (hpair : pair ∈ pairs) :
    ∃ r, network.getReserves pair = some r ∧ reserves.get pair = some r := by
  have hentries : ∃ entries,
      (pairs.mapM fun pair => (network.getReserves pair).map (Prod.mk pair)) = some entries ∧
        reserves = JsMap.ofEntries entries := by
    obtain ⟨slices, hslices, hreserves⟩ := Option.bind_eq_some_iff.mp h
    refine ⟨slices.flatten, ?_, (Option.some.inj hreserves).symm⟩
    rw [toChunkedArray_eq] at hslices
    rw [← mapM_chunks (g := getReservesForBatch network) _ fun _ _ => rfl, hslices]
    rfl
  obtain ⟨entries, hentries, rfl⟩ := hentries
  obtain ⟨hgiven, hread⟩ := mem_of_mapM hentries
  have hkey : pair ∈ JsMap.keys (JsMap.ofEntries entries) := by
    obtain ⟨entry, hentry, hr⟩ := hgiven pair hpair
    obtain ⟨r, -, rfl⟩ := Option.map_eq_some_iff.mp hr
    rw [JsMap.keys_ofEntries, mem_unique]
    exact List.mem_map_of_mem hentry
  obtain ⟨r, hr⟩ := JsMap.mem_keys.mp hkey
  obtain ⟨pair', -, hr'⟩ := hread _ (JsMap.mem_of_mem_ofEntries (JsMap.mem_of_get hr))
  obtain ⟨r', hr', heq⟩ := Option.map_eq_some_iff.mp hr'
  cases heq
  exact ⟨r, hr', hr⟩

end

/-! ## The assets that are looked up -/

section
variable {config : Config} {assets : List AssetsApiDto} {upToDate : AssetsApiDto → Bool}
variable {network : Network} {asset asset' : Asset}

theorem eq_of_place (h : asset ∈ assets.zipIdx) (h' : asset' ∈ assets.zipIdx)
    (hplace : asset.2 = asset'.2) : asset = asset' := by
  have hget := List.mem_zipIdx_iff_getElem?.mp h
  rw [hplace, List.mem_zipIdx_iff_getElem?.mp h'] at hget
  exact Prod.ext (Option.some.inj hget).symm hplace

theorem mem_buildAssetsMap {e : String × Asset} (h : e ∈ buildAssetsMap assets) :
    e.2 ∈ assets.zipIdx ∧ e.1 = e.2.1.address := by
  obtain ⟨asset, hasset, rfl⟩ := List.mem_map.mp (JsMap.mem_of_mem_ofEntries h)
  exact ⟨hasset, rfl⟩

theorem mem_zipIdx_of_noPairs (h : asset ∈ assetsWithNoPairs assets upToDate) :
    asset ∈ assets.zipIdx := by
  obtain ⟨e, he, rfl⟩ := List.mem_map.mp (List.mem_filter.mp h).1
  exact (mem_buildAssetsMap he).1

theorem nodup_addresses :
    ((assetsWithNoPairs assets upToDate).map fun asset => asset.1.address).Nodup := by
  have hkeys : ((buildAssetsMap assets).values.map fun asset => asset.1.address) =
      (buildAssetsMap assets).keys := by
    rw [JsMap.values, JsMap.keys, List.map_map]
    exact List.map_congr_left fun e he => (mem_buildAssetsMap he).2.symm
  refine List.Nodup.sublist (List.filter_sublist.map _) ?_
  rw [hkeys]
  exact JsMap.nodup_keys_ofEntries _

theorem eq_of_address (h : asset ∈ assetsWithNoPairs assets upToDate)
    (h' : asset' ∈ assetsWithNoPairs assets upToDate)
    (haddress : asset.1.address = asset'.1.address) : asset = asset' :=
  List.inj_on_of_nodup_map nodup_addresses h h' haddress

theorem of_assetsWithNoPairsMap {address : String}
    (h : (assetsWithNoPairsMap assets upToDate).get address = some asset) :
    asset ∈ assetsWithNoPairs assets upToDate ∧ asset.1.address = address := by
  rw [assetsWithNoPairsMap, JsMap.get_ofEntries_self] at h
  exact (JsMap.lastWith_eq_some h).symm

theorem assetsWithNoPairsMap_get (h : asset ∈ assetsWithNoPairs assets upToDate) :
    (assetsWithNoPairsMap assets upToDate).get asset.1.address = some asset := by
  obtain ⟨found, hfound⟩ := JsMap.exists_lastWith (fun asset : Asset => asset.1.address) h
  rw [← JsMap.get_ofEntries_self] at hfound
  obtain ⟨hmem, haddress⟩ := of_assetsWithNoPairsMap hfound
  exact eq_of_address hmem h haddress ▸ hfound

theorem cleared_of_mem (h : asset ∈ assetsWithNoPairs assets upToDate) :
    cleared assets upToDate asset.2 = [] :=
  if_pos (List.mem_map_of_mem h)

theorem cleared_of_notMem (h : asset ∈ assets.zipIdx)
    (hnew : asset ∉ assetsWithNoPairs assets upToDate) :
    cleared assets upToDate asset.2 = asset.1.pairs := by
  rw [cleared, if_neg, List.mem_zipIdx_iff_getElem?.mp h]
  · rfl
  · intro hplace
    obtain ⟨asset', hasset', hplace⟩ := List.mem_map.mp hplace
    exact hnew (eq_of_place (mem_zipIdx_of_noPairs hasset') h hplace ▸ hasset')

/-! ## Updates in any order -/

/-- What an answer adds to the asset at a place. -/
def addedTo (config : Config) (assets : List AssetsApiDto) (upToDate : AssetsApiDto → Bool)
    (network : Network) (place : Nat) (pairData : AssetPairData) : Option Pair :=
  ((assetsWithNoPairsMap assets upToDate).get pairData.asset).bind fun asset =>
    if asset.2 = place then newPair config assets network asset.1 pairData else none

theorem updateAssetWithPairData_apply (memory : Memory) (pairData : AssetPairData) (place : Nat) :
    updateAssetWithPairData config assets upToDate network memory pairData place =
      memory place ++ (addedTo config assets upToDate network place pairData).toList := by
  rw [updateAssetWithPairData, addedTo]
  cases (assetsWithNoPairsMap assets upToDate).get pairData.asset with
  | none => exact (List.append_nil _).symm
  | some asset =>
    rw [Option.bind_some]
    by_cases hplace : asset.2 = place
    · subst hplace
      rw [if_pos rfl]
      exact Function.update_self ..
    · rw [if_neg hplace]
      exact (Function.update_of_ne (Ne.symm hplace) ..).trans (List.append_nil _).symm

theorem foldl_updateAssetWithPairData (order : List AssetPairData) (memory : Memory) (place : Nat) :
    order.foldl (updateAssetWithPairData config assets upToDate network) memory place =
      memory place ++ order.filterMap (addedTo config assets upToDate network place) := by
  induction order generalizing memory with
  | nil => exact (List.append_nil _).symm
  | cons pairData order ih =>
    rw [List.foldl_cons, ih, updateAssetWithPairData_apply, List.append_assoc, List.filterMap_cons]
    cases addedTo config assets upToDate network place pairData <;> rfl

/-- What is added in the end, in whatever order. -/
theorem FindsPairs.added {memory : Memory}
    (H : FindsPairs config assets upToDate network memory) (place : Nat) :
    ∃ added : List Pair, memory place = cleared assets upToDate place ++ added ∧
      added.Perm ((assetsPairsArgs config assets upToDate).filterMap fun assetPair =>
        ((network.getPair assetPair.factoryAddress assetPair.asset assetPair.baseAsset).map
          fun pair => ⟨assetPair, lowerCase pair⟩).bind
            (addedTo config assets upToDate network place)) := by
  obtain ⟨assetPairs, turns, updated, hpairs, hrun, hdone, rfl⟩ := H
  obtain ⟨order, horder, hstate⟩ := Batches.exists_order hrun hdone
  rw [toChunkedArray_eq, flatten_chunks] at horder
  rw [getAssetsPairs_eq] at hpairs
  rw [hstate, foldl_updateAssetWithPairData, ← filterMap_of_mapM hpairs]
  exact ⟨_, rfl, horder.filterMap _⟩

/-- What the answer for a possible pair of an asset adds to the asset at a place. -/
theorem addedTo_possible (hasset : asset ∈ assetsWithNoPairs assets upToDate) (place : Nat)
    (protocol : Protocol) (coin pair : String) :
    addedTo config assets upToDate network place
        ⟨⟨coin, asset.1.address, protocol.address, protocol.name⟩, pair⟩ =
      if asset.2 = place then newPair config assets network asset.1
        ⟨⟨coin, asset.1.address, protocol.address, protocol.name⟩, pair⟩ else none := by
  rw [addedTo, assetsWithNoPairsMap_get hasset, Option.bind_some]

/-- The answers for an asset add its pairs, and nothing to another one. -/
theorem filterMap_addedTo (hasset : asset ∈ assetsWithNoPairs assets upToDate) (place : Nat) :
    ((buildPossibleAssetPairs config assets asset.1).filterMap fun assetPair =>
      ((network.getPair assetPair.factoryAddress assetPair.asset assetPair.baseAsset).map
        fun pair => ⟨assetPair, lowerCase pair⟩).bind
          (addedTo config assets upToDate network place)) =
      if asset.2 = place then pairsOf config assets network asset.1 else [] := by
  have hprotocol : ∀ protocol ∈ config.protocol,
      ((getPossibleAssetPairs (coinsFor config assets asset.1) protocol asset.1.address).filterMap
        fun assetPair =>
          ((network.getPair assetPair.factoryAddress assetPair.asset assetPair.baseAsset).map
            fun pair => ⟨assetPair, lowerCase pair⟩).bind
              (addedTo config assets upToDate network place)) =
        if asset.2 = place then (coinsFor config assets asset.1).filterMap
          (pairOn config assets network asset.1 protocol) else [] := by
    intro protocol _
    rw [getPossibleAssetPairs, List.filterMap_map]
    by_cases hplace : asset.2 = place
    · rw [if_pos hplace]
      refine List.filterMap_congr fun coin _ => ?_
      rw [Function.comp_apply, pairOn, Option.bind_map]
      refine Option.bind_congr fun pair _ => ?_
      rw [Function.comp_apply, addedTo_possible hasset, if_pos hplace]
    · rw [if_neg hplace]
      refine List.filterMap_eq_nil_iff.mpr fun coin _ => ?_
      rw [Function.comp_apply, Option.bind_map]
      refine Option.bind_eq_none_iff.mpr fun pair _ => ?_
      rw [Function.comp_apply, addedTo_possible hasset, if_neg hplace]
  rw [buildPossibleAssetPairs, List.filterMap_flatMap, List.flatMap_congr hprotocol]
  by_cases hplace : asset.2 = place
  · simp only [if_pos hplace, pairsOf]
  · simp only [if_neg hplace, List.flatMap_eq_nil_iff, implies_true]

/-! ## The prices job -/

theorem FindsPairs.found {memory : Memory} (H : FindsPairs config assets upToDate network memory)
    (hasset : asset ∈ assetsWithNoPairs assets upToDate) :
    (memory asset.2).Perm (pairsOf config assets network asset.1) := by
  obtain ⟨added, hmemory, hperm⟩ := H.added asset.2
  rw [assetsPairsArgs, List.filterMap_flatMap,
    flatMap_eq_of_nodup (nodup_addresses.of_map _) hasset fun asset' hasset' hne => ?_,
    filterMap_addedTo hasset, if_pos rfl] at hperm
  · rwa [hmemory, cleared_of_mem hasset, List.nil_append]
  · rw [filterMap_addedTo hasset', if_neg]
    exact fun hplace => hne (eq_of_place (mem_zipIdx_of_noPairs hasset')
      (mem_zipIdx_of_noPairs hasset) hplace)

theorem FindsPairs.kept {memory : Memory} (H : FindsPairs config assets upToDate network memory)
    (hasset : asset ∈ assets.zipIdx) (hold : asset ∉ assetsWithNoPairs assets upToDate) :
    memory asset.2 = asset.1.pairs := by
  obtain ⟨added, hmemory, hperm⟩ := H.added asset.2
  have hnone : (assetsPairsArgs config assets upToDate).filterMap (fun assetPair =>
      ((network.getPair assetPair.factoryAddress assetPair.asset assetPair.baseAsset).map
        fun pair => ⟨assetPair, lowerCase pair⟩).bind
          (addedTo config assets upToDate network asset.2)) = [] := by
    rw [assetsPairsArgs, List.filterMap_flatMap]
    refine List.flatMap_eq_nil_iff.mpr fun asset' hasset' => ?_
    rw [filterMap_addedTo hasset', if_neg]
    exact fun hplace => hold (eq_of_place (mem_zipIdx_of_noPairs hasset') hasset hplace ▸ hasset')
  rw [hnone] at hperm
  rw [hmemory, hperm.eq_nil, List.append_nil, cleared_of_notMem hasset hold]

/-- The reserves of every pair are there, so that a price is found exactly when those that it is
computed from are. -/
theorem succeeds_getTokenPrice_of_reserves {after : List AssetsApiDto}
    {reserves : UniswapReservesData}
    (hreserves : getPairsReserves network (getUniquePairAddresses after) = some reserves)
    {asset : AssetsApiDto} (hasset : asset ∈ after) {category : TokensCategories}
    {coinPriceMap : Option PriceMap} (hmap : category ≠ .base → coinPriceMap.isSome) :
    Succeeds (getTokenPrice config.toConfig (some asset.priced) reserves category coinPriceMap) ↔
      ∀ side ∈ liquidSides config.toConfig (known coinPriceMap) category reserves asset.priced,
        (side.partnerPrice config.toConfig (known coinPriceMap) category).isSome := by
  rw [succeeds_getTokenPrice hmap]
  refine ⟨Answerable.prices, fun h => ⟨fun pair hpair => ?_, h⟩⟩
  obtain ⟨pair, hmem, rfl⟩ := List.mem_map.mp hpair
  have haddress : pair.address ∈ getUniquePairAddresses after :=
    mem_unique.mpr (List.mem_flatMap.mpr ⟨asset, hasset, List.mem_map_of_mem hmem⟩)
  obtain ⟨r, -, hr⟩ := getPairsReserves_get hreserves haddress
  exact Option.isSome_of_mem hr

/-! ## What is found, by the factories and the assets -/

theorem mem_assetsWithNoPairs :
    asset ∈ assetsWithNoPairs assets upToDate ↔ LookedUp assets upToDate asset := by
  have hvalues : asset ∈ (buildAssetsMap assets).values ↔
      JsMap.lastWith (fun asset => asset.1.address) assets.zipIdx asset.1.address = some asset := by
    rw [← JsMap.get_ofEntries_self, JsMap.get_eq_some_iff (JsMap.nodup_keys_ofEntries _)]
    constructor
    · intro h
      obtain ⟨e, he, rfl⟩ := List.mem_map.mp h
      rw [← (mem_buildAssetsMap he).2]
      exact he
    · exact fun h => List.mem_map.mpr ⟨_, h, rfl⟩
  rw [assetsWithNoPairs, List.mem_filter, hvalues, LookedUp, Bool.or_eq_true, Bool.not_eq_true',
    List.isEmpty_iff]

/-- The base asset of a coin is the last one with its address. -/
theorem buildBaseAssetsMap_get {coin : String} :
    ((buildBaseAssetsMap config assets).get coin).map Prod.fst =
      if coin ∈ config.baseAssets then JsMap.lastWith AssetsApiDto.address assets coin
      else none := by
  have hzip : assets = assets.zipIdx.map Prod.fst := (List.zipIdx_map_fst 0 assets).symm
  rw [buildBaseAssetsMap, JsMap.get_ofEntries_self]
  split
  · next hbase =>
    conv => rhs; rw [hzip, JsMap.lastWith_map]
    congr 1
    rw [JsMap.lastWith, ← List.filter_reverse, List.find?_filter]
    refine List.find?_congr fun asset _ => ?_
    by_cases haddress : asset.1.address = coin
    · simp [haddress, hbase]
    · simp [haddress]
  · next hbase =>
    rw [Option.map_eq_none_iff, Option.eq_none_iff_forall_ne_some]
    intro asset hasset
    obtain ⟨rfl, hmem⟩ := JsMap.lastWith_eq_some hasset
    exact hbase (of_decide_eq_true (List.mem_filter.mp hmem).2)

theorem mem_keys_buildBaseAssetsMap {coin : String} :
    coin ∈ (buildBaseAssetsMap config assets).keys ↔
      coin ∈ config.baseAssets ∧ ∃ asset ∈ assets, asset.address = coin := by
  rw [buildBaseAssetsMap, JsMap.keys_ofEntries, mem_unique, List.map_map, List.mem_map]
  constructor
  · rintro ⟨asset, hasset, rfl⟩
    obtain ⟨hmem, hbase⟩ := List.mem_filter.mp hasset
    exact ⟨of_decide_eq_true hbase, asset.1, List.fst_mem_of_mem_zipIdx hmem, rfl⟩
  · rintro ⟨hbase, asset, hasset, rfl⟩
    obtain ⟨i, hi⟩ := List.mem_iff_getElem?.mp hasset
    exact ⟨(asset, i), List.mem_filter.mpr
      ⟨List.mem_zipIdx_iff_getElem?.mpr hi, decide_eq_true hbase⟩, rfl⟩

theorem partners_coinsFor (asset : AssetsApiDto) :
    Partners config assets asset.address (coinsFor config assets asset) := by
  rw [coinsFor]
  split
  · next hstable => exact .stable hstable
  · next hstable =>
    split
    · next hwhite => exact .whiteList hstable hwhite
    · next hwhite =>
      split
      · next hwrapped => exact .wrapped hstable hwhite hwrapped
      · next hwrapped =>
        refine .simple _ ?_ (JsMap.nodup_keys_ofEntries _) fun _ => mem_keys_buildBaseAssetsMap
        simp [Config.baseAssets, hstable, hwhite, hwrapped]

theorem pairOn_eq_some {asset : AssetsApiDto} {protocol : Protocol} {coin : String} {pair : Pair} :
    pairOn config assets network asset protocol coin = some pair ↔
      PairOn config assets network asset protocol coin pair := by
  have hbase : ∀ base, (∃ b, (buildBaseAssetsMap config assets).get coin = some b ∧ b.1 = base) ↔
      coin ∈ config.baseAssets ∧ JsMap.lastWith AssetsApiDto.address assets coin = some base := by
    intro base
    rw [← Option.map_eq_some_iff, buildBaseAssetsMap_get]
    split <;> simp [*]
  constructor
  · intro h
    obtain ⟨created, hcreated, h⟩ := Option.bind_eq_some_iff.mp h
    rw [newPair] at h
    split at h
    · cases h
    next hzero =>
    obtain ⟨stable, hstable, h⟩ := Option.bind_eq_some_iff.mp h
    obtain ⟨token0, htoken0, h⟩ := Option.bind_eq_some_iff.mp h
    cases h
    obtain ⟨hcoin, hlast⟩ := (hbase _).mp ⟨stable, hstable, rfl⟩
    exact ⟨⟨created, hcreated, rfl⟩, hzero, rfl, hcoin, ⟨_, hlast, rfl⟩, ⟨rfl, rfl, rfl⟩,
      ⟨token0, htoken0, rfl, rfl⟩⟩
  · rintro ⟨⟨created, hcreated, haddress⟩, hzero, htype, hcoin, ⟨base, hlast, hdecimals⟩,
      ⟨hcoin', hasset', hdecimals'⟩, token0, htoken0, hfirst, hsecond⟩
    obtain ⟨stable, hstable, rfl⟩ := (hbase base).mpr ⟨hcoin, hlast⟩
    rw [haddress] at hzero htoken0
    rw [pairOn, hcreated]
    simp only [Option.bind_eq_bind, Option.bind_some, newPair, if_neg hzero, hstable, htoken0]
    obtain ⟨⟨address, ⟨coin', position, decimals⟩, ⟨asset', position', decimals'⟩⟩, type⟩ := pair
    simp_all

/-- The pairs that are added for an asset are those that there are. -/
theorem hasPairs_pairsOf {asset : AssetsApiDto} {pairs : List Pair}
    (h : pairs.Perm (pairsOf config assets network asset)) :
    HasPairs config assets network asset pairs := by
  refine ⟨_, _, partners_coinsFor asset, collects_filterMap _ fun _ _ => pairOn_eq_some,
    h.trans (.of_eq ?_)⟩
  rw [pairsOf, SProd.sprod, List.instSProd]
  simp only [List.product, List.filterMap_flatMap, List.filterMap_map]
  rfl

/-- In whatever order the calls are answered, every asset without pairs, or with old ones, gets the
pairs that there are, those with some are saved, and the others keep theirs. Then no price is missed
for want of reserves. -/
theorem findsPairs {memory : Memory} (H : FindsPairs config assets upToDate network memory) :
    (∀ asset, LookedUp assets upToDate asset →
        HasPairs config assets network asset.1 (memory asset.2)) ∧
      (∀ asset ∈ assets.zipIdx, ¬ LookedUp assets upToDate asset →
        memory asset.2 = asset.1.pairs) ∧
      (∀ saved, saved ∈ assetsToUpdate assets upToDate memory ↔ ∃ asset,
        LookedUp assets upToDate asset ∧ memory asset.2 ≠ [] ∧
          saved = { asset.1 with pairs := memory asset.2 }) ∧
      ∀ reserves, getPairsReserves network (getUniquePairAddresses (withPairs assets memory)) =
          some reserves →
        ∀ asset ∈ withPairs assets memory,
          (∀ pair ∈ asset.pairs, ∃ r, network.getReserves pair.address = some r ∧
            reserves.get pair.address = some r) ∧
          ∀ category coinPriceMap, (category ≠ .base → coinPriceMap.isSome) →
            (Succeeds (getTokenPrice config.toConfig (some asset.priced) reserves category
                coinPriceMap) ↔
              ∀ side ∈ liquidSides config.toConfig (known coinPriceMap) category reserves
                  asset.priced,
                (side.partnerPrice config.toConfig (known coinPriceMap) category).isSome) := by
  refine ⟨fun _ hasset => ?_, fun asset hasset hold => ?_, fun saved => ?_,
    fun reserves hreserves asset hasset => ⟨?_, ?_⟩⟩
  · exact hasPairs_pairsOf (H.found (mem_assetsWithNoPairs.mpr hasset))
  · exact H.kept hasset fun hnew => hold (mem_assetsWithNoPairs.mp hnew)
  · rw [assetsToUpdate, List.mem_filter, List.mem_map]
    constructor
    · rintro ⟨⟨asset, hasset, rfl⟩, hpairs⟩
      exact ⟨asset, mem_assetsWithNoPairs.mp hasset, by simpa using hpairs, rfl⟩
    · rintro ⟨asset, hasset, hpairs, rfl⟩
      exact ⟨⟨asset, mem_assetsWithNoPairs.mpr hasset, rfl⟩, by simpa using hpairs⟩
  · intro pair hpair
    exact getPairsReserves_get hreserves
      (mem_unique.mpr (List.mem_flatMap.mpr ⟨asset, hasset, List.mem_map_of_mem hpair⟩))
  · exact fun _ _ => succeeds_getTokenPrice_of_reserves hreserves hasset

end

/-! ## A run -/

def sampleConfig : Config where
  stableCoins := ["0xusdt"]
  whiteListCoins := []
  wrappedCoin := "0xweth"
  liquidityLimit := 1
  chainId := 1
  currencyId := 1
  protocol := [⟨"sushi", "0xfactory"⟩]

def sampleCoin : AssetsApiDto := ⟨"0xweth", 1, some 18, [], ""⟩

def sampleAssets : List AssetsApiDto := [sampleCoin, ⟨"0xusdt", 1, some 6, [], ""⟩]

/-- The one pair of the two coins is asked for by both. -/
def sampleNetwork : Network where
  getPair _ _ _ := some "0xPAIR"
  token0 _ := some "0xWETH"
  getReserves _ := some ⟨1, 2, 3⟩

def sampleData : List AssetPairData :=
  [⟨⟨"0xusdt", "0xweth", "0xfactory", "sushi"⟩, "0xpair"⟩,
    ⟨⟨"0xweth", "0xusdt", "0xfactory", "sushi"⟩, "0xpair"⟩]

/-- The answers come in the other order. -/
def sampleMemory : Memory :=
  sampleData.reverse.foldl
    (updateAssetWithPairData sampleConfig sampleAssets (fun _ => true) sampleNetwork)
    (cleared sampleAssets fun _ => true)

theorem sampleMemory_finds :
    FindsPairs sampleConfig sampleAssets (fun _ => true) sampleNetwork sampleMemory := by
  refine ⟨sampleData, [.begin, .answer 1, .answer 0], ⟨[], [], sampleMemory⟩, ?_, ?_, ⟨rfl, rfl⟩,
    rfl⟩
  · rw [getAssetsPairs_eq]
    rfl
  · have hsize : PNat.natPred 100 = 98 + 1 := rfl
    have hchunks : toChunkedArray sampleData 100 = [sampleData] := by
      rw [toChunkedArray_eq, sampleData, chunks, hsize, List.take_succ_cons, List.take_nil,
        List.drop_succ_cons, List.drop_nil, chunks]
    rw [updateAssetsWithPairData, hchunks]
    rfl

theorem findsPairs_sample :
    HasPairs sampleConfig sampleAssets sampleNetwork sampleCoin (sampleMemory 0) ∧
      (sampleMemory 0).map (·.address) = ["0xpair"] :=
  ⟨(findsPairs sampleMemory_finds).1 (sampleCoin, 0) ⟨rfl, .inl rfl⟩,
    by decide +kernel⟩

end AssetPairs
end Jobs
end DefiBackend
