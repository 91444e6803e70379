import DefiBackend.Common.Address
import DefiBackend.Common.CacheKey
import DefiBackend.Common.JsMap
import DefiBackend.Theory.KeyValue
import DefiBackend.Theory.Run
import Mathlib.Algebra.BigOperators.Group.List.Basic
import Mathlib.Algebra.Ring.Rat

/-! # Source prices of assets

`PriceService.saveAssetPrices` of `apps/assets`, called by the jobs of the price sources.

* The prices of all sources for an asset are one cache item, which a call reads, rebuilds and
  writes back; the average is another item. `PriceMapKey.sourceText_inj` and its neighbours let the
  two kinds of items stand in two stores.
* `step` is the system: any number of calls, of different sources, each awaited cache operation
  being one step. Time passes, and items whose time is over may disappear.
* Prices are exact; an empty price is `0`. -/

namespace DefiBackend
namespace Assets
open Theory

structure AssetPrice where
  sourceId : Nat
  chainId : Nat
  address : Address
  price : ℚ
  deriving DecidableEq

structure SourceAssetPrice where
  sourceId : Nat
  price : ℚ
  timestamp : Nat
  deriving DecidableEq

/-- `AvgPrice`. -/
structure AvgPrice where
  price : ℚ
  reserves : Option (List String)
  deriving DecidableEq

/-! ## Keys -/

/-- `getPriceMapKey`: a chain and an address in lower case. -/
structure PriceMapKey where
  chain : Nat
  lower : Address
  deriving DecidableEq

def getPriceMapKey (price : AssetPrice) : PriceMapKey := ⟨price.chainId, lowerCase price.address⟩

namespace PriceMapKey

/-- `getSourcePricesCacheKey`. -/
def sourceText (key : PriceMapKey) : String :=
  "asset_source_prices_" ++ keyField key.chain key.lower

/-- `getAvgPriceCacheKey`. -/
def avgText (key : PriceMapKey) : String := "asset_avg_price_" ++ keyField key.chain key.lower

theorem sourceText_inj {key key' : PriceMapKey} :
    key.sourceText = key'.sourceText ↔ key = key' := by
  unfold sourceText
  rw [String.append_right_inj, keyField_inj]
  cases key
  cases key'
  rw [PriceMapKey.mk.injEq]

theorem avgText_inj {key key' : PriceMapKey} : key.avgText = key'.avgText ↔ key = key' := by
  unfold avgText
  rw [String.append_right_inj, keyField_inj]
  cases key
  cases key'
  rw [PriceMapKey.mk.injEq]

theorem sourceText_ne_avgText (key key' : PriceMapKey) : key.sourceText ≠ key'.avgText := by
  intro h
  unfold sourceText avgText at h
  -- the first character after their common beginning
  have hchar := congrArg (·.toList[6]?) h
  rw [String.toList_append, String.toList_append, List.getElem?_append_left (by decide),
    List.getElem?_append_left (by decide)] at hchar
  exact absurd hchar (by decide)

end PriceMapKey

/-! ## The functions of the service -/

/-- `updatePrices`: the prices of an asset with the new one in place of its source's, and without
those that have expired. An empty price changes nothing. -/
def updatePrices (prices : List SourceAssetPrice) (updatedPrice : Option AssetPrice)
    (expiredAt now : Nat) : List SourceAssetPrice :=
  match updatedPrice with
  | none => prices
  | some updatedPrice =>
    if updatedPrice.price = 0 then prices
    else
      prices.filter (fun p => p.sourceId ≠ updatedPrice.sourceId ∧ p.timestamp ≥ expiredAt) ++
        [{ price := updatedPrice.price, sourceId := updatedPrice.sourceId, timestamp := now }]

/-- The mean of a list that is not empty. -/
def mean (prices : List SourceAssetPrice) : ℚ :=
  (prices.map SourceAssetPrice.price).sum / prices.length

/-- `calculateAveragePrice`, none where the code has `null`. -/
def calculateAveragePrice (prices : List SourceAssetPrice) : Option ℚ :=
  if prices.length ≠ 0 then some (mean prices) else none

/-- A job of a price source, which has fetched some prices. -/
structure SourceJob where
  sourceId : Nat
  prices : List AssetPrice
  source_eq : ∀ p ∈ prices, p.sourceId = sourceId

namespace SourceJob
variable (job : SourceJob)

def keys : List PriceMapKey := job.prices.map getPriceMapKey

/-- `createPriceMap`. -/
def priceMap : JsMap PriceMapKey AssetPrice :=
  .ofEntries (job.prices.map fun price => (getPriceMapKey price, price))

/-- The lists that the call makes of the cached ones. A missing one counts as empty. -/
def updatedPrices (cached : PriceMapKey → Option (List SourceAssetPrice)) (expiredAt now : Nat)
    (key : PriceMapKey) : List SourceAssetPrice :=
  updatePrices ((cached key).getD []) (job.priceMap.get key) expiredAt now

end SourceJob

/-! ## The system -/

/-- A cache item. -/
structure Item (β : Type) where
  value : β
  expiresAt : Nat

/-- Where a call stands: before one of its three awaited cache operations, or at its end. It has the
lists it has read, and those it has made of them. -/
inductive Stage
  | reading (expiredAt : Nat)
  | writing (cached : PriceMapKey → Option (List SourceAssetPrice))
      (updated : PriceMapKey → List SourceAssetPrice)
  | averaging (updated : PriceMapKey → List SourceAssetPrice)
  | done

structure Call where
  job : SourceJob
  stage : Stage

/-- The cache, the calls by their sources, and the time. -/
structure State where
  sources : Store PriceMapKey (Item (List SourceAssetPrice))
  averages : Store PriceMapKey (Item AvgPrice)
  calls : Store Nat Call
  now : Nat

inductive Action
  | start (job : SourceJob)
  | read (source : Nat)
  | writeSources (source : Nat)
  | writeAverages (source : Nat)
  | tick (duration : Nat)
  | expireSources (key : PriceMapKey)
  | expireAverage (key : PriceMapKey)

/-- The cached lists. -/
def State.cached (s : State) (key : PriceMapKey) : Option (List SourceAssetPrice) :=
  (s.sources key).map Item.value

/-- The items of the lists that are not empty. -/
def sourceItems (keys : List PriceMapKey) (updated : PriceMapKey → List SourceAssetPrice)
    (expiresAt : Nat) : List (PriceMapKey × Item (List SourceAssetPrice)) :=
  (keys.filter fun key => (updated key).length > 0).map fun key => (key, ⟨updated key, expiresAt⟩)

/-- The items of the averages that are not empty. -/
def avgItems (keys : List PriceMapKey) (updated : PriceMapKey → List SourceAssetPrice)
    (expiresAt : Nat) : List (PriceMapKey × Item AvgPrice) :=
  keys.filterMap fun key =>
    match calculateAveragePrice (updated key) with
    | some price => if price ≠ 0 then some (key, ⟨⟨price, none⟩, expiresAt⟩) else none
    | none => none

/-- The steps of `saveAssetPrices`, with `ttl` the time to live in milliseconds. -/
def step (ttl : Nat) (s : State) : Action → Option State
  | .start job =>
    match s.calls job.sourceId with
    | some _ => none
    | none => some { s with calls := s.calls.set job.sourceId ⟨job, .reading (s.now - ttl)⟩ }
  | .read source =>
    match s.calls source with
    | some ⟨job, .reading expiredAt⟩ =>
      let updated := job.updatedPrices s.cached expiredAt s.now
      some { s with calls := s.calls.set source ⟨job, .writing s.cached updated⟩ }
    | _ => none
  | .writeSources source =>
    match s.calls source with
    | some ⟨job, .writing _ updated⟩ =>
      some { s with
        sources := s.sources.mset (sourceItems job.keys updated (s.now + ttl))
        calls := s.calls.set source ⟨job, .averaging updated⟩ }
    | _ => none
  | .writeAverages source =>
    match s.calls source with
    | some ⟨job, .averaging updated⟩ =>
      some { s with
        averages := s.averages.mset (avgItems job.keys updated (s.now + ttl))
        calls := s.calls.set source ⟨job, .done⟩ }
    | _ => none
  | .tick duration => some { s with now := s.now + duration }
  | .expireSources key =>
    match s.sources key with
    | some item =>
      if item.expiresAt ≤ s.now then some { s with sources := s.sources.erase key } else none
    | none => none
  | .expireAverage key =>
    match s.averages key with
    | some item =>
      if item.expiresAt ≤ s.now then some { s with averages := s.averages.erase key } else none
    | none => none

end Assets
end DefiBackend
