import DefiBackend.Common.JsMap
import DefiBackend.Price.EmptyRequests

/-! # Prices of an hour

`cachePricesFor24HourReturns` and `getPricesAtTimestamp`: prices are stored under the nearest hour
and read by the nearest hour of a timestamp. The reader leaves a price out if its address in lower
case is not among the requested ones.

* `get_getPricesAtTimestamp`: what the reader finds of what was stored for its hour;
* `roundTrip_iff`: when that is what was stored.

Times are in milliseconds and timestamps in seconds. The time zone is that of whole hours. -/

namespace DefiBackend
namespace Price
namespace HourlyPrices
open Theory

abbrev HistoricCache := Store String PriceRequestCurrentDto

/-- `roundToNearestHour`. -/
def roundToNearestHour (date : ℤ) : ℤ := (date + 1800000) / 3600000 * 3600000

/-- `dateToTimestamp`: `>> 0` cuts the fraction off and keeps 32 bits. -/
def dateToTimestamp (date : ℤ) : ℤ := Int.bmod (Int.tdiv date 1000) (2 ^ 32)

def cachePricesFor24HourReturns (cache : HistoricCache) (now : ℤ)
    (prices : List PriceRequestCurrentDto) : HistoricCache :=
  let nearestTimeStamp := dateToTimestamp (roundToNearestHour now)
  let cacheItems := prices.map fun price => (price.key.historicText nearestTimeStamp, price)
  cache.mset cacheItems

def getRawPriceRequests (cache : HistoricCache) (chain currency : Nat) (timestamp : ℤ)
    (assets : List Address) : List PriceRequestCurrentDto :=
  assets.filterMap fun asset => cache ((PriceKey.mk chain currency asset).historicText timestamp)

/-- The prices of the response of `getPricesAtTimestamp`. -/
def getPricesAtTimestamp (cache : HistoricCache) (assets : List Address) (timestamp : ℤ)
    (chain currency : Nat) : JsMap Address (Option ℚ) :=
  let time := dateToTimestamp (roundToNearestHour (timestamp * 1000))
  let data := getRawPriceRequests cache chain currency time assets
  .ofEntries ((data.filter fun token => lowerCase token.address ∈ assets).map fun token =>
    (token.address, token.price))

/-- The cache of `updateCurrentPrice`, whose time is in seconds. -/
theorem historic_cachePrices (s : PriceState) (prices : List PriceRequestCurrentDto) :
    (s.cachePricesFor24HourReturns prices).historic =
      cachePricesFor24HourReturns s.historic (1000 * s.db.now) prices := by
  have htime : dateToTimestamp (roundToNearestHour (1000 * s.db.now)) =
      Price.dateToTimestamp (Price.roundToNearestHour s.db.now) := by
    have hseconds : roundToNearestHour (1000 * s.db.now) =
        1000 * (Price.roundToNearestHour s.db.now : ℤ) := by
      unfold roundToNearestHour Price.roundToNearestHour
      omega
    rw [dateToTimestamp, hseconds, Int.mul_tdiv_cancel_left _ (by decide)]
    rfl
  rw [cachePricesFor24HourReturns, htime]
  rfl

/-! ## The round trip -/

/-- The last price that a list gives for a key. -/
def lastPrice (prices : List PriceRequestCurrentDto) (key : PriceKey) :
    Option PriceRequestCurrentDto :=
  JsMap.lastWith PriceRequestCurrentDto.key prices key

/-- A list gives a price for a key. -/
def Given (prices : List PriceRequestCurrentDto) (key : PriceKey) : Prop :=
  ∃ price ∈ prices, price.key = key

/-- Each requested asset that was in the list comes back with the last price that the list gave for
it, and nothing else comes back. -/
def RoundTrip (cache : HistoricCache) (now : ℤ) (prices : List PriceRequestCurrentDto)
    (assets : List Address) (timestamp : ℤ) (chain currency : Nat) : Prop :=
  ∀ address, (getPricesAtTimestamp (cachePricesFor24HourReturns cache now prices) assets timestamp
    chain currency).get address =
      if address ∈ assets then
        (lastPrice prices ⟨chain, currency, address⟩).map PriceRequestCurrentDto.price
      else none

theorem historicText_inj {key key' : PriceKey} {timestamp : ℤ} :
    key.historicText timestamp = key'.historicText timestamp ↔ key = key' := by
  obtain ⟨chain, currency, address⟩ := key
  obtain ⟨chain', currency', address'⟩ := key'
  simp [PriceKey.historicText, keyField_inj]

theorem lastPrice_address {prices : List PriceRequestCurrentDto} {chain currency : Nat}
    {address : Address} (h : lastPrice prices ⟨chain, currency, address⟩ = some price) :
    price.address = address :=
  congrArg PriceKey.address (JsMap.lastWith_eq_some h).1

theorem given_iff {prices : List PriceRequestCurrentDto} {key : PriceKey} :
    Given prices key ↔ ∃ price, lastPrice prices key = some price := by
  constructor
  · rintro ⟨price, hprice, rfl⟩
    exact JsMap.exists_lastWith PriceRequestCurrentDto.key hprice
  · rintro ⟨price, hlast⟩
    obtain ⟨hkey, hprice⟩ := JsMap.lastWith_eq_some hlast
    exact ⟨price, hprice, hkey⟩

section
variable {cache : HistoricCache} {now timestamp : ℤ} {prices : List PriceRequestCurrentDto}
  {assets : List Address} {chain currency : Nat}

/-- The cache after the prices have been stored, under a key of their hour. -/
theorem cachePrices_apply (cache : HistoricCache) (now : ℤ) (prices : List PriceRequestCurrentDto)
    (key : PriceKey) :
    cachePricesFor24HourReturns cache now prices
      (key.historicText (dateToTimestamp (roundToNearestHour now))) =
        (lastPrice prices key).or
          (cache (key.historicText (dateToTimestamp (roundToNearestHour now)))) := by
  unfold cachePricesFor24HourReturns
  rw [Store.mset_apply, ← JsMap.get_ofEntries, JsMap.get_ofEntries_self]
  rw [lastPrice, ← JsMap.lastWith_congr fun price _ => historicText_inj]

/-- What the reader gets for a requested asset is the last price for it. -/
theorem getRawPriceRequests_eq
    (hhour : roundToNearestHour (timestamp * 1000) = roundToNearestHour now)
    (hfresh : ∀ asset ∈ assets, cache ((PriceKey.mk chain currency asset).historicText
      (dateToTimestamp (roundToNearestHour now))) = none) :
    getRawPriceRequests (cachePricesFor24HourReturns cache now prices) chain currency
      (dateToTimestamp (roundToNearestHour (timestamp * 1000))) assets =
        assets.filterMap fun asset => lastPrice prices ⟨chain, currency, asset⟩ := by
  apply List.filterMap_congr
  intro asset hasset
  rw [hhour, cachePrices_apply, hfresh asset hasset, Option.or_none]

theorem get_getPricesAtTimestamp
    (hhour : roundToNearestHour (timestamp * 1000) = roundToNearestHour now)
    (hfresh : ∀ asset ∈ assets, cache ((PriceKey.mk chain currency asset).historicText
      (dateToTimestamp (roundToNearestHour now))) = none) (address : Address) :
    (getPricesAtTimestamp (cachePricesFor24HourReturns cache now prices) assets timestamp
      chain currency).get address =
        if address ∈ assets ∧ lowerCase address ∈ assets then
          (lastPrice prices ⟨chain, currency, address⟩).map PriceRequestCurrentDto.price
        else none := by
  have htokens : ∀ token, token ∈ ((assets.filterMap fun asset =>
      lastPrice prices ⟨chain, currency, asset⟩).filter fun token =>
        lowerCase token.address ∈ assets) ↔ token.address ∈ assets ∧
          lowerCase token.address ∈ assets ∧
            lastPrice prices ⟨chain, currency, token.address⟩ = some token := by
    intro token
    rw [List.mem_filter, List.mem_filterMap, decide_eq_true_eq]
    constructor
    · rintro ⟨⟨asset, hasset, hlast⟩, hlower⟩
      cases lastPrice_address hlast
      exact ⟨hasset, hlower, hlast⟩
    · rintro ⟨hasset, hlower, hlast⟩
      exact ⟨⟨token.address, hasset, hlast⟩, hlower⟩
  unfold getPricesAtTimestamp
  dsimp only
  rw [getRawPriceRequests_eq hhour hfresh, JsMap.get_ofEntries_map]
  cases hfound : JsMap.lastWith PriceRequestCurrentDto.address ((assets.filterMap fun asset =>
      lastPrice prices ⟨chain, currency, asset⟩).filter fun token =>
        lowerCase token.address ∈ assets) address with
  | some token =>
    obtain ⟨rfl, hmem⟩ := JsMap.lastWith_eq_some hfound
    obtain ⟨hasset, hlower, hlast⟩ := (htokens token).mp hmem
    rw [if_pos ⟨hasset, hlower⟩, hlast]
  | none =>
    split
    · next h =>
      cases hlast : lastPrice prices ⟨chain, currency, address⟩ with
      | none => rfl
      | some token =>
        cases lastPrice_address hlast
        obtain ⟨other, hother⟩ := JsMap.exists_lastWith PriceRequestCurrentDto.address
          ((htokens token).mpr ⟨h.1, h.2, hlast⟩)
        rw [hfound] at hother
        cases hother
    · rfl

/-- The prices come back when each requested asset that was in the list is also requested in lower
case. -/
theorem roundTrip_iff
    (hhour : roundToNearestHour (timestamp * 1000) = roundToNearestHour now)
    (hfresh : ∀ asset ∈ assets, cache ((PriceKey.mk chain currency asset).historicText
      (dateToTimestamp (roundToNearestHour now))) = none) :
    RoundTrip cache now prices assets timestamp chain currency ↔
      ∀ asset ∈ assets, Given prices ⟨chain, currency, asset⟩ → lowerCase asset ∈ assets := by
  apply forall_congr'
  intro address
  rw [get_getPricesAtTimestamp hhour hfresh]
  by_cases hasset : address ∈ assets
  · rw [if_pos hasset, given_iff]
    by_cases hlower : lowerCase address ∈ assets
    · rw [if_pos ⟨hasset, hlower⟩]
      exact iff_of_true rfl fun _ _ => hlower
    · rw [if_neg fun h => hlower h.2]
      constructor
      · intro h _ ⟨price, hlast⟩
        rw [hlast] at h
        cases h
      · intro h
        cases hlast : lastPrice prices ⟨chain, currency, address⟩ with
        | none => rfl
        | some price => exact absurd (h hasset ⟨price, hlast⟩) hlower
  · rw [if_neg hasset, if_neg fun h => hasset h.1]
    exact iff_of_true rfl fun h => absurd h hasset

end

/-! ## Addresses with and without capital letters -/

/-- A quarter to an hour. -/
def sampleTime : ℤ := 1633329900000

def samplePrices (address : Address) : List PriceRequestCurrentDto :=
  [⟨address, some 3, 1, 1, none⟩, ⟨address, some 4, 1, 1, none⟩]

/-- Just before half past the hour, the last price of an address without capital letters is found.
-/
theorem roundTrip_lower :
    RoundTrip Store.empty sampleTime (samplePrices "0xab") ["0xab"] 1633332599 1 1 := by
  refine (roundTrip_iff (by decide) fun _ _ => rfl).mpr fun asset hasset _ => ?_
  cases List.mem_singleton.mp hasset
  decide

/-- A price of an address with capital letters is not found. -/
theorem not_roundTrip_capital :
    ¬ RoundTrip Store.empty sampleTime (samplePrices "So1") ["So1"] 1633330800 1 1 := by
  intro h
  have hnone : (getPricesAtTimestamp (cachePricesFor24HourReturns Store.empty sampleTime
      (samplePrices "So1")) ["So1"] 1633330800 1 1).get "So1" = none := by decide +kernel
  have hsome := h "So1"
  rw [hnone] at hsome
  revert hsome
  decide +kernel

end HourlyPrices
end Price
end DefiBackend
