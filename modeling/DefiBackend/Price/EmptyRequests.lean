import DefiBackend.Price.PriceCoherence

/-! # Requests without a price

`updateCurrentPrice` as one call after the other, with both of its caches and its failures. Requests
without a price are left out of what goes to the caches at first, and not of what goes to the
database.

* A missing price, `null` and `NaN` are one missing price: none of them is a value of the column.
* `leavesNoTrace_iff`: when the call succeeds with the effect of its requests that have a price.

The two kinds of keys start with different words and stand in two stores. -/

namespace DefiBackend
namespace Price
open Theory

/-! ## The call -/

/-- `roundToNearestHour`, of a time in seconds. -/
def roundToNearestHour (date : Nat) : Nat := (date + 1800) / 3600 * 3600

/-- `dateToTimestamp`: `>> 0` keeps 32 bits. -/
def dateToTimestamp (date : Nat) : ℤ := Int.bmod date (2 ^ 32)

/-- `getHistoricCacheKey`. -/
def PriceKey.historicText (key : PriceKey) (timestamp : ℤ) : String :=
  "historic_price_" ++
    keyField key.chain (keyField key.currency (toString timestamp ++ "_" ++ key.address))

structure PriceState where
  db : Database
  cache : Cache
  historic : Store String PriceRequestCurrentDto

namespace PriceState
variable (s : PriceState)

def updatePricesInCache (prices : List PriceRequestCurrentDto) : PriceState :=
  let cacheItems := prices.map fun price => (price.key.text, CacheEntry.request price)
  { s with cache := s.cache.mset cacheItems }

def cachePricesFor24HourReturns (prices : List PriceRequestCurrentDto) : PriceState :=
  let nearestTimeStamp := dateToTimestamp (roundToNearestHour s.db.now)
  let cacheItems := prices.map fun price => (price.key.historicText nearestTimeStamp, price)
  { s with historic := s.historic.mset cacheItems }

/-- The missing assets are saved, if there are any. -/
def savePriceAssets (dtoForMissingAssets : List PriceRequestCurrentDto) : PriceState × List Asset :=
  if dtoForMissingAssets.length ≠ 0 then
    ({ s with db := s.db.savePriceAssets dtoForMissingAssets },
      newAssets dtoForMissingAssets s.db.nextId)
  else (s, [])

/-- The saved prices, also in the cache. -/
def saveCurrentPrices (prices : List AssociatedAssetPrice) (rows : List SavedPrice) : PriceState :=
  { s with
    db := s.db.savePrices rows
    cache := s.cache.mset ((finalSets prices rows).map fun (key, value) =>
      (key.text, .price key.address (some value))) }

end PriceState

structure UpdateOutcome where
  state : PriceState
  succeeded : Bool

/-- The part of `updateCurrentPrice` that associates the assets with prices and saves these. -/
def PriceState.saveAssociatedPrices (s : PriceState) (assets : List Asset)
    (requests : List PriceRequestCurrentDto) : UpdateOutcome :=
  match getAssociatedAssetsPrices assets requests with
  | none => ⟨s, false⟩
  | some prices =>
    -- one statement for all prices: a missing one fails it
    match s.db.savedRows prices with
    | none => ⟨s, false⟩
    | some rows => ⟨s.saveCurrentPrices prices rows, true⟩

def updateCurrentPrice (s : PriceState) (requests : List PriceRequestCurrentDto) : UpdateOutcome :=
  let notEmptyRequests := requests.filter PriceRequestCurrentDto.notEmpty
  let s := s.updatePricesInCache notEmptyRequests
  let s := s.cachePricesFor24HourReturns notEmptyRequests
  -- the condition of no requests is empty, and the statement fails
  if requests = [] then ⟨s, false⟩
  else
    let foundAssets := s.db.findAssets requests
    let added := s.savePriceAssets (dtoForMissingAssets requests foundAssets)
    added.1.saveAssociatedPrices (foundAssets ++ added.2) requests

/-! ## The law -/

/-- The call is made at a certain time. -/
def PriceState.atTime (s : PriceState) (now : Nat) : PriceState :=
  { s with db := { s.db with now := now } }

/-- At whatever time the call is made, it succeeds, and the table of prices and the caches are as
after a call with those requests that have a price. -/
def LeavesNoTrace (s : PriceState) (requests : List PriceRequestCurrentDto) : Prop :=
  ∀ now,
    let outcome := updateCurrentPrice (s.atTime now) requests
    let priced := updateCurrentPrice (s.atTime now)
      (requests.filter PriceRequestCurrentDto.notEmpty)
    outcome.succeeded = true ∧ outcome.state.db.prices = priced.state.db.prices ∧
      outcome.state.cache = priced.state.cache ∧ outcome.state.historic = priced.state.historic

/-- Requests without a price are for known assets only, and for each of these a request with a price
comes first. -/
structure PricedFirst (db : Database) (requests : List PriceRequestCurrentDto) : Prop where
  ne_nil : requests ≠ []
  known : ∀ asset ∈ db.assets, ∀ dto, requests.find? (isOf · asset) = some dto → dto.notEmpty
  unknown : ∀ dto ∈ requests, (∀ asset ∈ db.assets, ¬ isOf dto asset) → dto.notEmpty

/-! ## The assets of a call -/

variable {s : PriceState} {db : Database} {requests : List PriceRequestCurrentDto}

/-- The rows of `prices.asset` that a call saves prices for. -/
def relatedAssets (db : Database) (requests : List PriceRequestCurrentDto) : List Asset :=
  db.findAssets requests ++
    newAssets (dtoForMissingAssets requests (db.findAssets requests)) db.nextId

theorem mem_findAssets {asset : Asset} : asset ∈ db.findAssets requests ↔
    asset ∈ db.assets ∧ ∃ dto ∈ requests, isOf dto asset := by
  rw [Database.findAssets, List.mem_filter, List.any_eq_true]

/-- A request misses its asset among the found ones if there is none. -/
theorem dtoForMissingAssets_eq (db : Database) (requests : List PriceRequestCurrentDto) :
    dtoForMissingAssets requests (db.findAssets requests) =
      requests.filter fun dto => !db.assets.any (isOf dto) := by
  refine List.filter_congr fun dto hdto => congrArg not ?_
  rw [Bool.eq_iff_iff, List.any_eq_true, List.any_eq_true]
  constructor
  · rintro ⟨asset, hasset, hof⟩
    exact ⟨asset, (mem_findAssets.mp hasset).1, hof⟩
  · rintro ⟨asset, hasset, hof⟩
    exact ⟨asset, mem_findAssets.mpr ⟨hasset, dto, hdto, hof⟩, hof⟩

theorem ordered_relatedAssets (db : Database) (requests : List PriceRequestCurrentDto) :
    (relatedAssets db requests).Pairwise fun a b => a.id < b.id := by
  refine List.pairwise_append.mpr
    ⟨db.ordered.sublist List.filter_sublist, ordered_newAssets _ _, fun a ha b hb => ?_⟩
  exact (db.bounded a (mem_findAssets.mp ha).1).trans_le (le_id_of_mem_newAssets hb).1

theorem savePriceAssets_snd (s : PriceState) (missing : List PriceRequestCurrentDto) :
    (s.savePriceAssets missing).2 = newAssets missing s.db.nextId := by
  cases missing <;> rfl

theorem savePriceAssets_prices (s : PriceState) (missing : List PriceRequestCurrentDto) :
    (s.savePriceAssets missing).1.db.prices = s.db.prices := by
  cases missing <;> rfl

theorem savePriceAssets_now (s : PriceState) (missing : List PriceRequestCurrentDto) :
    (s.savePriceAssets missing).1.db.now = s.db.now := by
  cases missing <;> rfl

/-- The state with the requests in the caches and the missing assets in the database. -/
def addedState (s : PriceState) (requests : List PriceRequestCurrentDto) : PriceState :=
  let notEmptyRequests := requests.filter PriceRequestCurrentDto.notEmpty
  (((s.updatePricesInCache notEmptyRequests).cachePricesFor24HourReturns
    notEmptyRequests).savePriceAssets
      (dtoForMissingAssets requests (s.db.findAssets requests))).1

theorem addedState_prices (s : PriceState) (requests : List PriceRequestCurrentDto) :
    (addedState s requests).db.prices = s.db.prices := savePriceAssets_prices ..

theorem addedState_now (s : PriceState) (requests : List PriceRequestCurrentDto) :
    (addedState s requests).db.now = s.db.now := savePriceAssets_now ..

theorem updateCurrentPrice_eq (s : PriceState) (h : requests ≠ []) :
    updateCurrentPrice s requests =
      (addedState s requests).saveAssociatedPrices (relatedAssets s.db requests) requests := by
  rw [updateCurrentPrice, if_neg h]
  simp only [savePriceAssets_snd]
  rfl

/-- How a call ends. -/
theorem updateCurrentPrice_cases (s : PriceState) (requests : List PriceRequestCurrentDto) :
    ((updateCurrentPrice s requests).succeeded = false ∧
      (updateCurrentPrice s requests).state.db.prices = s.db.prices) ∨
    (requests ≠ [] ∧ ∃ prices rows,
      getAssociatedAssetsPrices (relatedAssets s.db requests) requests = some prices ∧
      (addedState s requests).db.savedRows prices = some rows ∧
      updateCurrentPrice s requests =
        ⟨(addedState s requests).saveCurrentPrices prices rows, true⟩) := by
  by_cases hne : requests = []
  · subst hne
    exact .inl ⟨rfl, rfl⟩
  rw [updateCurrentPrice_eq s hne, PriceState.saveAssociatedPrices]
  cases hprices : getAssociatedAssetsPrices (relatedAssets s.db requests) requests with
  | none => exact .inl ⟨rfl, addedState_prices s requests⟩
  | some prices =>
    dsimp only
    cases hrows : (addedState s requests).db.savedRows prices with
    | none => exact .inl ⟨rfl, addedState_prices s requests⟩
    | some rows => exact .inr ⟨hne, prices, rows, rfl, hrows, rfl⟩

/-! ## What a call saves -/

theorem savePrices_eq (db : Database) (rows : List SavedPrice) : (db.savePrices rows).prices =
    Store.mset db.prices (rows.map fun saved => (saved.assetId, saved.row)) :=
  (Store.mset_map db.prices (fun saved : SavedPrice => (saved.assetId, saved.row)) rows).symm

theorem savedRow_value (db : Database) (price : AssociatedAssetPrice) (value : ℚ) :
    (db.savedRow price value).value = value := by
  rw [Database.savedRow]
  cases db.prices price.assetId <;> rfl

theorem savedRow_updatedAt (db : Database) (price : AssociatedAssetPrice) (value : ℚ) :
    (db.savedRow price value).updatedAt = db.now := by
  rw [Database.savedRow]
  cases db.prices price.assetId <;> rfl

/-- A row that is saved has the price of the first request for its asset. -/
theorem savedRows_spec {rows : List SavedPrice} {saved : SavedPrice}
    {prices : List AssociatedAssetPrice} {assets : List Asset}
    (hprices : getAssociatedAssetsPrices assets requests = some prices)
    (hrows : db.savedRows prices = some rows) (h : saved ∈ rows) :
    ∃ asset ∈ assets, asset.id = saved.assetId ∧ ∃ dto, requests.find? (isOf · asset) = some dto ∧
      dto.price = some saved.row.value ∧ saved.row.updatedAt = db.now := by
  obtain ⟨price, hprice, hsaved⟩ := (mem_of_mapM hrows).2 saved h
  obtain ⟨value, hvalue, rfl⟩ := Option.map_eq_some_iff.mp hsaved
  obtain ⟨asset, hasset, hassociated⟩ := (mem_of_mapM hprices).2 price hprice
  obtain ⟨dto, hdto, rfl⟩ := Option.map_eq_some_iff.mp hassociated
  refine ⟨asset, hasset, rfl, dto, hdto, hvalue.trans ?_, savedRow_updatedAt ..⟩
  rw [savedRow_value]

/-- A row after a call is one that it has saved or one from before. -/
theorem of_updateCurrentPrice {id : Nat} {row : AssetCurrentPrice}
    (h : (updateCurrentPrice s requests).state.db.prices id = some row) :
    (∃ asset ∈ relatedAssets s.db requests, asset.id = id ∧
      ∃ dto ∈ requests, dto.price = some row.value) ∨ s.db.prices id = some row := by
  obtain ⟨-, hsame⟩ | ⟨-, prices, rows, hprices, hrows, heq⟩ := updateCurrentPrice_cases s requests
  · rw [hsame] at h
    exact .inr h
  · rw [heq, PriceState.saveCurrentPrices, savePrices_eq, addedState_prices] at h
    rcases Store.of_mset h with h | h
    · obtain ⟨saved, hsaved, hentry⟩ := List.mem_map.mp h
      cases hentry
      obtain ⟨asset, hasset, hid, dto, hdto, hvalue, -⟩ := savedRows_spec hprices hrows hsaved
      exact .inl ⟨asset, hasset, hid, dto, List.mem_of_find?_eq_some hdto, hvalue⟩
    · exact .inr h

/-- A call that succeeds saves the price of the first request for each of its assets. -/
theorem updateCurrentPrice_of_related {asset : Asset}
    (h : (updateCurrentPrice s requests).succeeded = true)
    (hasset : asset ∈ relatedAssets s.db requests) :
    ∃ dto row, requests.find? (isOf · asset) = some dto ∧
      (updateCurrentPrice s requests).state.db.prices asset.id = some row ∧
      dto.price = some row.value ∧ row.updatedAt = s.db.now := by
  obtain ⟨hfail, -⟩ | ⟨-, prices, rows, hprices, hrows, heq⟩ := updateCurrentPrice_cases s requests
  · rw [hfail] at h
    cases h
  · obtain ⟨price, hprice, hassociated⟩ := (mem_of_mapM hprices).1 asset hasset
    obtain ⟨saved, hsaved, hvalue⟩ := (mem_of_mapM hrows).1 price hprice
    have hid : saved.assetId = asset.id := by
      obtain ⟨value, -, rfl⟩ := Option.map_eq_some_iff.mp hvalue
      obtain ⟨dto, -, rfl⟩ := Option.map_eq_some_iff.mp hassociated
      rfl
    have hentry : (asset.id, saved.row) ∈ rows.map fun saved => (saved.assetId, saved.row) :=
      List.mem_map.mpr ⟨saved, hsaved, by rw [hid]⟩
    obtain ⟨row, hrow, hmem⟩ := Store.mset_of_mem (addedState s requests).db.prices hentry
    obtain ⟨saved', hsaved', heq'⟩ := List.mem_map.mp hmem
    obtain ⟨hid', rfl⟩ := Prod.mk.inj heq'
    obtain ⟨asset', hasset', hassetId, dto, hdto, hdtoPrice, hupdatedAt⟩ :=
      savedRows_spec hprices hrows hsaved'
    obtain rfl : asset' = asset :=
      eq_of_id (ordered_relatedAssets s.db requests) hasset' hasset (hassetId.trans hid')
    refine ⟨dto, saved'.row, hdto, ?_, hdtoPrice, hupdatedAt.trans (addedState_now s requests)⟩
    rw [heq, PriceState.saveCurrentPrices, savePrices_eq]
    exact hrow

/-! ## Requests with a price first -/

/-- New assets have the next ids. -/
theorem exists_newAssets_id {n : Nat} (requests : List PriceRequestCurrentDto) (id : Nat)
    (h : n < requests.length) : ∃ asset ∈ newAssets requests id, asset.id = id + n := by
  induction requests generalizing n id with
  | nil => cases h
  | cons dto requests ih =>
    cases n with
    | zero => exact ⟨_, List.mem_cons_self, rfl⟩
    | succ n =>
      obtain ⟨asset, hasset, hid⟩ := ih (id + 1) (Nat.lt_of_succ_lt_succ h)
      exact ⟨asset, List.mem_cons_of_mem _ hasset, by omega⟩

theorem notEmpty_iff {dto : PriceRequestCurrentDto} :
    dto.notEmpty ↔ ∃ value, dto.price = some value ∧ value ≠ 0 := by
  rw [PriceRequestCurrentDto.notEmpty]
  cases dto.price <;> simp

/-- A request for an asset has a first one of its kind. -/
theorem exists_first_isOf {asset : Asset} {dto : PriceRequestCurrentDto} (hdto : dto ∈ requests)
    (hof : isOf dto asset) :
    ∃ first ∈ requests, requests.find? (isOf · asset) = some first ∧ isOf first asset := by
  obtain ⟨first, hfirst⟩ := Option.isSome_iff_exists.mp
    (List.find?_isSome.mpr ⟨dto, hdto, hof⟩ : (requests.find? (isOf · asset)).isSome)
  exact ⟨first, List.mem_of_find?_eq_some hfirst, hfirst,
    List.find?_some (p := (isOf · asset)) hfirst⟩

/-- Requests for one asset are for the same rows. -/
theorem isOf_of_isOf {asset asset' : Asset} {dto dto' : PriceRequestCurrentDto}
    (h : isOf dto asset) (h' : isOf dto' asset) (hof : isOf dto asset') : isOf dto' asset' := by
  obtain ⟨haddress, hchain⟩ := isOf_iff.mp h
  obtain ⟨haddress', hchain'⟩ := isOf_iff.mp h'
  obtain ⟨haddress'', hchain''⟩ := isOf_iff.mp hof
  exact isOf_iff.mpr
    ⟨haddress'.trans (haddress.symm.trans haddress''), hchain'.trans (hchain.symm.trans hchain'')⟩

/-- A request misses its asset if no row is for it. -/
theorem mem_dtoForMissingAssets {dto : PriceRequestCurrentDto} :
    dto ∈ dtoForMissingAssets requests (db.findAssets requests) ↔
      dto ∈ requests ∧ ∀ asset ∈ db.assets, ¬ isOf dto asset := by
  rw [dtoForMissingAssets_eq, List.mem_filter, Bool.not_eq_true', ← Bool.not_eq_true,
    List.any_eq_true, not_exists]
  simp only [not_and]

/-- The first one of those that meet `p` is among those that meet `q`. -/
theorem find?_filter_of_first {p q : α → Bool} {l : List α}
    (h : ∀ a, l.find? p = some a → q a) : (l.filter q).find? p = l.find? p := by
  induction l with
  | nil => rfl
  | cons a l ih =>
    rw [List.find?_cons] at h
    rw [List.filter_cons, List.find?_cons]
    cases hp : p a with
    | true =>
      rw [hp] at h
      rw [if_pos (h a rfl), List.find?_cons, hp]
    | false =>
      rw [hp] at h
      split
      · rw [List.find?_cons, hp]
        exact ih h
      · exact ih h

theorem dtoForMissingAssets_filter (db : Database) (requests : List PriceRequestCurrentDto) :
    dtoForMissingAssets (requests.filter PriceRequestCurrentDto.notEmpty)
      (db.findAssets (requests.filter PriceRequestCurrentDto.notEmpty)) =
    (dtoForMissingAssets requests (db.findAssets requests)).filter
      PriceRequestCurrentDto.notEmpty := by
  rw [dtoForMissingAssets_eq, dtoForMissingAssets_eq, List.filter_comm]

namespace PricedFirst

section
variable (H : PricedFirst db requests)
include H

theorem missing_notEmpty :
    ∀ dto ∈ dtoForMissingAssets requests (db.findAssets requests), dto.notEmpty := by
  intro dto hdto
  obtain ⟨hmem, hmissing⟩ := mem_dtoForMissingAssets.mp hdto
  exact H.unknown dto hmem hmissing

/-- The first request for each asset of the call has a price. -/
theorem first_notEmpty {asset : Asset} (hasset : asset ∈ relatedAssets db requests) :
    ∃ dto, requests.find? (isOf · asset) = some dto ∧ dto.notEmpty := by
  rcases List.mem_append.mp hasset with hfound | hadded
  · obtain ⟨hmem, dto, hdto, hof⟩ := mem_findAssets.mp hfound
    obtain ⟨first, -, hfirst, -⟩ := exists_first_isOf hdto hof
    exact ⟨first, hfirst, H.known asset hmem first hfirst⟩
  · obtain ⟨dto, hmissing, hof⟩ := mem_newAssets.1 asset hadded
    obtain ⟨hdto, hmissing⟩ := mem_dtoForMissingAssets.mp hmissing
    obtain ⟨first, hmem, hfirst, hof'⟩ := exists_first_isOf hdto hof
    refine ⟨first, hfirst, H.unknown first hmem fun known hknown hof'' => ?_⟩
    -- the two requests are for one asset, which is missing
    exact hmissing known hknown (isOf_of_isOf hof' hof hof'')

theorem findAssets_filter :
    db.findAssets (requests.filter PriceRequestCurrentDto.notEmpty) = db.findAssets requests := by
  refine List.filter_congr fun asset hasset => ?_
  rw [Bool.eq_iff_iff, List.any_eq_true, List.any_eq_true]
  constructor
  · rintro ⟨dto, hdto, hof⟩
    exact ⟨dto, (List.mem_filter.mp hdto).1, hof⟩
  · rintro ⟨dto, hdto, hof⟩
    obtain ⟨first, hmem, hfirst, hof'⟩ := exists_first_isOf hdto hof
    exact ⟨first, List.mem_filter.mpr ⟨hmem, H.known asset hasset first hfirst⟩, hof'⟩

theorem missing_filter :
    dtoForMissingAssets (requests.filter PriceRequestCurrentDto.notEmpty)
      (db.findAssets (requests.filter PriceRequestCurrentDto.notEmpty)) =
    dtoForMissingAssets requests (db.findAssets requests) := by
  rw [dtoForMissingAssets_filter, List.filter_eq_self]
  exact H.missing_notEmpty

theorem relatedAssets_filter :
    relatedAssets db (requests.filter PriceRequestCurrentDto.notEmpty) =
      relatedAssets db requests := by
  rw [relatedAssets, H.missing_filter, H.findAssets_filter]
  rfl

theorem filter_ne_nil : requests.filter PriceRequestCurrentDto.notEmpty ≠ [] := by
  obtain ⟨dto, hdto⟩ := List.exists_mem_of_ne_nil requests H.ne_nil
  by_cases hknown : ∃ asset ∈ db.assets, isOf dto asset
  · obtain ⟨asset, hasset, hof⟩ := hknown
    obtain ⟨first, hmem, hfirst, -⟩ := exists_first_isOf hdto hof
    exact List.ne_nil_of_mem (List.mem_filter.mpr ⟨hmem, H.known asset hasset first hfirst⟩)
  · have hpriced : dto.notEmpty := H.unknown dto hdto fun asset hasset hof =>
      hknown ⟨asset, hasset, hof⟩
    exact List.ne_nil_of_mem (List.mem_filter.mpr ⟨hdto, hpriced⟩)

/-- The association of the assets with prices does not meet the other requests. -/
theorem getAssociatedAssetsPrices_filter :
    getAssociatedAssetsPrices (relatedAssets db requests)
      (requests.filter PriceRequestCurrentDto.notEmpty) =
    getAssociatedAssetsPrices (relatedAssets db requests) requests := by
  refine mapM_congr fun asset hasset => ?_
  obtain ⟨dto, hdto, hpriced⟩ := H.first_notEmpty hasset
  rw [find?_filter_of_first fun first hfirst => ?_]
  rw [hdto] at hfirst
  cases hfirst
  exact hpriced

end

theorem addedState_filter (s : PriceState) (H : PricedFirst s.db requests) :
    addedState s (requests.filter PriceRequestCurrentDto.notEmpty) = addedState s requests := by
  have hfilter : (requests.filter PriceRequestCurrentDto.notEmpty).filter
      PriceRequestCurrentDto.notEmpty = requests.filter PriceRequestCurrentDto.notEmpty :=
    List.filter_eq_self.mpr fun dto hdto => (List.mem_filter.mp hdto).2
  rw [addedState, addedState, hfilter, H.missing_filter]

/-- The call does what it does without the other requests. -/
theorem updateCurrentPrice_filter (s : PriceState) (H : PricedFirst s.db requests) :
    updateCurrentPrice s (requests.filter PriceRequestCurrentDto.notEmpty) =
      updateCurrentPrice s requests := by
  rw [updateCurrentPrice_eq s H.ne_nil, updateCurrentPrice_eq s H.filter_ne_nil,
    PriceState.saveAssociatedPrices, PriceState.saveAssociatedPrices, addedState_filter s H,
    H.relatedAssets_filter, H.getAssociatedAssetsPrices_filter]

/-- No price is missing. -/
theorem succeeds (s : PriceState) (H : PricedFirst s.db requests) :
    (updateCurrentPrice s requests).succeeded = true := by
  obtain ⟨prices, hprices⟩ : ∃ prices,
      getAssociatedAssetsPrices (relatedAssets s.db requests) requests = some prices := by
    refine exists_mapM_eq_some fun asset hasset => ?_
    obtain ⟨dto, hdto, -⟩ := H.first_notEmpty hasset
    exact ⟨_, by rw [hdto]; rfl⟩
  obtain ⟨rows, hrows⟩ : ∃ rows, (addedState s requests).db.savedRows prices = some rows := by
    refine exists_mapM_eq_some fun price hprice => ?_
    obtain ⟨asset, hasset, hassociated⟩ := (mem_of_mapM hprices).2 price hprice
    obtain ⟨dto, hdto, hpriced⟩ := H.first_notEmpty hasset
    rw [hdto] at hassociated
    cases hassociated
    obtain ⟨value, hvalue, -⟩ := notEmpty_iff.mp hpriced
    exact ⟨_, Option.map_eq_some_iff.mpr ⟨value, hvalue, rfl⟩⟩
  rw [updateCurrentPrice_eq s H.ne_nil, PriceState.saveAssociatedPrices, hprices]
  dsimp only
  rw [hrows]

end PricedFirst

/-! ## Requests whose absence is noticed -/

/-- A row is not one of another time. -/
theorem exists_other_time (o : Option AssetCurrentPrice) :
    ∃ now, ∀ row, o = some row → row.updatedAt ≠ now := by
  cases o with
  | none => exact ⟨0, nofun⟩
  | some row =>
    refine ⟨row.updatedAt + 1, fun row' h => ?_⟩
    cases h
    exact Nat.ne_of_lt (Nat.lt_succ_self _)

namespace LeavesNoTrace
variable (H : LeavesNoTrace s requests)
include H

theorem ne_nil : requests ≠ [] := by
  rintro rfl
  obtain ⟨hsucceeded, -⟩ := H 0
  cases hsucceeded

/-- A row that the call saves is saved by the call with the other requests, too: for an asset that
these are for, and with one of their prices. -/
theorem saved_filter {asset : Asset} (hasset : asset ∈ relatedAssets s.db requests) :
    ∃ dto, requests.find? (isOf · asset) = some dto ∧ ∃ value, dto.price = some value ∧
      (∃ asset' ∈ relatedAssets s.db (requests.filter PriceRequestCurrentDto.notEmpty),
        asset'.id = asset.id) ∧ value ≠ 0 := by
  obtain ⟨now, hnow⟩ := exists_other_time (s.db.prices asset.id)
  obtain ⟨hsucceeded, hprices, -, -⟩ := H now
  obtain ⟨dto, row, hdto, hrow, hvalue, hupdatedAt⟩ :=
    updateCurrentPrice_of_related hsucceeded hasset
  rw [hprices] at hrow
  refine ⟨dto, hdto, row.value, hvalue, ?_⟩
  rcases of_updateCurrentPrice hrow with ⟨asset', hasset', hid, dto', hdto', hvalue'⟩ | hold
  · obtain ⟨value, hvalue'', hne⟩ := notEmpty_iff.mp (List.mem_filter.mp hdto').2
    rw [hvalue'] at hvalue''
    cases hvalue''
    exact ⟨⟨asset', hasset', hid⟩, hne⟩
  · exact absurd hupdatedAt (hnow row hold)

theorem known : ∀ asset ∈ s.db.assets, ∀ dto, requests.find? (isOf · asset) = some dto →
    dto.notEmpty := by
  intro asset hasset dto hdto
  have hof : isOf dto asset := List.find?_some (p := (isOf · asset)) hdto
  have hrelated : asset ∈ relatedAssets s.db requests := List.mem_append_left _
    (mem_findAssets.mpr ⟨hasset, dto, List.mem_of_find?_eq_some hdto, hof⟩)
  obtain ⟨dto', hdto', value, hvalue, -, hne⟩ := H.saved_filter hrelated
  rw [hdto] at hdto'
  cases hdto'
  exact notEmpty_iff.mpr ⟨value, hvalue, hne⟩

/-- With a request less, an asset less is saved. -/
theorem unknown : ∀ dto ∈ requests, (∀ asset ∈ s.db.assets, ¬ isOf dto asset) → dto.notEmpty := by
  intro dto hdto hmissing
  by_contra hempty
  let missing := dtoForMissingAssets requests (s.db.findAssets requests)
  have hmem : dto ∈ missing := mem_dtoForMissingAssets.mpr ⟨hdto, hmissing⟩
  have hlt : (missing.filter PriceRequestCurrentDto.notEmpty).length < missing.length :=
    List.length_filter_lt_length_iff_exists.mpr ⟨dto, hmem, hempty⟩
  obtain ⟨asset, hasset, hid⟩ := exists_newAssets_id missing s.db.nextId hlt
  obtain ⟨-, -, -, -, ⟨asset', hasset', hid'⟩, -⟩ :=
    H.saved_filter (List.mem_append_right _ hasset : asset ∈ relatedAssets s.db requests)
  rcases List.mem_append.mp hasset' with hfound | hadded
  · have := s.db.bounded asset' (mem_findAssets.mp hfound).1
    omega
  · rw [dtoForMissingAssets_filter] at hadded
    have hbound : asset'.id <
        s.db.nextId + (missing.filter PriceRequestCurrentDto.notEmpty).length :=
      (le_id_of_mem_newAssets hadded).2
    omega

end LeavesNoTrace

/-- A call succeeds with the effect of its requests that have a price if and only if there are
requests, those without a price are for known assets, and one with a price comes before them. -/
theorem leavesNoTrace_iff (s : PriceState) (requests : List PriceRequestCurrentDto) :
    LeavesNoTrace s requests ↔ PricedFirst s.db requests := by
  constructor
  · intro H
    exact ⟨H.ne_nil, H.known, H.unknown⟩
  · intro H now
    have H' : PricedFirst (s.atTime now).db requests := ⟨H.ne_nil, H.known, H.unknown⟩
    rw [PricedFirst.updateCurrentPrice_filter _ H']
    exact ⟨PricedFirst.succeeds _ H', rfl, rfl, rfl⟩

/-! ## An asset with a price -/

/-- The sample asset has the price 5, saved at the time 0. -/
def pricedState : PriceState where
  db :=
    { assets := [⟨1, 1, sampleAddress⟩]
      prices := fun id => if id = 1 then some ⟨1, 5, 1, 0⟩ else none
      nextId := 2
      now := 0
      ordered := List.pairwise_singleton _ _
      bounded := fun a ha => by
        cases List.mem_singleton.mp ha
        decide }
  cache := .empty
  historic := .empty

/-- A request for the asset, and one with a price for another. -/
def sampleBatch (price : Option ℚ) : List PriceRequestCurrentDto :=
  [⟨sampleAddress, price, 1, 1, none⟩, ⟨"0xa", some 7, 1, 1, none⟩]

/-- Zero is saved over the price of the asset, and with a missing price none of the batch is. -/
theorem sampleBatch_leaves_trace :
    ¬ LeavesNoTrace pricedState (sampleBatch (some 0)) ∧
      ¬ LeavesNoTrace pricedState (sampleBatch none) := by
  constructor
  · intro H
    obtain ⟨-, hprices, -⟩ := H 100
    -- one row has the price 0 and the other still 5
    exact absurd (congrFun hprices 1) (by decide +kernel)
  · intro H
    obtain ⟨hsucceeded, -⟩ := H 100
    exact absurd hsucceeded (by decide +kernel)

end Price
end DefiBackend
