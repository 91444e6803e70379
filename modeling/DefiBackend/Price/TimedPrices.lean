import DefiBackend.Common.JsMap
import DefiBackend.Common.JsNumber
import DefiBackend.Price.CurrentPrices
import Mathlib.Algebra.Order.Group.Int
import Mathlib.Algebra.Order.Group.Unbundled.Abs
import Mathlib.Tactic.NormNum.Ineq

/-! # Prices with their times

`getCurrentPrices`, `getHistoricalPrices` and `getPricesInBatches` of the price service: prices of
the table or of the cache, each with a time, of which the one that fits is chosen.

* `AssetPrices`, `matchPrice`, `getCurrentPrice`: the functions, for times that are any numbers;
* the statement does not select a time, so it is not a number, and `null` once it has been in the
  cache (`pricesOf_table`, `pricesOf_of_cached`);
* `responses_iff`: when the prices of the responses are those that the times of the table ask for.

Values are exact. -/

namespace DefiBackend
namespace Price
namespace TimedPrices
open Theory

/-! ## Times -/

/-- A time as it is stored with a price: a number, or `null`. -/
abbrev Timestamp := Option JsNumber

/-- What arithmetic makes of a time. -/
def Timestamp.toNumber (timestamp : Timestamp) : JsNumber := timestamp.getD 0

/-- `JSON.stringify` and back: only finite numbers come back. -/
def Timestamp.throughJson : Timestamp → Timestamp
  | some (.finite q) => some (.finite q)
  | _ => none

structure TimestampPrice where
  timestamp : Timestamp
  price : ℚ
  deriving DecidableEq

structure AssetPrices where
  address : Address
  prices : List TimestampPrice
  deriving DecidableEq

/-- A row of a statement; a column that is not selected is undefined. -/
structure PriceRow where
  address : Address
  timestamp : Option ℚ
  value : ℚ
  deriving DecidableEq

/-- `Number(timestamp)`. -/
def PriceRow.number (row : PriceRow) : JsNumber := row.timestamp.elim .nan .finite

/-- `getCacheKey`. -/
def cacheKey (key : PriceKey) : String :=
  "price_" ++ keyField key.chain (keyField key.currency key.address)

theorem cacheKey_inj {key key' : PriceKey} : cacheKey key = cacheKey key' ↔ key = key' := by
  obtain ⟨chain, currency, address⟩ := key
  obtain ⟨chain', currency', address'⟩ := key'
  simp [cacheKey, keyField_inj]

/-- What `compareAscending` of lodash makes of two numbers. -/
def compareAscending (value other : JsNumber) : ℤ :=
  if value = other ∧ value ≠ .nan then 0
  else if other.lt value ∨ value = .nan then 1
  else if value.lt other ∨ other = .nan then -1
  else 0

/-- `_orderBy(prices, 'timestamp')`, which leaves a price behind those that it does not precede. -/
def orderBy (prices : List TimestampPrice) : List TimestampPrice :=
  prices.mergeSort fun a b => 0 ≤ compareAscending b.timestamp.toNumber a.timestamp.toNumber

def mapRowsToAssetPrices (rows : List PriceRow) : List AssetPrices :=
  (JsMap.collect (rows.map fun row =>
    (row.address, (⟨some row.number, row.value⟩ : TimestampPrice)))).map fun e =>
      { address := e.1, prices := orderBy e.2 }

/-- `getCurrentPricesByAddressesChainAndCurrency`, which selects the address and the value. -/
def getCurrentPricesByAddressesChainAndCurrency (db : Database) (addresses : List Address)
    (chain currency : Nat) : List PriceRow :=
  db.assets.filterMap fun asset =>
    if asset.address ∈ addresses ∧ asset.chainId = chain then
      ((db.prices asset.id).filter (·.currencyId = currency)).map fun row =>
        { address := asset.address, timestamp := none, value := row.value }
    else none

/-- A cached list has been through JSON. -/
abbrev PriceCache := Store String (List TimestampPrice)

/-- `getCachedPrices`: an empty list counts as not cached. -/
def getCachedPrices (cache : PriceCache) (chain currency : Nat) (addresses : List Address) :
    List AssetPrices × List Address :=
  let cachedPrices (address : Address) := (cache (cacheKey ⟨chain, currency, address⟩)).getD []
  ((addresses.filter fun address => cachedPrices address ≠ []).map fun address =>
      { address := address, prices := cachedPrices address },
    addresses.filter fun address => cachedPrices address = [])

/-- `getAssetPricesByAddressesChainAndCurrency`. -/
def getAssetPrices (db : Database) (cache : PriceCache) (chain currency : Nat)
    (addresses : List Address) : List AssetPrices :=
  let (cached, notCached) := getCachedPrices cache chain currency addresses
  if notCached = [] then cached
  else cached ++ mapRowsToAssetPrices
    (getCurrentPricesByAddressesChainAndCurrency db notCached chain currency)

/-! ## Choosing a price -/

/-- `_minBy`: the first of those with the least number. -/
def minBy (iteratee : α → JsNumber) (list : List α) : Option α :=
  list.foldl (fun least a =>
    match least with
    | none => if iteratee a = .nan then none else some a
    | some b => if (iteratee a).lt (iteratee b) then some a else some b) none

def matchPrice (maxTimeDifference : ℚ) (timestamp : ℤ) (prices : List TimestampPrice) : Option ℚ :=
  let difference (price : TimestampPrice) : JsNumber :=
    (price.timestamp.toNumber - .finite timestamp).abs
  let candidates := prices.filter fun price => (difference price).le (.finite maxTimeDifference)
  (minBy difference candidates).map TimestampPrice.price

def matchPrices (maxTimeDifference : ℚ) (timestamps : List ℤ) (prices : List TimestampPrice) :
    JsMap ℤ (Option ℚ) :=
  .ofEntries (timestamps.map fun timestamp =>
    (timestamp, matchPrice maxTimeDifference timestamp prices))

def getCurrentPrice (threshold : ℚ) (now : Nat) (prices : List TimestampPrice) : Option ℚ :=
  match prices.getLast? with
  | none => none
  | some lastPrice =>
    let age : JsNumber := .finite now - lastPrice.timestamp.toNumber
    let isPriceOutdated := (JsNumber.finite threshold).lt age && lastPrice.timestamp.isSome
    if isPriceOutdated then none else some lastPrice.price

/-- The thresholds of the service. -/
structure Thresholds where
  allowedCurrentPriceThresholdInSeconds : ℚ
  allowedHistoricalPriceThresholdInSeconds : ℚ

/-- The prices that are found for an address. -/
def pricesOf (allPrices : List AssetPrices) (address : Address) : List TimestampPrice :=
  ((allPrices.find? (·.address = address)).map AssetPrices.prices).getD []

structure PriceQuery where
  chain : Nat
  currency : Nat
  addresses : List Address

/-- `TokenPriceRequest`. -/
structure TokenPriceRequest where
  address : Address
  timestamps : List ℤ

section
variable (T : Thresholds) (db : Database) (cache : PriceCache)

/-- `getCurrentPrices`, at the time `now`. -/
def getCurrentPrices (now : Nat) (query : PriceQuery) : JsMap Address (Option ℚ) :=
  let allPrices := getAssetPrices db cache query.chain query.currency query.addresses
  .ofEntries (query.addresses.map fun address =>
    (address, getCurrentPrice T.allowedCurrentPriceThresholdInSeconds now
      (pricesOf allPrices address)))

def getHistoricalPrices (query : PriceQuery) (timestamps : List ℤ) :
    JsMap Address (JsMap ℤ (Option ℚ)) :=
  let allPrices := getAssetPrices db cache query.chain query.currency query.addresses
  .ofEntries (query.addresses.map fun address =>
    (address, matchPrices T.allowedHistoricalPriceThresholdInSeconds timestamps
      (pricesOf allPrices address)))

/-- The timestamps of a batch for an address: those of its first request. -/
def timestampsOf (assets : List TokenPriceRequest) (address : Address) : List ℤ :=
  ((assets.find? (·.address = address)).map TokenPriceRequest.timestamps).getD []

def getPricesInBatches (chain currency : Nat) (assets : List TokenPriceRequest) :
    JsMap Address (JsMap ℤ (Option ℚ)) :=
  let addresses := assets.map TokenPriceRequest.address
  let allPrices := getAssetPrices db cache chain currency addresses
  .ofEntries (addresses.map fun address =>
    (address, matchPrices T.allowedHistoricalPriceThresholdInSeconds
      (timestampsOf assets address) (pricesOf allPrices address)))

end

/-! ## What the times become -/

/-- The prices of the table for an address, in the order of the statement. -/
def priceRows (db : Database) (key : PriceKey) : List AssetCurrentPrice :=
  db.assets.filterMap fun asset =>
    if asset.address = key.address ∧ asset.chainId = key.chain then
      (db.prices asset.id).filter (·.currencyId = key.currency)
    else none

/-- What a request makes of the prices of the table. -/
def tablePrices (db : Database) (key : PriceKey) : List TimestampPrice :=
  pricesOf (mapRowsToAssetPrices (getCurrentPricesByAddressesChainAndCurrency db [key.address]
    key.chain key.currency)) key.address

/-- What comes back from the cache. -/
def throughCache (prices : List TimestampPrice) : List TimestampPrice :=
  prices.map fun price => { price with timestamp := price.timestamp.throughJson }

/-- The cached lists are those that requests have made of the table, or empty. -/
def CacheOf (db : Database) (cache : PriceCache) : Prop :=
  ∀ key list, cache (cacheKey key) = some list →
    list = [] ∨ list = throughCache (tablePrices db key)

theorem orderBy_of_nan {prices : List TimestampPrice}
    (h : ∀ price ∈ prices, price.timestamp = some .nan) : orderBy prices = prices := by
  refine List.mergeSort_of_pairwise (List.pairwise_of_forall_mem_list fun a ha b hb => ?_)
  rw [h a ha, h b hb]
  rfl

theorem pricesOf_nil (address : Address) : pricesOf [] address = [] := rfl

theorem pricesOf_cons (a : AssetPrices) (allPrices : List AssetPrices) (address : Address) :
    pricesOf (a :: allPrices) address =
      if a.address = address then a.prices else pricesOf allPrices address := by
  unfold pricesOf
  rw [List.find?_cons]
  by_cases h : a.address = address
  · simp [h]
  · simp [h]

theorem pricesOf_append_of_notMem {cached allPrices : List AssetPrices} {address : Address}
    (h : ∀ a ∈ cached, a.address ≠ address) :
    pricesOf (cached ++ allPrices) address = pricesOf allPrices address := by
  induction cached with
  | nil => rfl
  | cons a cached ih =>
    obtain ⟨ha, hcached⟩ := List.forall_mem_cons.mp h
    rw [List.cons_append, pricesOf_cons, if_neg ha, ih hcached]

/-- The lists of some addresses, each found under its address. -/
theorem pricesOf_map_append {addresses : List Address} {f : Address → List TimestampPrice}
    {address : Address} (h : address ∈ addresses) (allPrices : List AssetPrices) :
    pricesOf (addresses.map (fun a => ⟨a, f a⟩) ++ allPrices) address = f address := by
  induction addresses with
  | nil => cases h
  | cons a addresses ih =>
    rw [List.map_cons, List.cons_append, pricesOf_cons]
    by_cases ha : a = address
    · rw [if_pos ha, ha]
    · rw [if_neg ha]
      exact ih ((List.mem_cons.mp h).resolve_left (Ne.symm ha))

theorem mapRowsToAssetPrices_eq (rows : List PriceRow) : mapRowsToAssetPrices rows =
    (unique (rows.map PriceRow.address)).map fun address =>
      ⟨address, orderBy ((rows.filter (·.address = address)).map fun row =>
        ⟨some row.number, row.value⟩)⟩ := by
  rw [mapRowsToAssetPrices, JsMap.collect_eq, List.map_map, List.map_map]
  apply List.map_congr_left
  intro address _
  simp only [Function.comp_apply, List.filter_map, List.map_map]
  rfl

theorem pricesOf_mapRowsToAssetPrices (rows : List PriceRow) (address : Address) :
    pricesOf (mapRowsToAssetPrices rows) address =
      orderBy ((rows.filter (·.address = address)).map fun row => ⟨some row.number, row.value⟩) := by
  rw [mapRowsToAssetPrices_eq]
  by_cases h : address ∈ rows.map PriceRow.address
  · rw [← List.append_nil (List.map _ _)]
    exact pricesOf_map_append (mem_unique.mpr h) []
  · have hfilter : rows.filter (·.address = address) = [] := by
      refine List.filter_eq_nil_iff.mpr fun row hrow hof => h ?_
      exact List.mem_map.mpr ⟨row, hrow, of_decide_eq_true hof⟩
    rw [hfilter, ← List.append_nil (List.map _ _), pricesOf_append_of_notMem]
    · rw [List.map_nil, orderBy, List.mergeSort_nil, pricesOf_nil]
    · intro a ha hof
      obtain ⟨address', hmem, rfl⟩ := List.mem_map.mp ha
      exact h (hof ▸ mem_unique.mp hmem)

/-- The rows that the statement gives for one of its addresses. -/
theorem filter_getCurrentPrices {addresses : List Address} {address : Address}
    (h : address ∈ addresses) (db : Database) (chain currency : Nat) :
    (getCurrentPricesByAddressesChainAndCurrency db addresses chain currency).filter
      (·.address = address) =
        (priceRows db ⟨chain, currency, address⟩).map fun row => ⟨address, none, row.value⟩ := by
  unfold getCurrentPricesByAddressesChainAndCurrency priceRows
  induction db.assets with
  | nil => rfl
  | cons asset assets ih =>
    rw [List.filterMap_cons, List.filterMap_cons]
    by_cases haddress : asset.address = address
    · subst haddress
      by_cases hchain : asset.chainId = chain
      · cases (db.prices asset.id).filter (·.currencyId = currency) <;> simp [h, hchain, ih]
      · simp [h, hchain, ih]
    · by_cases hmem : asset.address ∈ addresses ∧ asset.chainId = chain
      · cases (db.prices asset.id).filter (·.currencyId = currency) <;> simp [hmem, haddress, ih]
      · simp [hmem, haddress, ih]

/-- No time is selected. -/
theorem pricesOf_table {addresses : List Address} {address : Address} (h : address ∈ addresses)
    (db : Database) (chain currency : Nat) :
    pricesOf (mapRowsToAssetPrices
      (getCurrentPricesByAddressesChainAndCurrency db addresses chain currency)) address =
        (priceRows db ⟨chain, currency, address⟩).map fun row => ⟨some .nan, row.value⟩ := by
  rw [pricesOf_mapRowsToAssetPrices, filter_getCurrentPrices h, List.map_map]
  apply orderBy_of_nan
  intro price hprice
  obtain ⟨row, -, rfl⟩ := List.mem_map.mp hprice
  rfl

theorem throughCache_tablePrices (db : Database) (key : PriceKey) :
    throughCache (tablePrices db key) =
      (priceRows db key).map fun row => ⟨none, row.value⟩ := by
  rw [throughCache, tablePrices, pricesOf_table (List.mem_singleton_self _), List.map_map]
  rfl

/-! ## What a request finds -/

/-- The request finds prices for an address in the cache. -/
def Cached (cache : PriceCache) (key : PriceKey) : Prop :=
  (cache (cacheKey key)).getD [] ≠ []

instance (cache : PriceCache) (key : PriceKey) : Decidable (Cached cache key) :=
  inferInstanceAs (Decidable (_ ≠ _))

section
variable {db : Database} {cache : PriceCache} {chain currency : Nat} {addresses : List Address}
  {address : Address}

/-- Prices from the cache come with `null` for a time. -/
theorem pricesOf_of_cached (hcache : CacheOf db cache) (h : address ∈ addresses)
    (hcached : Cached cache ⟨chain, currency, address⟩) :
    pricesOf (getAssetPrices db cache chain currency addresses) address =
      (priceRows db ⟨chain, currency, address⟩).map fun row => ⟨none, row.value⟩ := by
  have hlist : (cache (cacheKey ⟨chain, currency, address⟩)).getD [] =
      (priceRows db ⟨chain, currency, address⟩).map fun row => ⟨none, row.value⟩ := by
    cases hget : cache (cacheKey ⟨chain, currency, address⟩) with
    | none => exact absurd (by rw [hget]; rfl) hcached
    | some list =>
      rw [Cached, hget] at hcached
      rw [← throughCache_tablePrices]
      exact (hcache _ list hget).resolve_left hcached
  have hmem : address ∈ addresses.filter fun address =>
      (cache (cacheKey ⟨chain, currency, address⟩)).getD [] ≠ [] :=
    List.mem_filter.mpr ⟨h, decide_eq_true hcached⟩
  rw [getAssetPrices, getCachedPrices]
  dsimp only
  rw [← hlist]
  split
  · rw [← List.append_nil (List.map _ _)]
    exact pricesOf_map_append hmem []
  · exact pricesOf_map_append hmem _

/-- Prices from the table come with a time that is not a number. -/
theorem pricesOf_of_not_cached (h : address ∈ addresses)
    (hcached : ¬ Cached cache ⟨chain, currency, address⟩) :
    pricesOf (getAssetPrices db cache chain currency addresses) address =
      (priceRows db ⟨chain, currency, address⟩).map fun row => ⟨some .nan, row.value⟩ := by
  have hempty : (cache (cacheKey ⟨chain, currency, address⟩)).getD [] = [] := not_not.mp hcached
  have hmem : address ∈ addresses.filter fun address =>
      (cache (cacheKey ⟨chain, currency, address⟩)).getD [] = [] :=
    List.mem_filter.mpr ⟨h, decide_eq_true hempty⟩
  rw [getAssetPrices, getCachedPrices]
  dsimp only
  rw [if_neg (List.ne_nil_of_mem hmem), pricesOf_append_of_notMem, pricesOf_table hmem]
  intro a ha hof
  obtain ⟨address', hmem', rfl⟩ := List.mem_map.mp ha
  have hne := of_decide_eq_true (List.mem_filter.mp hmem').2
  change address' = address at hof
  rw [hof] at hne
  exact hne hempty

end

/-! ## What is chosen -/

/-- A time that says nothing about an age. -/
def Timeless (timestamp : Timestamp) : Prop := timestamp = none ∨ timestamp = some .nan

/-- Without a time, the last price is current. -/
theorem getCurrentPrice_timeless {timestamp : Timestamp} (h : Timeless timestamp) (threshold : ℚ)
    (now : Nat) (rows : List AssetCurrentPrice) :
    getCurrentPrice threshold now (rows.map fun row => ⟨timestamp, row.value⟩) =
      rows.getLast?.map AssetCurrentPrice.value := by
  unfold getCurrentPrice
  rw [List.getLast?_map]
  cases rows.getLast? with
  | none => rfl
  | some row =>
    rcases h with rfl | rfl
    · simp
    · rfl

/-- A time that is not a number is within no time of any other. -/
theorem matchPrice_nan (maxTimeDifference : ℚ) (timestamp : ℤ) (rows : List AssetCurrentPrice) :
    matchPrice maxTimeDifference timestamp (rows.map fun row => ⟨some .nan, row.value⟩) = none := by
  have hcandidates : (rows.map fun row => (⟨some .nan, row.value⟩ : TimestampPrice)).filter
      (fun price => (price.timestamp.toNumber - .finite (timestamp : ℚ)).abs.le
        (.finite maxTimeDifference)) = [] := by
    apply List.filter_eq_nil_iff.mpr
    intro price hprice
    obtain ⟨row, -, rfl⟩ := List.mem_map.mp hprice
    exact Bool.false_ne_true
  rw [matchPrice, hcandidates]
  rfl

/-- Among equals the first one is the least. -/
theorem minBy_const {iteratee : α → JsNumber} {q : ℚ} {list : List α}
    (h : ∀ a ∈ list, iteratee a = .finite q) : minBy iteratee list = list.head? := by
  cases list with
  | nil => rfl
  | cons a list =>
    obtain ⟨ha, hlist⟩ := List.forall_mem_cons.mp h
    have hkept : ∀ l : List α, (∀ b ∈ l, iteratee b = .finite q) →
        l.foldl (fun least b =>
          match least with
          | none => if iteratee b = .nan then none else some b
          | some c => if (iteratee b).lt (iteratee c) then some b else some c) (some a) =
          some a := by
      intro l hl
      induction l with
      | nil => rfl
      | cons b l ih =>
        obtain ⟨hb, hl⟩ := List.forall_mem_cons.mp hl
        have hlt : (iteratee b).lt (iteratee a) = false := by
          rw [ha, hb]
          exact decide_eq_false (lt_irrefl q)
        simp only [List.foldl_cons, hlt]
        exact ih hl
    have hnumber : iteratee a ≠ .nan := by
      rw [ha]
      exact JsNumber.noConfusion
    rw [minBy, List.foldl_cons]
    simp only [hnumber, if_false]
    exact hkept list hlist

/-- `null` is the time zero. -/
theorem matchPrice_null (maxTimeDifference : ℚ) (timestamp : ℤ) (rows : List AssetCurrentPrice) :
    matchPrice maxTimeDifference timestamp (rows.map fun row => ⟨none, row.value⟩) =
      if |(timestamp : ℚ)| ≤ maxTimeDifference then rows.head?.map AssetCurrentPrice.value
      else none := by
  have hdifference : ∀ price ∈ rows.map fun row => (⟨none, row.value⟩ : TimestampPrice),
      (price.timestamp.toNumber - .finite (timestamp : ℚ)).abs = .finite |(timestamp : ℚ)| := by
    intro price hprice
    obtain ⟨row, -, rfl⟩ := List.mem_map.mp hprice
    change JsNumber.finite |0 + -(timestamp : ℚ)| = _
    rw [zero_add, abs_neg]
  have hle : (JsNumber.finite |(timestamp : ℚ)|).le (.finite maxTimeDifference) =
      decide (|(timestamp : ℚ)| ≤ maxTimeDifference) := by
    change (!decide (maxTimeDifference < |(timestamp : ℚ)|)) = _
    rw [← decide_not, decide_eq_decide, not_lt]
  unfold matchPrice
  dsimp only
  split
  · next h =>
    rw [List.filter_eq_self.mpr, minBy_const hdifference, List.head?_map, Option.map_map]
    · rfl
    · intro price hprice
      rw [hdifference price hprice, hle]
      exact decide_eq_true h
  · next h =>
    rw [List.filter_eq_nil_iff.mpr]
    · rfl
    · intro price hprice
      rw [hdifference price hprice, hle]
      exact fun hdecide => h (of_decide_eq_true hdecide)

/-! ## The law -/

/-- A price of the table with the latest time. -/
def MostRecent (rows : List AssetCurrentPrice) (row : AssetCurrentPrice) : Prop :=
  row ∈ rows ∧ ∀ other ∈ rows, other.updatedAt ≤ row.updatedAt

/-- The most recent price if it is at most the threshold old, and else none. -/
def IsCurrentPrice (threshold : ℚ) (now : Nat) (rows : List AssetCurrentPrice) : Option ℚ → Prop
  | some price => ∃ row, MostRecent rows row ∧ now - row.updatedAt ≤ threshold ∧ row.value = price
  | none => ∀ row ∈ rows, ¬ now - row.updatedAt ≤ threshold

/-- How far a price of the table is from a timestamp. -/
def distance (timestamp : ℤ) (row : AssetCurrentPrice) : ℚ := |(row.updatedAt : ℚ) - timestamp|

/-- A price of the table within the threshold, with none nearer to the timestamp. -/
def Nearest (maxTimeDifference : ℚ) (timestamp : ℤ) (rows : List AssetCurrentPrice)
    (row : AssetCurrentPrice) : Prop :=
  row ∈ rows ∧ distance timestamp row ≤ maxTimeDifference ∧
    ∀ other ∈ rows, distance timestamp row ≤ distance timestamp other

/-- The nearest price within the threshold, and none if there is none. -/
def IsMatch (maxTimeDifference : ℚ) (timestamp : ℤ) (rows : List AssetCurrentPrice) :
    Option ℚ → Prop
  | some price => ∃ row, Nearest maxTimeDifference timestamp rows row ∧ row.value = price
  | none => ∀ row ∈ rows, ¬ distance timestamp row ≤ maxTimeDifference

section
variable (T : Thresholds) (db : Database) (cache : PriceCache)

def CurrentRight (now : Nat) (query : PriceQuery) : Prop :=
  ∀ address ∈ query.addresses, ∃ price,
    (getCurrentPrices T db cache now query).get address = some price ∧
      IsCurrentPrice T.allowedCurrentPriceThresholdInSeconds now
        (priceRows db ⟨query.chain, query.currency, address⟩) price

/-- A map of matched prices has for each timestamp what the table asks for. -/
def Matches (key : PriceKey) (timestamps : List ℤ) (prices : JsMap ℤ (Option ℚ)) : Prop :=
  ∀ timestamp ∈ timestamps, ∃ price, prices.get timestamp = some price ∧
    IsMatch T.allowedHistoricalPriceThresholdInSeconds timestamp (priceRows db key) price

def HistoricalRight (query : PriceQuery) (timestamps : List ℤ) : Prop :=
  ∀ address ∈ query.addresses, ∃ prices,
    (getHistoricalPrices T db cache query timestamps).get address = some prices ∧
      Matches T db ⟨query.chain, query.currency, address⟩ timestamps prices

def BatchesRight (chain currency : Nat) (assets : List TokenPriceRequest) : Prop :=
  ∀ asset ∈ assets, ∃ prices,
    (getPricesInBatches T db cache chain currency assets).get asset.address = some prices ∧
      Matches T db ⟨chain, currency, asset.address⟩ (timestampsOf assets asset.address) prices

/-- A price that is young enough has the value of the one that comes last, if there is one. -/
def CurrentFits (now : Nat) (key : PriceKey) : Prop :=
  ∀ last, (priceRows db key).getLast? = some last → ∃ row, MostRecent (priceRows db key) row ∧
    now - row.updatedAt ≤ T.allowedCurrentPriceThresholdInSeconds ∧ row.value = last.value

/-- No price is within the threshold of the timestamp. For a cached address whose prices all count
as prices of the time zero, which is within it, the nearest price has the value of the first one. -/
def MatchFits (key : PriceKey) (timestamp : ℤ) : Prop :=
  if Cached cache key ∧ |(timestamp : ℚ)| ≤ T.allowedHistoricalPriceThresholdInSeconds then
    ∀ first, (priceRows db key).head? = some first → ∃ row,
      Nearest T.allowedHistoricalPriceThresholdInSeconds timestamp (priceRows db key) row ∧
        row.value = first.value
  else ∀ row ∈ priceRows db key,
    ¬ distance timestamp row ≤ T.allowedHistoricalPriceThresholdInSeconds

end

section
variable {T : Thresholds} {db : Database} {cache : PriceCache}

theorem isCurrentPrice_last {threshold : ℚ} {now : Nat} {rows : List AssetCurrentPrice} :
    IsCurrentPrice threshold now rows (rows.getLast?.map AssetCurrentPrice.value) ↔
      ∀ last, rows.getLast? = some last → ∃ row, MostRecent rows row ∧
        now - row.updatedAt ≤ threshold ∧ row.value = last.value := by
  cases hlast : rows.getLast? with
  | none =>
    rw [List.getLast?_eq_none_iff.mp hlast]
    exact iff_of_true (fun _ h => (List.not_mem_nil h).elim) fun _ h => nomatch h
  | some last =>
    constructor
    · rintro H _ ⟨⟩
      exact H
    · exact fun H => H last rfl

theorem isMatch_first {maxTimeDifference : ℚ} {timestamp : ℤ} {rows : List AssetCurrentPrice} :
    IsMatch maxTimeDifference timestamp rows (rows.head?.map AssetCurrentPrice.value) ↔
      ∀ first, rows.head? = some first → ∃ row, Nearest maxTimeDifference timestamp rows row ∧
        row.value = first.value := by
  cases rows with
  | nil => exact iff_of_true (fun _ h => (List.not_mem_nil h).elim) fun _ h => nomatch h
  | cons first rows =>
    constructor
    · rintro H _ ⟨⟩
      exact H
    · exact fun H => H first rfl

/-- What holds of all responses that are made address by address. -/
theorem forall_get_graph [DecidableEq κ] {keys : List κ} {f : κ → β} {P : κ → β → Prop} :
    (∀ key ∈ keys, ∃ value,
      (JsMap.ofEntries (keys.map fun key => (key, f key))).get key = some value ∧ P key value) ↔
        ∀ key ∈ keys, P key (f key) := by
  apply forall₂_congr
  intro key hkey
  rw [JsMap.get_ofEntries_graph f hkey]
  exact ⟨fun ⟨_, h, hP⟩ => Option.some.inj h ▸ hP, fun hP => ⟨_, rfl, hP⟩⟩

theorem getCurrentPrice_right {chain currency now : Nat} {addresses : List Address}
    {address : Address} (hcache : CacheOf db cache) (h : address ∈ addresses) :
    IsCurrentPrice T.allowedCurrentPriceThresholdInSeconds now
      (priceRows db ⟨chain, currency, address⟩)
      (getCurrentPrice T.allowedCurrentPriceThresholdInSeconds now
        (pricesOf (getAssetPrices db cache chain currency addresses) address)) ↔
      CurrentFits T db now ⟨chain, currency, address⟩ := by
  by_cases hcached : Cached cache ⟨chain, currency, address⟩
  · rw [pricesOf_of_cached hcache h hcached, getCurrentPrice_timeless (.inl rfl)]
    exact isCurrentPrice_last
  · rw [pricesOf_of_not_cached h hcached, getCurrentPrice_timeless (.inr rfl)]
    exact isCurrentPrice_last

theorem matchPrice_right {chain currency : Nat} {addresses : List Address} {address : Address}
    (hcache : CacheOf db cache) (h : address ∈ addresses) (timestamp : ℤ) :
    IsMatch T.allowedHistoricalPriceThresholdInSeconds timestamp
      (priceRows db ⟨chain, currency, address⟩)
      (matchPrice T.allowedHistoricalPriceThresholdInSeconds timestamp
        (pricesOf (getAssetPrices db cache chain currency addresses) address)) ↔
      MatchFits T db cache ⟨chain, currency, address⟩ timestamp := by
  unfold MatchFits
  by_cases hcached : Cached cache ⟨chain, currency, address⟩
  · rw [pricesOf_of_cached hcache h hcached, matchPrice_null]
    by_cases hzero : |(timestamp : ℚ)| ≤ T.allowedHistoricalPriceThresholdInSeconds
    · rw [if_pos hzero, if_pos ⟨hcached, hzero⟩]
      exact isMatch_first
    · rw [if_neg hzero, if_neg fun hboth => hzero hboth.2]
      exact Iff.rfl
  · rw [pricesOf_of_not_cached h hcached, matchPrice_nan, if_neg fun hboth => hcached hboth.1]
    exact Iff.rfl

theorem matchPrices_right {chain currency : Nat} {addresses : List Address} {address : Address}
    (hcache : CacheOf db cache) (h : address ∈ addresses) (timestamps : List ℤ) :
    Matches T db ⟨chain, currency, address⟩ timestamps
      (matchPrices T.allowedHistoricalPriceThresholdInSeconds timestamps
        (pricesOf (getAssetPrices db cache chain currency addresses) address)) ↔
      ∀ timestamp ∈ timestamps, MatchFits T db cache ⟨chain, currency, address⟩ timestamp := by
  refine forall_get_graph.trans (forall₂_congr fun timestamp _ => ?_)
  exact matchPrice_right hcache h timestamp

end

/-- The times of the table play no part. So a current price is right if it is young enough anyway,
and a timestamp gets no price, which is right if none is near. -/
theorem responses_iff (T : Thresholds) (hcache : CacheOf db cache) :
    (∀ now query, CurrentRight T db cache now query ↔ ∀ address ∈ query.addresses,
      CurrentFits T db now ⟨query.chain, query.currency, address⟩) ∧
    (∀ query timestamps, HistoricalRight T db cache query timestamps ↔
      ∀ address ∈ query.addresses, ∀ timestamp ∈ timestamps,
        MatchFits T db cache ⟨query.chain, query.currency, address⟩ timestamp) ∧
    ∀ chain currency assets, BatchesRight T db cache chain currency assets ↔
      ∀ asset ∈ assets, ∀ timestamp ∈ timestampsOf assets asset.address,
        MatchFits T db cache ⟨chain, currency, asset.address⟩ timestamp := by
  refine ⟨fun now query => ?_, fun query timestamps => ?_, fun chain currency assets => ?_⟩
  · refine forall_get_graph.trans (forall₂_congr fun address h => ?_)
    exact getCurrentPrice_right hcache h
  · refine forall_get_graph.trans (forall₂_congr fun address h => ?_)
    exact matchPrices_right hcache h timestamps
  · have haddresses : (∀ address ∈ assets.map TokenPriceRequest.address, ∃ prices,
        (getPricesInBatches T db cache chain currency assets).get address = some prices ∧
          Matches T db ⟨chain, currency, address⟩ (timestampsOf assets address) prices) ↔
        ∀ address ∈ assets.map TokenPriceRequest.address,
          ∀ timestamp ∈ timestampsOf assets address,
            MatchFits T db cache ⟨chain, currency, address⟩ timestamp := by
      refine forall_get_graph.trans (forall₂_congr fun address h => ?_)
      exact matchPrices_right hcache h (timestampsOf assets address)
    rwa [List.forall_mem_map, List.forall_mem_map] at haddresses

/-! ## A sample -/

/-- One price, of the time 1000. -/
def sampleDb : Database where
  assets := [⟨1, 1, "0xa"⟩]
  prices := fun id => if id = 1 then some ⟨1, 5, 1, 1000⟩ else none
  nextId := 2
  now := 10000
  ordered := List.pairwise_singleton ..
  bounded := by decide

def sampleThresholds : Thresholds := ⟨3600, 1800⟩

def sampleQuery : PriceQuery := ⟨1, 1, ["0xa"]⟩

theorem priceRows_sampleDb : priceRows sampleDb ⟨1, 1, "0xa"⟩ = [⟨1, 5, 1, 1000⟩] := by
  decide +kernel

/-- The cache after a request for the price. -/
def sampleCache : PriceCache :=
  Store.empty.set (cacheKey ⟨1, 1, "0xa"⟩) (throughCache (tablePrices sampleDb ⟨1, 1, "0xa"⟩))

theorem cacheOf_sampleCache : CacheOf sampleDb sampleCache := by
  intro key list hlist
  by_cases hkey : key = ⟨1, 1, "0xa"⟩
  · subst hkey
    rw [sampleCache, Store.set_self] at hlist
    exact .inr (Option.some.inj hlist).symm
  · rw [sampleCache, Store.set_of_ne (cacheKey_inj.not.mpr hkey)] at hlist
    cases hlist

theorem cached_sampleCache : Cached sampleCache ⟨1, 1, "0xa"⟩ := by
  rw [Cached, sampleCache, Store.set_self, Option.getD_some, throughCache_tablePrices,
    priceRows_sampleDb]
  exact List.cons_ne_nil _ _

/-- The cached price is the nearest one for a time near zero, and none is near the time 5000. -/
theorem matchFits_sampleCache :
    MatchFits sampleThresholds sampleDb sampleCache ⟨1, 1, "0xa"⟩ 900 ∧
      MatchFits sampleThresholds sampleDb sampleCache ⟨1, 1, "0xa"⟩ 5000 := by
  unfold MatchFits
  rw [priceRows_sampleDb, if_pos ⟨cached_sampleCache, by norm_num [sampleThresholds]⟩,
    if_neg fun h => absurd h.2 (by norm_num [sampleThresholds])]
  constructor
  · rintro first ⟨⟩
    refine ⟨_, ⟨List.mem_singleton_self _, by norm_num [distance, sampleThresholds], ?_⟩, rfl⟩
    intro other hother
    cases List.mem_singleton.mp hother
    exact le_rfl
  · intro row hrow
    cases List.mem_singleton.mp hrow
    norm_num [distance, sampleThresholds]

/-- At the time 2000 the cached price is young enough; of the timestamps, one gets the price. -/
theorem sample_right :
    CurrentRight sampleThresholds sampleDb sampleCache 2000 sampleQuery ∧
      HistoricalRight sampleThresholds sampleDb sampleCache sampleQuery [900, 5000] ∧
      BatchesRight sampleThresholds sampleDb sampleCache 1 1 [⟨"0xa", [900, 5000]⟩] := by
  obtain ⟨hcurrent, hhistorical, hbatches⟩ := responses_iff sampleThresholds cacheOf_sampleCache
  have hfits : ∀ timestamp ∈ [900, 5000],
      MatchFits sampleThresholds sampleDb sampleCache ⟨1, 1, "0xa"⟩ timestamp := by
    rw [List.forall_mem_cons, List.forall_mem_singleton]
    exact matchFits_sampleCache
  refine ⟨(hcurrent 2000 sampleQuery).mpr ?_, (hhistorical sampleQuery _).mpr ?_,
    (hbatches 1 1 _).mpr ?_⟩
  · intro address haddress last hlast
    cases List.mem_singleton.mp haddress
    change (priceRows sampleDb ⟨1, 1, "0xa"⟩).getLast? = some last at hlast
    change ∃ row, MostRecent (priceRows sampleDb ⟨1, 1, "0xa"⟩) row ∧ _
    rw [priceRows_sampleDb] at hlast ⊢
    cases hlast
    refine ⟨_, ⟨List.mem_singleton_self _, ?_⟩, ?_, rfl⟩
    · intro other hother
      cases List.mem_singleton.mp hother
      exact le_rfl
    · norm_num [sampleThresholds]
  · intro address haddress
    cases List.mem_singleton.mp haddress
    exact hfits
  · intro asset hasset
    cases List.mem_singleton.mp hasset
    exact hfits

/-- At the time 10000 the price is too old, and it is the current one; at its own time there is
none. -/
theorem sample_not_right :
    ¬ CurrentRight sampleThresholds sampleDb Store.empty 10000 sampleQuery ∧
      ¬ HistoricalRight sampleThresholds sampleDb Store.empty sampleQuery [1000] := by
  constructor
  · intro h
    obtain ⟨price, hget, hprice⟩ := h "0xa" (List.mem_singleton_self _)
    have hfive : (getCurrentPrices sampleThresholds sampleDb Store.empty 10000 sampleQuery).get
        "0xa" = some (some 5) := by decide +kernel
    cases Option.some.inj (hget.symm.trans hfive)
    obtain ⟨row, ⟨hmem, -⟩, hage, -⟩ := hprice
    cases List.mem_singleton.mp (priceRows_sampleDb ▸ hmem)
    norm_num [sampleThresholds] at hage
  · intro h
    obtain ⟨prices, hget, hprices⟩ := h "0xa" (List.mem_singleton_self _)
    have hnone : (getHistoricalPrices sampleThresholds sampleDb Store.empty sampleQuery [1000]).get
        "0xa" = some [(1000, none)] := by decide +kernel
    cases Option.some.inj (hget.symm.trans hnone)
    obtain ⟨price, hprice, hmatch⟩ := hprices 1000 (List.mem_singleton_self _)
    cases Option.some.inj hprice
    have hrow : (⟨1, 5, 1, 1000⟩ : AssetCurrentPrice) ∈ priceRows sampleDb ⟨1, 1, "0xa"⟩ := by
      rw [priceRows_sampleDb]
      exact List.mem_singleton_self _
    refine hmatch _ hrow ?_
    norm_num [distance, sampleThresholds]

end TimedPrices
end Price
end DefiBackend
