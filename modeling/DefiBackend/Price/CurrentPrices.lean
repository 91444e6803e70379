import DefiBackend.Common.Address
import DefiBackend.Common.CacheKey
import DefiBackend.Theory.KeyValue
import DefiBackend.Theory.Run
import Mathlib.Data.Rat.Defs

/-! # Current prices

`updateCurrentPrice` and `fetchPrices` of the price service, over one cache and one database.

* `PriceKey.text`: the keys of current prices;
* `Database`: the two tables, with the statements of the repository. A statement is taken at its
  meaning for addresses without quotes;
* `step`: the two functions as a system. Any number of calls are in flight and every awaited
  operation is one step that may come at any time or fail. The writes that are not awaited, the
  last ones of an update and those of a fetch that has missed some addresses, are steps too. Nothing
  expires.

The state keeps a record that the code does not: the price that a completed update has set last. -/

namespace DefiBackend
namespace Price
open Theory

structure PriceRequestCurrentDto where
  address : Address
  price : Option ℚ
  chainId : Nat
  currencyId : Nat
  sourceId : Option Nat
  deriving DecidableEq

/-- What a current price is the price of. -/
structure PriceKey where
  chain : Nat
  currency : Nat
  address : Address
  deriving DecidableEq

/-- `getCurrentPriceKey`. -/
def PriceKey.text (key : PriceKey) : String :=
  "current_price_" ++ keyField key.chain (keyField key.currency key.address)

theorem PriceKey.text_inj {key key' : PriceKey} : key.text = key'.text ↔ key = key' := by
  obtain ⟨chain, currency, address⟩ := key
  obtain ⟨chain', currency', address'⟩ := key'
  simp [PriceKey.text, keyField_inj]

namespace PriceRequestCurrentDto

def key (dto : PriceRequestCurrentDto) : PriceKey := ⟨dto.chainId, dto.currencyId, dto.address⟩

/-- `dto.price` is truthy. -/
def notEmpty (dto : PriceRequestCurrentDto) : Bool :=
  match dto.price with
  | some price => price ≠ 0
  | none => false

end PriceRequestCurrentDto

/-- `row.value`. -/
inductive PriceValue
  | number (price : ℚ)
  | null
  | undefined
  deriving DecidableEq

/-- The two shapes of a cached current price: the request as it came, and an address with a
value. -/
inductive CacheEntry
  | request (dto : PriceRequestCurrentDto)
  | price (address : Address) (value : Option ℚ)
  deriving DecidableEq

namespace CacheEntry

def address : CacheEntry → Address
  | request dto => dto.address
  | price address _ => address

/-- A request has a `price`, but no `value`. -/
def value : CacheEntry → PriceValue
  | request _ => .undefined
  | price _ (some value) => .number value
  | price _ none => .null

end CacheEntry

abbrev Cache := Store String CacheEntry

/-! ## The database -/

/-- A row of `prices.asset`. -/
structure Asset where
  id : Nat
  chainId : Nat
  address : Address
  deriving DecidableEq

/-- A row of `prices.asset_current_price`, of which there is one for an asset. -/
structure AssetCurrentPrice where
  currencyId : Nat
  value : ℚ
  sourceId : Nat
  updatedAt : Nat
  deriving DecidableEq

/-- The tables, the next asset id and the time. Assets stand in the order of their ids. -/
structure Database where
  assets : List Asset
  prices : Nat → Option AssetCurrentPrice
  nextId : Nat
  now : Nat
  ordered : assets.Pairwise fun a b => a.id < b.id
  bounded : ∀ a ∈ assets, a.id < nextId

structure AssociatedAssetPrice where
  assetId : Nat
  address : Address
  currencyId : Nat
  value : Option ℚ
  chainId : Nat
  sourceId : Nat
  deriving DecidableEq

/-- A row that `saveCurrentPrices` returns. -/
structure SavedPrice where
  assetId : Nat
  row : AssetCurrentPrice
  deriving DecidableEq

/-- `dto.address === asset.address && dto.chainId === asset.chainId`. -/
def isOf (dto : PriceRequestCurrentDto) (asset : Asset) : Bool :=
  dto.address = asset.address ∧ dto.chainId = asset.chainId

/-- New rows for the assets of some requests. -/
def newAssets : List PriceRequestCurrentDto → Nat → List Asset
  | [], _ => []
  | dto :: requests, id => ⟨id, dto.chainId, dto.address⟩ :: newAssets requests (id + 1)

theorem le_id_of_mem_newAssets {requests : List PriceRequestCurrentDto} {n : Nat}
    (h : a ∈ newAssets requests n) : n ≤ a.id ∧ a.id < n + requests.length := by
  induction requests generalizing n with
  | nil => exact nomatch h
  | cons dto requests ih =>
    rw [List.length_cons]
    obtain rfl | h := List.mem_cons.mp h
    · exact ⟨le_rfl, Nat.lt_add_of_pos_right (Nat.succ_pos _)⟩
    · have := ih h
      omega

theorem ordered_newAssets (requests : List PriceRequestCurrentDto) (n : Nat) :
    (newAssets requests n).Pairwise fun a b => a.id < b.id := by
  induction requests generalizing n with
  | nil => exact .nil
  | cons dto requests ih =>
    exact .cons (fun a ha => (le_id_of_mem_newAssets ha).1) (ih (n + 1))

namespace Database
variable (db : Database)

/-- `findAssetsByAddressesAndChains`. -/
def findAssets (requests : List PriceRequestCurrentDto) : List Asset :=
  db.assets.filter fun asset => requests.any (isOf · asset)

/-- `savePriceAssets`: the new assets get the next ids. -/
def savePriceAssets (requests : List PriceRequestCurrentDto) : Database where
  assets := db.assets ++ newAssets requests db.nextId
  prices := db.prices
  nextId := db.nextId + requests.length
  now := db.now
  ordered := List.pairwise_append.mpr ⟨db.ordered, ordered_newAssets _ _, fun a ha b hb =>
    (db.bounded a ha).trans_le (le_id_of_mem_newAssets hb).1⟩
  bounded a ha := by
    obtain ha | ha := List.mem_append.mp ha
    · exact (db.bounded a ha).trans_le (Nat.le_add_right ..)
    · exact (le_id_of_mem_newAssets ha).2

/-- The row of an asset after `ON CONFLICT (asset_id) DO UPDATE`: its currency stays. -/
def savedRow (price : AssociatedAssetPrice) (value : ℚ) : AssetCurrentPrice :=
  match db.prices price.assetId with
  | some row => ⟨row.currencyId, value, price.sourceId, db.now⟩
  | none => ⟨price.currencyId, value, price.sourceId, db.now⟩

/-- The rows of `saveCurrentPrices`, unless a price is missing. -/
def savedRows (prices : List AssociatedAssetPrice) : Option (List SavedPrice) :=
  prices.mapM fun price => price.value.map fun value => ⟨price.assetId, db.savedRow price value⟩

/-- `saveCurrentPrices`, for the rows that are saved. -/
def savePrices (rows : List SavedPrice) : Database :=
  { db with prices := rows.foldl (fun prices saved =>
      Function.update prices saved.assetId (some saved.row)) db.prices }

/-- `getCurrentPricesByAddressesAndChain`: the prices of the last day, in any currency. -/
def getCurrentPrices (addresses : List Address) (chain : Nat) : List (Address × ℚ) :=
  db.assets.filterMap fun asset =>
    if asset.address ∈ addresses ∧ asset.chainId = chain then
      match db.prices asset.id with
      | some row => if db.now ≤ row.updatedAt + 86400 then some (asset.address, row.value) else none
      | none => none
    else none

end Database

/-! ## The service -/

/-- `getAssociatedAssetsPrices`; it fails at an asset without a request. -/
def getAssociatedAssetsPrices (assets : List Asset) (listOfDTO : List PriceRequestCurrentDto) :
    Option (List AssociatedAssetPrice) :=
  assets.mapM fun asset => (listOfDTO.find? (isOf · asset)).map fun dto =>
    { assetId := asset.id
      address := asset.address
      currencyId := dto.currencyId
      value := dto.price
      chainId := asset.chainId
      sourceId := if dto.sourceId.getD 0 = 0 then 1 else dto.sourceId.getD 0 }

/-- The writes of `updateCurrentPrice` that are not awaited. -/
def finalSets (prices : List AssociatedAssetPrice) (rows : List SavedPrice) :
    List (PriceKey × ℚ) :=
  rows.filterMap fun saved =>
    (prices.find? (·.assetId = saved.assetId)).map fun price =>
      (⟨price.chainId, saved.row.currencyId, price.address⟩, saved.row.value)

/-- `mapRowsToCurrentPrices`. -/
def mapRowsToCurrentPrices (rows : List CacheEntry) : Address → Option PriceValue :=
  rows.foldl (fun result row => Function.update result row.address (some row.value)) fun _ => none

/-- How far an `updateCurrentPrice` is: before its first write to the cache, before each of its
statements, after the last one has been executed, and with some of its last writes to come. -/
inductive UpdateStage
  | caching
  | finding
  | adding (found : List Asset)
  | saving (assets : List Asset)
  | completing (prices : List AssociatedAssetPrice) (rows : List SavedPrice)
  | setting (sets : List (PriceKey × ℚ))

structure Update where
  requests : List PriceRequestCurrentDto
  stage : UpdateStage

/-- How far a `fetchPrices` is: before it reads the cache; before it asks the database, with what
had been set when it read the cache; and before its two writes to the cache. -/
inductive FetchStage
  | reading
  | querying (cached : List CacheEntry) (notCached : List Address) (known : Address → Option ℚ)
  | writingRows (rows : List (Address × ℚ)) (notCached : List Address)
  | writingUnknown (unknown : List Address)

structure Fetch where
  chain : Nat
  currency : Nat
  addresses : List Address
  stage : FetchStage

def Fetch.key (fetch : Fetch) (address : Address) : PriceKey :=
  ⟨fetch.chain, fetch.currency, address⟩

/-- The prices of a response, with what had been set when the cache was read. -/
structure FetchResponse where
  fetch : Fetch
  known : Address → Option ℚ
  prices : Address → Option PriceValue

structure World where
  cache : Cache
  db : Database
  updates : Nat → Option Update
  fetches : Nat → Option Fetch
  lastSet : PriceKey → Option ℚ
  responses : List FetchResponse

inductive Action
  | update (n : Nat) (requests : List PriceRequestCurrentDto)
  | updateCached (n : Nat)
  | updateFound (n : Nat)
  | updateAdded (n : Nat)
  | updateSaved (n : Nat)
  | updateCompleted (n : Nat)
  | setLanded (n : Nat) (place : Nat)
  | updateFailed (n : Nat)
  | fetch (n : Nat) (chain currency : Nat) (addresses : List Address)
  | fetchRead (n : Nat)
  | fetchRows (n : Nat)
  | rowsLanded (n : Nat)
  | unknownLanded (n : Nat)
  | fetchFailed (n : Nat)
  | tick

namespace World
variable (s : World)

/-- An empty cache, and no calls. -/
def init (db : Database) : World :=
  ⟨.empty, db, fun _ => none, fun _ => none, fun _ => none, []⟩

def setUpdate (n : Nat) (update : Option Update) : World :=
  { s with updates := Function.update s.updates n update }

def setFetch (n : Nat) (fetch : Option Fetch) : World :=
  { s with fetches := Function.update s.fetches n fetch }

def respond (response : FetchResponse) : World :=
  { s with responses := s.responses ++ [response] }

end World

/-- The entries of `updatePricesInCache`. -/
def requestEntries (requests : List PriceRequestCurrentDto) : List (String × CacheEntry) :=
  (requests.filter PriceRequestCurrentDto.notEmpty).map fun dto => (dto.key.text, .request dto)

/-- The record of the prices that are set when an update completes. -/
def recordSet (lastSet : PriceKey → Option ℚ) (requests : List PriceRequestCurrentDto) :
    PriceKey → Option ℚ :=
  requests.foldl (fun lastSet dto => Function.update lastSet dto.key dto.price) lastSet

/-- The addresses of a fetch that no cached entry is for. -/
def notCached (addresses : List Address) (cached : List CacheEntry) : List Address :=
  addresses.filter fun address => cached.all fun entry => entry.address ≠ address

/-- The requests for which no assets were found. -/
def dtoForMissingAssets (requests : List PriceRequestCurrentDto) (found : List Asset) :
    List PriceRequestCurrentDto :=
  requests.filter fun dto => !found.any (isOf dto)

/-- One step. The second write of `updateCurrentPrice` to the cache has keys of its own and is left
out. -/
def step (s : World) : Action → Option World
  | .update n requests =>
    match s.updates n with
    | none => some (s.setUpdate n (some ⟨requests, .caching⟩))
    | some _ => none
  | .updateCached n =>
    match s.updates n with
    | some ⟨requests, .caching⟩ =>
      some ({ s with cache := s.cache.mset (requestEntries requests) }.setUpdate n
        (some ⟨requests, .finding⟩))
    | _ => none
  | .updateFound n =>
    match s.updates n with
    | some ⟨requests, .finding⟩ =>
      let found := s.db.findAssets requests
      if requests = [] then none
      else some (s.setUpdate n (some ⟨requests,
        if dtoForMissingAssets requests found = [] then .saving found else .adding found⟩))
    | _ => none
  | .updateAdded n =>
    match s.updates n with
    | some ⟨requests, .adding found⟩ =>
      let missing := dtoForMissingAssets requests found
      some ({ s with db := s.db.savePriceAssets missing }.setUpdate n
        (some ⟨requests, .saving (found ++ newAssets missing s.db.nextId)⟩))
    | _ => none
  | .updateSaved n =>
    match s.updates n with
    | some ⟨requests, .saving assets⟩ =>
      match getAssociatedAssetsPrices assets requests with
      | none => none
      | some prices =>
        match s.db.savedRows prices with
        | none => none
        | some rows =>
          some ({ s with db := s.db.savePrices rows }.setUpdate n
            (some ⟨requests, .completing prices rows⟩))
    | _ => none
  | .updateCompleted n =>
    match s.updates n with
    | some ⟨requests, .completing prices rows⟩ =>
      some ({ s with lastSet := recordSet s.lastSet requests }.setUpdate n
        (some ⟨requests, .setting (finalSets prices rows)⟩))
    | _ => none
  | .setLanded n place =>
    match s.updates n with
    | some ⟨requests, .setting sets⟩ =>
      match sets[place]? with
      | none => none
      | some (key, value) =>
        some ({ s with cache := s.cache.set key.text (.price key.address (some value)) }.setUpdate n
          (some ⟨requests, .setting (sets.eraseIdx place)⟩))
    | _ => none
  | .updateFailed n =>
    match s.updates n with
    | none | some ⟨_, .setting _⟩ => none
    | some _ => some (s.setUpdate n none)
  | .fetch n chain currency addresses =>
    match s.fetches n with
    | none => some (s.setFetch n (some ⟨chain, currency, addresses, .reading⟩))
    | some _ => none
  | .fetchRead n =>
    match s.fetches n with
    | some ⟨chain, currency, addresses, .reading⟩ =>
      let key := PriceKey.mk chain currency
      let cached := addresses.filterMap fun address => s.cache (key address).text
      let known := fun address => s.lastSet (key address)
      if notCached addresses cached = [] then
        some ((s.setFetch n none).respond
          ⟨⟨chain, currency, addresses, .reading⟩, known, mapRowsToCurrentPrices cached⟩)
      else
        some (s.setFetch n (some
          ⟨chain, currency, addresses, .querying cached (notCached addresses cached) known⟩))
    | _ => none
  | .fetchRows n =>
    match s.fetches n with
    | some ⟨chain, currency, addresses, .querying cached notCached known⟩ =>
      let rows := s.db.getCurrentPrices notCached chain
      some ((s.setFetch n (some ⟨chain, currency, addresses, .writingRows rows notCached⟩)).respond
        ⟨⟨chain, currency, addresses, .reading⟩, known, mapRowsToCurrentPrices
          (rows.map (fun row => .price row.1 (some row.2)) ++ cached)⟩)
    | _ => none
  | .rowsLanded n =>
    match s.fetches n with
    | some ⟨chain, currency, addresses, .writingRows rows notCached⟩ =>
      let s := { s with cache := s.cache.mset (rows.map fun (address, value) =>
        ((PriceKey.mk chain currency address).text, .price address (some value))) }
      if rows.length = notCached.length then some (s.setFetch n none)
      else some (s.setFetch n (some ⟨chain, currency, addresses, .writingUnknown
        (notCached.filter fun address => rows.all fun row => row.1 ≠ address)⟩))
    | _ => none
  | .unknownLanded n =>
    match s.fetches n with
    | some ⟨chain, currency, _, .writingUnknown unknown⟩ =>
      some ({ s with cache := s.cache.mset (unknown.map fun address =>
        ((PriceKey.mk chain currency address).text, .price address none)) }.setFetch n none)
    | _ => none
  | .fetchFailed n =>
    match s.fetches n with
    | some _ => some (s.setFetch n none)
    | none => none
  | .tick => some { s with db := { s.db with now := s.db.now + 1 } }

/-- A response gives every address the price that had been set last when the cache was read. -/
def FetchResponse.Coherent (response : FetchResponse) : Prop :=
  ∀ address ∈ response.fetch.addresses, ∀ value, response.known address = some value →
    response.prices address = some (.number value)

end Price
end DefiBackend
