import DefiBackend.Common.JsMap
import DefiBackend.Common.JsNumber
import DefiBackend.Theory.Chunks

/-! # Answers of Coingecko

`processor.ts` of the external prices job: assets are asked for in chunks, those with an id of their
own by that id, the others by their addresses. The answers are put together with the requests by
their places. An address without a price is missed, and left to another provider.

* `handleCoingeckoResponse_eq`: the loops are one loop over the addresses of the fulfilled requests.
* `answered_iff`: the requests and their answers, by the chunks of the assets.
* `settled_iff`: an address has its price or is missed, and not both, exactly when a fulfilled
  request asks for it, and nothing gives a price for it if one of its answers does not. -/

namespace DefiBackend
namespace Jobs
namespace ExternalPrices
open Theory

/-! ## Requests -/

/-- An asset. Its address has no comma and is not empty. -/
structure AssetsApiDto where
  address : String
  chain : Nat
  coingeckoId : Option String

def CHUNK_SIZE : Nat := 175

/-- `ChainIdEnum.sol`. -/
def sol : Nat := 12

/-- A request, for ids or for addresses. Both are joined by commas, the addresses to be split again.
-/
inductive Request
  | ids (ids : List String) (extras : JsMap String String)
  | contracts (platformId : Option String) (contractAddresses : List String)

/-- The assets of each chain. -/
def getAssetsPerChainMap (assets : List AssetsApiDto) : JsMap Nat (List AssetsApiDto) :=
  assets.foldl (fun assetsMap a => assetsMap.pushTo a.chain a) []

/-- `d.extensions.coingeckoId`, if it is true. -/
def AssetsApiDto.id? (d : AssetsApiDto) : Option String := d.coingeckoId.filter (· ≠ "")

/-- The ids of a chunk's assets, with the assets' addresses. -/
def chunkIds (c : List AssetsApiDto) : List (String × String) :=
  c.filterMap fun d => d.id?.map (·, d.address)

/-- The addresses of a chunk's assets without an id. -/
def chunkContracts (c : List AssetsApiDto) : List String :=
  (c.filter (·.id?.isNone)).map (·.address)

/-- The requests for a chunk. -/
def chunkRequests (coingeckoPlatform : Option String) (c : List AssetsApiDto) : List Request :=
  let ids := chunkIds c
  let contracts := chunkContracts c
  (if ids.length > 0 then [.ids (ids.map Prod.fst) (.ofEntries ids)] else []) ++
    if contracts.length > 0 then [.contracts coingeckoPlatform contracts] else []

def buildCoingeckoRequestsMap (getCoingeckoPlatformId : Nat → Option String)
    (chainAssetsMap : JsMap Nat (List AssetsApiDto)) : JsMap Nat (List Request) :=
  chainAssetsMap.foldl (fun testMap (chain, assets) =>
    testMap.set chain ((chunks (CHUNK_SIZE - 1) assets).flatMap
      (chunkRequests (getCoingeckoPlatformId chain)))) []

/-! ## Answers -/

/-- An answer: by address or by id, the field `usd` of what was found. -/
abbrev Answer := JsMap String (Option JsNumber)

/-- `answer[address]?.usd`, if there is one. -/
def usd (value : Answer) (address : String) : Option JsNumber := (value.get address).join

def preparePricesCoingeckoId (data : Answer) (input : JsMap String String) : Answer :=
  data.foldl (fun newData (key, value) =>
    match input.get key with
    | some address => if address ≠ "" then newData.set address value else newData.set key value
    | none => newData.set key value) []

namespace Request

/-- What `CoingeckoService` makes of an answer. -/
def settle (data : Answer) : Request → Answer
  | ids _ extras => preparePricesCoingeckoId data extras
  | contracts .. => data

/-- The addresses that are looked up in an answer. -/
def addresses : Request → List String
  | ids _ extras => extras.values
  | contracts _ contractAddresses => contractAddresses

end Request

structure CurrentPrice where
  address : String
  price : JsNumber
  chainId : Nat
  currencyId : Nat
  sourceId : Nat

/-- `CurrencyIdEnum.usd`. -/
def CurrencyIdEnum.usd : Nat := 1

/-- `PriceSourcePriority.coingecko`. -/
def PriceSourcePriority.coingecko : Nat := 2

/-- Addresses, each with the chains and addresses of the assets that have its price. -/
def duplicateAssetsPricesMap : JsMap String (List (Nat × String)) :=
  [("0x54261774905f3e6e9718f2abb10ed6555cae308a",
      [(10, "0x03732a1b4297ec285999402a9129cfad62a65463")]),
    ("0x674c6ad92fd080e4004b2312b45f796a192d27a0",
      [(2, "0x03ab98f5dc94996f8c33e15cd4468794d12d41f9")]),
    ("0x467bccd9d29f223bce8043b84e8c8b282827790f",
      [(10, "0x50ae1aba372b836523c982d8ce88e89aa8a92863")])]

/-- The price of an asset. -/
def currentPrice (chainId : Nat) (address : String) (price : JsNumber) : CurrentPrice where
  address
  price
  chainId
  currencyId := CurrencyIdEnum.usd
  sourceId := PriceSourcePriority.coingecko

def handleDuplicatePriceAssets (address : String) (price : JsNumber) : List CurrentPrice :=
  match duplicateAssetsPricesMap.get address with
  | some duplicateAssets =>
    duplicateAssets.map fun (chain, address) => currentPrice chain address price
  | none => []

/-- What `handleCoingeckoResponse` returns. -/
structure Handled where
  chainsPrices : List CurrentPrice
  missedChainPricesMap : JsMap Nat (List String)

/-- The callback for an address. -/
def handleAddress (key : Nat) (value : Answer) (s : Handled) (address : String) : Handled :=
  match usd value address with
  | none => { s with missedChainPricesMap := s.missedChainPricesMap.pushTo key address }
  | some price =>
    { s with chainsPrices := s.chainsPrices ++ handleDuplicatePriceAssets address price ++
        [currentPrice key address price] }

/-- The callback for the answer to a request. Nothing is done for one that was rejected. -/
def handleAnswer (key : Nat) (request : Request) (chainResp : Option Answer) (s : Handled) :
    Handled :=
  match chainResp with
  | none => s
  | some value => request.addresses.foldl (handleAddress key value) s

def handleCoingeckoResponse (executedPriceRequests : List (List (Option Answer)))
    (requestMap : JsMap Nat (List Request)) (requestValuesArray : List (List Request)) : Handled :=
  requestMap.keys.zipIdx.foldl (fun s (key, index) =>
    ((executedPriceRequests[index]?).getD []).zipIdx.foldl (fun s (chainResp, i) =>
      match requestValuesArray[index]?.bind (·[i]?) with
      | some request => handleAnswer key request chainResp s
      | none => s) s) ⟨[], []⟩

/-- All requests are executed. One is rejected, or answered with some data, by its chain's place and
its own. -/
def execute (respond : Nat → Nat → Option Answer) (requestValuesArray : List (List Request)) :
    List (List (Option Answer)) :=
  requestValuesArray.mapIdx fun index chainMap =>
    chainMap.mapIdx fun i request => (respond index i).map request.settle

section
variable (getCoingeckoPlatformId : Nat → Option String) (assets : List AssetsApiDto)
variable (respond : Nat → Nat → Option Answer)

/-- The requests for the assets, without those on Solana. -/
def requestMap : JsMap Nat (List Request) :=
  buildCoingeckoRequestsMap getCoingeckoPlatformId
    ((getAssetsPerChainMap assets).filter (·.1 ≠ sol))

/-- The part of `process` that is about Coingecko. -/
def coingeckoPrices : Handled :=
  let requestMap := requestMap getCoingeckoPlatformId assets
  let requestValuesArray := requestMap.values
  handleCoingeckoResponse (execute respond requestValuesArray) requestMap requestValuesArray

end

/-! ## Visits -/

/-- An address of a chain that was looked up, with the price that was found. -/
structure Visit where
  chain : Nat
  address : String
  price : Option JsNumber

/-- What is done for a visit. -/
def visit (s : Handled) (v : Visit) : Handled :=
  match v.price with
  | none => { s with missedChainPricesMap := s.missedChainPricesMap.pushTo v.chain v.address }
  | some price =>
    { s with chainsPrices := s.chainsPrices ++ handleDuplicatePriceAssets v.address price ++
        [currentPrice v.chain v.address price] }

/-- The visits of a request. -/
def requestVisits (chain : Nat) (request : Request) (data : Option Answer) : List Visit :=
  match data with
  | none => []
  | some data => request.addresses.map fun address =>
    ⟨chain, address, usd (request.settle data) address⟩

/-- All visits. -/
def visits (requestMap : JsMap Nat (List Request)) (respond : Nat → Nat → Option Answer) :
    List Visit :=
  requestMap.zipIdx.flatMap fun (chain, index) =>
    chain.2.zipIdx.flatMap fun (request, i) => requestVisits chain.1 request (respond index i)

theorem handleAnswer_eq (key : Nat) (request : Request) (data : Option Answer) (s : Handled) :
    handleAnswer key request (data.map request.settle) s =
      (requestVisits key request data).foldl visit s := by
  cases data with
  | none => rfl
  | some data =>
    rw [requestVisits, List.foldl_map]
    rfl

theorem zipIdx_mapIdx {β : Type w} (g : Nat → α → β) (l : List α) :
    (l.mapIdx g).zipIdx = l.zipIdx.map fun (a, i) => (g i a, i) := by
  apply List.ext_getElem?
  intro i
  rw [List.getElem?_zipIdx, List.getElem?_mapIdx, List.getElem?_map, List.getElem?_zipIdx]
  cases l[i]? with
  | none => rfl
  | some a => simp

/-- The answers to the requests of a chain. -/
theorem foldl_handleAnswer (key : Nat) (requests : List Request) (respond : Nat → Option Answer)
    (s : Handled) :
    (requests.mapIdx fun i request => (respond i).map request.settle).zipIdx.foldl
        (fun s (chainResp, i) =>
          match requests[i]? with
          | some request => handleAnswer key request chainResp s
          | none => s) s =
      (requests.zipIdx.flatMap fun (request, i) =>
        requestVisits key request (respond i)).foldl visit s := by
  rw [zipIdx_mapIdx, List.foldl_map, List.foldl_flatMap]
  apply List.foldl_ext
  rintro s ⟨request, i⟩ hrequest
  have hget : requests[i]? = some request := List.mem_zipIdx_iff_getElem?.mp hrequest
  simp only [hget]
  exact handleAnswer_eq key request (respond i) s

/-- The loops are one loop over the visits. -/
theorem handleCoingeckoResponse_eq (requestMap : JsMap Nat (List Request))
    (respond : Nat → Nat → Option Answer) :
    handleCoingeckoResponse (execute respond requestMap.values) requestMap requestMap.values =
      (visits requestMap respond).foldl visit ⟨[], []⟩ := by
  rw [handleCoingeckoResponse, JsMap.keys, List.zipIdx_map, List.foldl_map, visits,
    List.foldl_flatMap]
  apply List.foldl_ext
  rintro s ⟨⟨key, requests⟩, index⟩ hrequests
  have hget : requestMap[index]? = some (key, requests) := List.mem_zipIdx_iff_getElem?.mp hrequests
  have hvalues : requestMap.values[index]? = some requests := by
    rw [JsMap.values, List.getElem?_map, hget, Option.map_some]
  have hexecuted : (execute respond requestMap.values)[index]? =
      some (requests.mapIdx fun i request => (respond index i).map request.settle) := by
    rw [execute, List.getElem?_mapIdx, hvalues, Option.map_some]
  simp only [Prod.map_apply, id_eq, hexecuted, hvalues, Option.getD_some, Option.bind_some]
  exact foldl_handleAnswer key requests (respond index) s

/-! ## Prices and missed addresses -/

/-- The prices that a visit adds. -/
def visitPrices (v : Visit) : List CurrentPrice :=
  match v.price with
  | none => []
  | some price =>
    handleDuplicatePriceAssets v.address price ++ [currentPrice v.chain v.address price]

theorem foldl_visit_prices (l : List Visit) (s : Handled) :
    (l.foldl visit s).chainsPrices = s.chainsPrices ++ l.flatMap visitPrices := by
  induction l generalizing s with
  | nil => exact (List.append_nil _).symm
  | cons v l ih =>
    rw [List.foldl_cons, ih, List.flatMap_cons, ← List.append_assoc, visit, visitPrices]
    cases v.price with
    | none => rw [List.append_nil]
    | some price =>
      dsimp only
      rw [List.append_assoc s.chainsPrices]

theorem foldl_visit_missed (l : List Visit) (s : Handled) (chain : Nat) (address : String) :
    address ∈ ((l.foldl visit s).missedChainPricesMap.get chain).getD [] ↔
      address ∈ (s.missedChainPricesMap.get chain).getD [] ∨ ⟨chain, address, none⟩ ∈ l := by
  induction l generalizing s with
  | nil => simp
  | cons v l ih =>
    rw [List.foldl_cons, ih, List.mem_cons, ← or_assoc]
    apply or_congr_left
    obtain ⟨chain', address', price⟩ := v
    cases price with
    | none =>
      rw [visit]
      dsimp only
      rw [JsMap.pushTo, JsMap.get_set]
      split
      · next hchain =>
        subst hchain
        simp
      · next hchain => simp [Ne.symm hchain]
    | some price => simp [visit]

/-! ## Addresses and their answers -/

section
variable (requestMap : JsMap Nat (List Request)) (respond : Nat → Nat → Option Answer)

/-- A request of a chain that was answered with some data. -/
def Answered (chain : Nat) (request : Request) (data : Answer) : Prop :=
  ∃ index requests i, requestMap[index]? = some (chain, requests) ∧ requests[i]? = some request ∧
    respond index i = some data

/-- An address was put into a fulfilled request, of which the answer, by address, has this price. -/
def LookedUp (chain : Nat) (address : String) (price : Option JsNumber) : Prop :=
  ∃ request data, Answered requestMap respond chain request data ∧ address ∈ request.addresses ∧
    usd (request.settle data) address = price

end

/-- The address that stands for a key of an answer by ids. -/
def rekey (extras : JsMap String String) (key : String) : String :=
  match extras.get key with
  | some address => if address ≠ "" then address else key
  | none => key

section
variable {requestMap : JsMap Nat (List Request)} {respond : Nat → Nat → Option Answer}

theorem mem_visits {v : Visit} : v ∈ visits requestMap respond ↔
    LookedUp requestMap respond v.chain v.address v.price := by
  rw [visits, List.mem_flatMap]
  constructor
  · rintro ⟨⟨⟨chain, requests⟩, index⟩, hrequests, hv⟩
    obtain ⟨⟨request, i⟩, hrequest, hv⟩ := List.mem_flatMap.mp hv
    have hrequests := List.mem_zipIdx_iff_getElem?.mp hrequests
    have hrequest := List.mem_zipIdx_iff_getElem?.mp hrequest
    dsimp only at hv
    cases hdata : respond index i with
    | none =>
      rw [hdata] at hv
      cases hv
    | some data =>
      rw [hdata] at hv
      obtain ⟨address, haddress, rfl⟩ := List.mem_map.mp hv
      exact ⟨request, data, ⟨index, requests, i, hrequests, hrequest, hdata⟩, haddress, rfl⟩
  · rintro ⟨request, data, ⟨index, requests, i, hrequests, hrequest, hdata⟩, haddress, hprice⟩
    refine ⟨((v.chain, requests), index), List.mem_zipIdx_iff_getElem?.mpr hrequests, ?_⟩
    refine List.mem_flatMap.mpr ⟨(request, i), List.mem_zipIdx_iff_getElem?.mpr hrequest, ?_⟩
    dsimp only
    rw [hdata]
    refine List.mem_map.mpr ⟨v.address, haddress, ?_⟩
    rw [hprice]

theorem preparePricesCoingeckoId_eq (data : Answer) (extras : JsMap String String) :
    preparePricesCoingeckoId data extras =
      .ofEntries (data.map fun e => (rekey extras e.1, e.2)) := by
  rw [preparePricesCoingeckoId, JsMap.ofEntries, List.foldl_map]
  apply List.foldl_ext
  rintro newData ⟨key, value⟩ -
  dsimp only [rekey]
  cases extras.get key with
  | none => rfl
  | some address =>
    dsimp only
    split <;> rfl

theorem currentPrice_inj {chain chain' : Nat} {address address' : String} {price price' : JsNumber}
    (h : currentPrice chain address price = currentPrice chain' address' price') :
    chain = chain' ∧ address = address' ∧ price = price' := by
  cases h
  exact ⟨rfl, rfl, rfl⟩

theorem mem_handleDuplicatePriceAssets {chain : Nat} {source address : String}
    {price price' : JsNumber} :
    currentPrice chain address price ∈ handleDuplicatePriceAssets source price' ↔
      price = price' ∧ (chain, address) ∈ (duplicateAssetsPricesMap.get source).getD [] := by
  rw [handleDuplicatePriceAssets]
  cases duplicateAssetsPricesMap.get source with
  | none => simp
  | some duplicateAssets =>
    constructor
    · intro h
      obtain ⟨e, he, heq⟩ := List.mem_map.mp h
      obtain ⟨rfl, rfl, rfl⟩ := currentPrice_inj heq
      exact ⟨rfl, he⟩
    · rintro ⟨rfl, he⟩
      exact List.mem_map_of_mem he

/-- The prices: those that were found, and those of duplicates. -/
theorem mem_chainsPrices {chain : Nat} {address : String} {price : JsNumber} :
    currentPrice chain address price ∈
        ((visits requestMap respond).foldl visit ⟨[], []⟩).chainsPrices ↔
      LookedUp requestMap respond chain address (some price) ∨
        ∃ chain' source, LookedUp requestMap respond chain' source (some price) ∧
          (chain, address) ∈ (duplicateAssetsPricesMap.get source).getD [] := by
  rw [foldl_visit_prices, List.nil_append, List.mem_flatMap]
  constructor
  · rintro ⟨⟨chain', source, price'⟩, hv, hprice⟩
    have hlooked := mem_visits.mp hv
    cases price' with
    | none => cases hprice
    | some price' =>
      rcases List.mem_append.mp hprice with h | h
      · obtain ⟨rfl, hduplicate⟩ := mem_handleDuplicatePriceAssets.mp h
        exact .inr ⟨chain', source, hlooked, hduplicate⟩
      · obtain ⟨rfl, rfl, rfl⟩ := currentPrice_inj (List.mem_singleton.mp h)
        exact .inl hlooked
  · rintro (h | ⟨chain', source, h, hduplicate⟩)
    · exact ⟨⟨chain, address, some price⟩, mem_visits.mpr h,
        List.mem_append_right _ (List.mem_singleton_self _)⟩
    · exact ⟨⟨chain', source, some price⟩, mem_visits.mpr h,
        List.mem_append_left _ (mem_handleDuplicatePriceAssets.mpr ⟨rfl, hduplicate⟩)⟩

theorem mem_missed {chain : Nat} {address : String} :
    address ∈ (((visits requestMap respond).foldl visit ⟨[], []⟩).missedChainPricesMap.get
        chain).getD [] ↔
      LookedUp requestMap respond chain address none := by
  rw [foldl_visit_missed, mem_visits]
  exact or_iff_right (List.not_mem_nil (a := address))

end

/-! ## The requests, by the assets -/

section
variable (assets : List AssetsApiDto) (respond : Nat → Nat → Option Answer) (chain : Nat)

/-- The assets of a chain, without those on Solana. -/
def assetsOn : List AssetsApiDto := if chain = sol then [] else assets.filter (·.chain = chain)

def chunk (k : Nat) : List AssetsApiDto :=
  ((assetsOn assets chain).drop (k * CHUNK_SIZE)).take CHUNK_SIZE

/-- The chains in the order of their first assets. -/
def chainOrder : List Nat := (unique (assets.map (·.chain))).filter (· ≠ sol)

/-- A chunk has assets with an id, or others. -/
def HasKind (c : List AssetsApiDto) (byId : Bool) : Bool := c.any fun d => d.id?.isSome = byId

/-- One request for a chunk's assets with an id, and one for the others. -/
def requestCount (c : List AssetsApiDto) : Nat :=
  (if HasKind c true then 1 else 0) + if HasKind c false then 1 else 0

/-- The place of a request among those of its chain: the ids of a chunk come first. -/
def requestPlace (k : Nat) (byId : Bool) : Nat :=
  ((List.range k).map fun j => requestCount (chunk assets chain j)).sum +
    if byId = false ∧ HasKind (chunk assets chain k) true then 1 else 0

/-- The answer to a request, if it is fulfilled. -/
def answerTo (k : Nat) (byId : Bool) : Option Answer :=
  respond ((chainOrder assets).idxOf chain) (requestPlace assets chain k byId)

end

/-- The requests for a chunk ask for the addresses of the assets without an id, and for that of the
last asset of each id. -/
inductive AsksFor (c : List AssetsApiDto) : Bool → String → Prop
  | id (id : String) (d : AssetsApiDto) :
    JsMap.lastWith AssetsApiDto.id? c (some id) = some d → AsksFor c true d.address
  | contract (d : AssetsApiDto) : d ∈ c → d.id? = none → AsksFor c false d.address

/-- The address of the last asset of an id; a key of an answer that is no id stands for itself. -/
def standsFor (c : List AssetsApiDto) (key : String) : String :=
  match JsMap.lastWith AssetsApiDto.id? c (some key) with
  | some d => if d.address ≠ "" then d.address else key
  | none => key

/-- What an answer has for an address: under the address, or the last one under a key that stands for
it. -/
def priceIn (c : List AssetsApiDto) (data : Answer) (address : String) : Bool → Option JsNumber
  | true => (JsMap.lastWith (fun e => standsFor c e.1) data address).bind Prod.snd
  | false => (data.get address).join

/-- An answer has a price for an address, or for an id that stands for it. -/
def HasPrice (c : List AssetsApiDto) (data : Answer) (address : String) (price : JsNumber) :
    Bool → Prop
  | true => ∃ key, standsFor c key = address ∧ (key, some price) ∈ data
  | false => data.get address = some (some price)

/-- A fulfilled request of a chain asks for an address, and this is what its answer has. -/
def Found (assets : List AssetsApiDto) (respond : Nat → Nat → Option Answer) (chain : Nat)
    (address : String) (price : Option JsNumber) : Prop :=
  ∃ k byId data, AsksFor (chunk assets chain k) byId address ∧
    answerTo assets respond chain k byId = some data ∧
    priceIn (chunk assets chain k) data address byId = price

/-- The request for one kind of assets of a chunk. -/
def requestOf (coingeckoPlatform : Option String) (c : List AssetsApiDto) : Bool → Request
  | true => .ids ((chunkIds c).map Prod.fst) (.ofEntries (chunkIds c))
  | false => .contracts coingeckoPlatform (chunkContracts c)

section
variable {assets : List AssetsApiDto} {respond : Nat → Nat → Option Answer} {chain : Nat}
variable {c : List AssetsApiDto} {address : String}

theorem chunkIds_pos : 0 < (chunkIds c).length ↔ HasKind c true := by
  rw [List.length_pos_iff, HasKind, List.any_eq_true, Ne, chunkIds, List.filterMap_eq_nil_iff]
  simp [Option.isSome_iff_ne_none]

theorem chunkContracts_pos : 0 < (chunkContracts c).length ↔ HasKind c false := by
  rw [List.length_pos_iff, HasKind, List.any_eq_true, Ne, chunkContracts, List.map_eq_nil_iff,
    List.filter_eq_nil_iff]
  simp

theorem chunkRequests_eq (coingeckoPlatform : Option String) (c : List AssetsApiDto) :
    chunkRequests coingeckoPlatform c =
      (if HasKind c true then [requestOf coingeckoPlatform c true] else []) ++
        if HasKind c false then [requestOf coingeckoPlatform c false] else [] := by
  unfold chunkRequests
  simp only [gt_iff_lt, chunkIds_pos, chunkContracts_pos]
  rfl

theorem length_chunkRequests (coingeckoPlatform : Option String) (c : List AssetsApiDto) :
    (chunkRequests coingeckoPlatform c).length = requestCount c := by
  rw [chunkRequests_eq, List.length_append, requestCount]
  split <;> split <;> rfl

/-- The requests for a chunk, by their places. -/
theorem getElem?_chunkRequests {coingeckoPlatform : Option String} {j : Nat} {request : Request} :
    (chunkRequests coingeckoPlatform c)[j]? = some request ↔
      ∃ byId, HasKind c byId ∧ request = requestOf coingeckoPlatform c byId ∧
        j = if byId = false ∧ HasKind c true then 1 else 0 := by
  rw [chunkRequests_eq, Bool.exists_bool]
  cases hid : HasKind c true
  · cases hcontract : HasKind c false
    · simp
    · cases j with
      | zero => simp [eq_comm]
      | succ j => simp
  · cases hcontract : HasKind c false
    · cases j with
      | zero => simp [eq_comm]
      | succ j => simp
    · match j with
      | 0 => simp [eq_comm]
      | 1 => simp [eq_comm]
      | j + 2 => simp

theorem lookup_chunkIds (id : String) :
    (chunkIds c).reverse.lookup id =
      (JsMap.lastWith AssetsApiDto.id? c (some id)).map (·.address) := by
  rw [JsMap.lastWith, chunkIds, ← List.filterMap_reverse]
  induction c.reverse with
  | nil => rfl
  | cons d l ih =>
    rw [List.filterMap_cons, List.find?_cons]
    cases hid : d.id? with
    | none => simpa using ih
    | some id' =>
      rw [Option.map_some, List.lookup_cons]
      by_cases h : id' = id
      · subst h
        simp
      · have h' : (id == id') = false := by simpa using Ne.symm h
        simpa [h, h'] using ih

theorem rekey_chunkIds (key : String) : rekey (.ofEntries (chunkIds c)) key = standsFor c key := by
  rw [rekey, JsMap.get_ofEntries, lookup_chunkIds, standsFor]
  cases JsMap.lastWith AssetsApiDto.id? c (some key) <;> rfl

/-- Of the assets of a chunk that share an id, the last one is looked up. -/
theorem mem_addresses_requestOf {coingeckoPlatform : Option String} {byId : Bool} :
    address ∈ (requestOf coingeckoPlatform c byId).addresses ↔ AsksFor c byId address := by
  cases byId with
  | true =>
    have hnodup := JsMap.nodup_keys_ofEntries (chunkIds c)
    have hget : ∀ id, (JsMap.ofEntries (chunkIds c)).get id =
        (JsMap.lastWith AssetsApiDto.id? c (some id)).map (·.address) := by
      intro id
      rw [JsMap.get_ofEntries, lookup_chunkIds]
    constructor
    · intro h
      obtain ⟨⟨id, _⟩, he, rfl⟩ := List.mem_map.mp h
      have hid := (JsMap.get_eq_some_iff hnodup).mpr he
      rw [hget] at hid
      obtain ⟨d, hd, rfl⟩ := Option.map_eq_some_iff.mp hid
      exact .id id d hd
    · rintro ⟨id, d, hd⟩
      have hid := hget id
      rw [hd] at hid
      exact List.mem_map.mpr ⟨_, (JsMap.get_eq_some_iff hnodup).mp hid, rfl⟩
  | false =>
    change address ∈ chunkContracts c ↔ _
    rw [chunkContracts, List.mem_map]
    constructor
    · rintro ⟨d, hd, rfl⟩
      obtain ⟨hd, hid⟩ := List.mem_filter.mp hd
      exact .contract d hd (by simpa using hid)
    · rintro (_ | ⟨d, hd, hid⟩)
      exact ⟨d, List.mem_filter.mpr ⟨hd, by simpa using hid⟩, rfl⟩

theorem AsksFor.hasKind {byId : Bool} (h : AsksFor c byId address) : HasKind c byId := by
  cases h with
  | id id d hd =>
    obtain ⟨hid, hmem⟩ := JsMap.lastWith_eq_some hd
    exact List.any_eq_true.mpr ⟨d, hmem, by simp [hid]⟩
  | contract d hd hid => exact List.any_eq_true.mpr ⟨d, hd, by simp [hid]⟩

/-- What is found for an address is what the answer has for it. -/
theorem usd_settle (coingeckoPlatform : Option String) (data : Answer) (byId : Bool) :
    usd ((requestOf coingeckoPlatform c byId).settle data) address = priceIn c data address byId := by
  cases byId with
  | false => rfl
  | true =>
    change ((preparePricesCoingeckoId data (.ofEntries (chunkIds c))).get address).join = _
    simp only [preparePricesCoingeckoId_eq, rekey_chunkIds]
    rw [JsMap.get_ofEntries_map (fun e : String × Option JsNumber => standsFor c e.1) Prod.snd,
      priceIn]
    cases JsMap.lastWith (fun e : String × Option JsNumber => standsFor c e.1) data address <;> rfl

theorem hasPrice_of_priceIn {data : Answer} {price : JsNumber} {byId : Bool}
    (h : priceIn c data address byId = some price) : HasPrice c data address price byId := by
  cases byId with
  | false => exact Option.join_eq_some_iff.mp h
  | true =>
    obtain ⟨⟨key, value⟩, hlast, rfl⟩ := Option.bind_eq_some_iff.mp h
    obtain ⟨hkey, hmem⟩ := JsMap.lastWith_eq_some hlast
    exact ⟨key, hkey, hmem⟩

variable (getCoingeckoPlatformId : Nat → Option String)

/-- The requests of the chains, in their order. -/
theorem requestMap_eq (assets : List AssetsApiDto) :
    requestMap getCoingeckoPlatformId assets = (chainOrder assets).map fun chain =>
      (chain, (chunks (CHUNK_SIZE - 1) (assetsOn assets chain)).flatMap
        (chunkRequests (getCoingeckoPlatformId chain))) := by
  have hkeys : (getAssetsPerChainMap assets).keys = unique (assets.map (·.chain)) := by
    have h := JsMap.foldl_pushTo_keys (assets.map fun a => (a.chain, a)) []
    rwa [List.foldl_map, List.map_map] at h
  have hget : ∀ chain, ((getAssetsPerChainMap assets).get chain).getD [] =
      assets.filter (·.chain = chain) := by
    intro chain
    have h := JsMap.foldl_pushTo_get (k := chain) (assets.map fun a => (a.chain, a)) []
    rw [List.foldl_map, List.filter_map, List.map_map] at h
    exact h.trans (List.map_id _)
  have hgraph : getAssetsPerChainMap assets =
      (unique (assets.map (·.chain))).map fun chain => (chain, assets.filter (·.chain = chain)) := by
    rw [← hkeys]
    refine JsMap.eq_graph (hkeys ▸ nodup_unique _) fun chain hchain => ?_
    obtain ⟨list, hlist⟩ := JsMap.mem_keys.mp hchain
    rw [← hget chain, hlist]
    rfl
  have hfilter : (getAssetsPerChainMap assets).filter (·.1 ≠ sol) =
      (chainOrder assets).map fun chain => (chain, assetsOn assets chain) := by
    rw [hgraph, List.filter_map, chainOrder]
    refine List.map_congr_left fun chain hchain => ?_
    have hsol : chain ≠ sol := by simpa using (List.mem_filter.mp hchain).2
    rw [assetsOn, if_neg hsol]
  have hset : ∀ m : JsMap Nat (List AssetsApiDto),
      buildCoingeckoRequestsMap getCoingeckoPlatformId m =
        .ofEntries (m.map fun e => (e.1, (chunks (CHUNK_SIZE - 1) e.2).flatMap
          (chunkRequests (getCoingeckoPlatformId e.1)))) := by
    intro m
    rw [JsMap.ofEntries, List.foldl_map]
    rfl
  rw [requestMap, hfilter, hset, List.map_map, JsMap.ofEntries_eq_self]
  · rfl
  · rw [List.map_map]
    refine List.Nodup.map (fun _ _ h => h) ?_
    exact (nodup_unique _).filter _

/-- The answered requests are those for the chunks of the assets, with the answers to them. -/
theorem answered_iff {request : Request} {data : Answer} :
    Answered (requestMap getCoingeckoPlatformId assets) respond chain request data ↔
      ∃ k byId, HasKind (chunk assets chain k) byId ∧
        request = requestOf (getCoingeckoPlatformId chain) (chunk assets chain k) byId ∧
        answerTo assets respond chain k byId = some data := by
  have hnodup : (chainOrder assets).Nodup := (nodup_unique _).filter _
  have hplace : ∀ k, HasKind (chunk assets chain k) true ∨ HasKind (chunk assets chain k) false →
      (chunks (CHUNK_SIZE - 1) (assetsOn assets chain))[k]? = some (chunk assets chain k) := by
    intro k hkind
    rw [getElem?_chunks, if_pos]
    · rfl
    · refine Nat.lt_of_not_le fun hle => ?_
      have hnil : chunk assets chain k = [] := by
        have hdrop : (assetsOn assets chain).drop (k * CHUNK_SIZE) = [] := List.drop_eq_nil_of_le hle
        rw [chunk, hdrop, List.take_nil]
      rw [hnil] at hkind
      rcases hkind with h | h <;> cases h
  have hcount : ∀ k, k ≤ (chunks (CHUNK_SIZE - 1) (assetsOn assets chain)).length →
      (((chunks (CHUNK_SIZE - 1) (assetsOn assets chain)).take k).map fun c =>
        (chunkRequests (getCoingeckoPlatformId chain) c).length).sum =
          ((List.range k).map fun j => requestCount (chunk assets chain j)).sum := by
    intro k hk
    rw [take_chunks hk, List.map_map]
    congr 1
    refine List.map_congr_left fun j _ => length_chunkRequests _ _
  constructor
  · rintro ⟨index, requests, i, hrequests, hrequest, hdata⟩
    rw [requestMap_eq, List.getElem?_map] at hrequests
    obtain ⟨chain', hchain, heq⟩ := Option.map_eq_some_iff.mp hrequests
    obtain ⟨rfl, rfl⟩ := Prod.mk.inj heq
    obtain ⟨k, c, j, hk, hj, rfl⟩ := getElem?_flatMap_iff.mp hrequest
    obtain ⟨hlt, -⟩ := List.getElem?_eq_some_iff.mp hk
    have hc : c = chunk assets chain' k := by
      rw [getElem?_chunks] at hk
      exact (Option.some.inj (Option.ite_none_right_eq_some.mp hk).2).symm
    subst hc
    obtain ⟨byId, hkind, hrequestOf, rfl⟩ := getElem?_chunkRequests.mp hj
    refine ⟨k, byId, hkind, hrequestOf, ?_⟩
    obtain ⟨hindex, hget⟩ := List.getElem?_eq_some_iff.mp hchain
    have hidx : (chainOrder assets).idxOf chain' = index := by
      rw [← hget, hnodup.idxOf_getElem]
    rw [answerTo, requestPlace, hidx, ← hcount k hlt.le]
    exact hdata
  · rintro ⟨k, byId, hkind, rfl, hdata⟩
    have hk := hplace k (by cases byId <;> simp [hkind])
    obtain ⟨hlt, -⟩ := List.getElem?_eq_some_iff.mp hk
    have hmem : chain ∈ chainOrder assets := by
      obtain ⟨d, hd, -⟩ := List.any_eq_true.mp hkind
      have hon := List.mem_of_mem_drop (List.mem_of_mem_take hd)
      unfold assetsOn at hon
      split at hon
      · cases hon
      · rename_i hsol
        obtain ⟨hd, hchain⟩ := List.mem_filter.mp hon
        refine List.mem_filter.mpr ⟨mem_unique.mpr ?_, by simpa using hsol⟩
        exact List.mem_map.mpr ⟨d, hd, by simpa using hchain⟩
    refine ⟨_, (chunks (CHUNK_SIZE - 1) (assetsOn assets chain)).flatMap
      (chunkRequests (getCoingeckoPlatformId chain)), _, ?_, ?_, hdata⟩
    · rw [requestMap_eq, List.getElem?_map, List.getElem?_idxOf hmem]
      rfl
    · refine getElem?_flatMap_iff.mpr ⟨k, _, _, hk,
        getElem?_chunkRequests.mpr ⟨byId, hkind, rfl, rfl⟩, ?_⟩
      rw [requestPlace, hcount k hlt.le]

/-- What is looked up is what the requests for the chunks ask for. -/
theorem lookedUp_iff {price : Option JsNumber} :
    LookedUp (requestMap getCoingeckoPlatformId assets) respond chain address price ↔
      Found assets respond chain address price := by
  constructor
  · rintro ⟨request, data, hanswered, haddress, hprice⟩
    obtain ⟨k, byId, -, rfl, hdata⟩ := (answered_iff getCoingeckoPlatformId).mp hanswered
    rw [usd_settle] at hprice
    exact ⟨k, byId, data, mem_addresses_requestOf.mp haddress, hdata, hprice⟩
  · rintro ⟨k, byId, data, hasks, hdata, hprice⟩
    refine ⟨requestOf (getCoingeckoPlatformId chain) (chunk assets chain k) byId, data,
      (answered_iff getCoingeckoPlatformId).mpr ⟨k, byId, hasks.hasKind, rfl, hdata⟩,
      mem_addresses_requestOf.mpr hasks, ?_⟩
    rwa [usd_settle]

end

/-! ## The result -/

section
variable (getCoingeckoPlatformId : Nat → Option String) (assets : List AssetsApiDto)
variable (respond : Nat → Nat → Option Answer) (chain : Nat) (address : String)

/-- An address of a chain has a price in the result. -/
def IsPriced : Prop :=
  ∃ price, currentPrice chain address price ∈
    (coingeckoPrices getCoingeckoPlatformId assets respond).chainsPrices

/-- An address of a chain is missed. -/
def IsMissed : Prop :=
  address ∈ ((coingeckoPrices getCoingeckoPlatformId assets respond).missedChainPricesMap.get
    chain).getD []

/-- An address has a price of one of its answers in the result. -/
def HasAnswer : Prop :=
  ∃ k byId data price, AsksFor (chunk assets chain k) byId address ∧
    answerTo assets respond chain k byId = some data ∧
    HasPrice (chunk assets chain k) data address price byId ∧
    currentPrice chain address price ∈
      (coingeckoPrices getCoingeckoPlatformId assets respond).chainsPrices

/-- An address has the price of its answer or is missed, and not both. -/
def Settled : Prop :=
  (HasAnswer getCoingeckoPlatformId assets respond chain address ∨
      IsMissed getCoingeckoPlatformId assets respond chain address) ∧
    ¬ (IsPriced getCoingeckoPlatformId assets respond chain address ∧
      IsMissed getCoingeckoPlatformId assets respond chain address)

end

/-- A fulfilled request asks for the address. If one of its answers is without a price, none has one,
nor does that of an address whose price it shares. -/
structure Reached (assets : List AssetsApiDto) (respond : Nat → Nat → Option Answer) (chain : Nat)
    (address : String) : Prop where
  fulfilled : ∃ k byId, AsksFor (chunk assets chain k) byId address ∧
    (answerTo assets respond chain k byId).isSome
  consistent : Found assets respond chain address none → ∀ price,
    ¬ Found assets respond chain address (some price) ∧
    ∀ chain' source, Found assets respond chain' source (some price) →
      (chain, address) ∉ (duplicateAssetsPricesMap.get source).getD []

section
variable {getCoingeckoPlatformId : Nat → Option String} {assets : List AssetsApiDto}
variable {respond : Nat → Nat → Option Answer} {chain : Nat} {address : String}

theorem coingeckoPrices_eq : coingeckoPrices getCoingeckoPlatformId assets respond =
    (visits (requestMap getCoingeckoPlatformId assets) respond).foldl visit ⟨[], []⟩ :=
  handleCoingeckoResponse_eq _ respond

theorem isMissed_iff : IsMissed getCoingeckoPlatformId assets respond chain address ↔
    Found assets respond chain address none := by
  rw [IsMissed, coingeckoPrices_eq, ← lookedUp_iff getCoingeckoPlatformId]
  exact mem_missed

theorem isPriced_iff : IsPriced getCoingeckoPlatformId assets respond chain address ↔
    ∃ price, Found assets respond chain address (some price) ∨
      ∃ chain' source, Found assets respond chain' source (some price) ∧
        (chain, address) ∈ (duplicateAssetsPricesMap.get source).getD [] := by
  rw [IsPriced, coingeckoPrices_eq]
  simp only [← lookedUp_iff getCoingeckoPlatformId]
  exact exists_congr fun price => mem_chainsPrices

/-- What is settled was asked for by a fulfilled request. -/
theorem Settled.fulfilled (H : Settled getCoingeckoPlatformId assets respond chain address) :
    ∃ k byId, AsksFor (chunk assets chain k) byId address ∧
      (answerTo assets respond chain k byId).isSome := by
  rcases H.1 with ⟨k, byId, data, price, hasks, hdata, -, -⟩ | hmissed
  · exact ⟨k, byId, hasks, Option.isSome_of_eq_some hdata⟩
  · obtain ⟨k, byId, data, hasks, hdata, -⟩ := isMissed_iff.mp hmissed
    exact ⟨k, byId, hasks, Option.isSome_of_eq_some hdata⟩

end

/-- An address has its price or is missed, and not both, exactly when a fulfilled request asks for
it, and nothing gives a price for it if one of its answers does not. -/
theorem settled_iff (getCoingeckoPlatformId : Nat → Option String) (assets : List AssetsApiDto)
    (respond : Nat → Nat → Option Answer) (chain : Nat) (address : String) :
    Settled getCoingeckoPlatformId assets respond chain address ↔
      Reached assets respond chain address := by
  constructor
  · intro H
    refine ⟨H.fulfilled, fun hnone price => ⟨fun hsome => ?_, fun chain' source hsource hmem => ?_⟩⟩
    · exact H.2 ⟨isPriced_iff.mpr ⟨price, .inl hsome⟩, isMissed_iff.mpr hnone⟩
    · exact H.2 ⟨isPriced_iff.mpr ⟨price, .inr ⟨chain', source, hsource, hmem⟩⟩,
        isMissed_iff.mpr hnone⟩
  · intro H
    constructor
    · obtain ⟨k, byId, hasks, hanswered⟩ := H.fulfilled
      obtain ⟨data, hdata⟩ := Option.isSome_iff_exists.mp hanswered
      cases hprice : priceIn (chunk assets chain k) data address byId with
      | none => exact .inr (isMissed_iff.mpr ⟨k, byId, data, hasks, hdata, hprice⟩)
      | some price =>
        refine .inl ⟨k, byId, data, price, hasks, hdata, hasPrice_of_priceIn hprice, ?_⟩
        rw [coingeckoPrices_eq]
        exact mem_chainsPrices.mpr (.inl
          ((lookedUp_iff getCoingeckoPlatformId).mpr ⟨k, byId, data, hasks, hdata, hprice⟩))
    · rintro ⟨hpriced, hmissed⟩
      obtain ⟨price, hpriced⟩ := isPriced_iff.mp hpriced
      obtain ⟨hown, hduplicates⟩ := H.consistent (isMissed_iff.mp hmissed) price
      rcases hpriced with hsome | ⟨chain', source, hsource, hmem⟩
      · exact hown hsome
      · exact hduplicates chain' source hsource hmem

/-! ## A shared id -/

def sharedId : List AssetsApiDto := [⟨"0xa", 1, some "coin"⟩, ⟨"0xb", 1, some "coin"⟩]

/-- Of two assets that share an id, one is lost, although the id's price is found. -/
theorem sharedId_lost :
    ¬ Settled (fun _ => none) sharedId (fun _ _ => some [("coin", some 2)]) 1 "0xa" := by
  intro H
  obtain ⟨k, byId, hasks, -⟩ := H.fulfilled
  have hon : assetsOn sharedId 1 = sharedId := rfl
  cases k with
  | zero =>
    have hchunk : chunk sharedId 1 0 = sharedId := rfl
    rw [hchunk] at hasks
    generalize haddress : "0xa" = address at hasks
    cases hasks with
    | id id d hlast =>
      obtain ⟨hid, hmem⟩ := JsMap.lastWith_eq_some hlast
      rcases List.mem_pair.mp hmem with rfl | rfl
      · -- the last one with its id is the other asset
        cases hid
        have haddresses := congrArg (Option.map AssetsApiDto.address) hlast
        exact absurd haddresses (by decide)
      · exact absurd haddress (by decide)
    | contract d hd hid =>
      rcases List.mem_pair.mp hd with rfl | rfl
      · cases hid
      · cases hid
  | succ k =>
    have hchunk : chunk sharedId 1 (k + 1) = [] := by
      rw [chunk, hon, List.drop_eq_nil_of_le, List.take_nil]
      change 2 ≤ (k + 1) * 175
      omega
    rw [hchunk] at hasks
    cases hasks.hasKind

end ExternalPrices
end Jobs
end DefiBackend
