import DefiBackend.Common.Address
import DefiBackend.Common.BigNumber
import DefiBackend.Common.JsMap
import DefiBackend.Theory.Fallible
import DefiBackend.Theory.KeyValue

/-! # Balances at a past instant

`balances-v2.service.ts`: for every chain the block at the instant is searched for, the balances of
every address are read or taken from a cache, and prices are put to them. Of each balance the model
keeps how it was read, and of each price when it was current.

* `Reachable.consistent`: what stands in the cache was read at the block of its key.
* `Call.neverMixes_iff`: when a call about the past reports nothing of the present. It does where
  the search has failed, where a strategy reads without the block, and where a token has a price now
  but none for the block. -/

namespace DefiBackend
namespace Account
namespace HistoricalBalances
open Theory

abbrev ChainId := Nat

def COIN_ADDRESS : Address := "0x0000000000000000000000000000000000000000"

def BLACKLISTED_TOKENS : List Address :=
  ["0x0df62d2cd80591798721ddc93001afe868c367ff", "0x82dfdb2ec1aa6003ed4acba663403d7c2127ff67",
   "0xb4a81261b16b92af0b9f7c4a83f1e885132d81e4", "0x7dff46370e9ea5f0bad3c4e29711ad50062ea7a4"]

/-! ## Balances -/

/-- An amount as it was read: from the balances contract, at a block if one was given, or as a node
or a service has it now. -/
inductive Reading
  | contract (block : Option Nat) (amount : Nat)
  | latest (amount : Nat)
  deriving DecidableEq

def Reading.amount : Reading → Nat
  | contract _ amount | latest amount => amount

def Reading.isContract : Reading → Bool
  | contract .. => true
  | latest _ => false

/-- `BlockTimestamp`. -/
structure Block where
  block : Nat
  timestamp : Nat
  deriving DecidableEq

inductive PriceSource
  | current
  | atTimestamp (timestamp : Nat)
  deriving DecidableEq

/-- A price, and when it was the price. -/
structure Price where
  value : JsNumber
  source : PriceSource
  deriving DecidableEq

structure TokenBalance where
  token : Address
  reading : Reading
  decimalsAmount : Option JsNumber
  tokenPriceUSD : Option Price
  totalPriceUSD : Option JsNumber
  deriving DecidableEq

/-- A balance as a strategy gives it. -/
def TokenBalance.read (token : Address) (reading : Reading) : TokenBalance :=
  ⟨token, reading, none, none, none⟩

structure ErrorMessage where
  chainId : ChainId
  statusCode : Nat
  message : String

/-- `PartialBalancesResponse`. -/
structure PartialBalances where
  address : Address
  balances : List TokenBalance
  errors : List ErrorMessage

/-- `BalancesRequest`. -/
structure BalancesRequest where
  chainId : ChainId
  address : Address
  tokens : List Address
  block : Option Block

/-! ## Strategies -/

def insertAtPosition (array : List α) (index : Nat) (newItem : α) : List α :=
  array.take index ++ newItem :: array.drop index

/-- What the strategies ask nodes and services. -/
structure Node where
  isETHAddress : Address → Bool
  /-- `web3.eth.getBalance(address)`. -/
  getBalance : ChainId → Address → Except String Nat
  /-- `contract.getBalances(address, tokens, block)`, with its batches as one call: an amount for
  each token. -/
  contractBalances : ChainId → Option Nat → Address → List Address → Except String (List Nat)
  contractBalances_length : ∀ chainId block address tokens amounts,
    contractBalances chainId block address tokens = .ok amounts → amounts.length = tokens.length
  /-- What the strategies of single networks load; none of them looks at the block. -/
  networkBalances : ChainId → Address → List Address → Except String (List (Address × Nat))

/-- `NetworkBalancesStrategy.getBalances`. -/
def commonStrategy (node : Node) (request : BalancesRequest) : Except String (List TokenBalance) :=
  if request.tokens = [] ∨ !node.isETHAddress request.address then pure []
  else do
    let block := request.block.map (·.block)
    let amounts ← node.contractBalances request.chainId block request.address
      (request.tokens.erase COIN_ADDRESS)
    let readings := amounts.map (Reading.contract block)
    let balances ← (
      if COIN_ADDRESS ∈ request.tokens then do
        let coinBalance ← node.getBalance request.chainId request.address
        pure (insertAtPosition readings (request.tokens.idxOf COIN_ADDRESS) (.latest coinBalance))
      else pure readings)
    pure ((List.zipWith TokenBalance.read request.tokens balances).filter (0 < ·.reading.amount))

/-- The chains with a strategy of their own: Solana, Terra, Cardano, Ronin, Cosmos, Kava, Osmosis
and Secret. -/
def ownStrategyChains : List ChainId := [12, 19, 22, 24, 25, 26, 27, 28]

/-- The `getBalances` of `getStrategyForNetwork`. -/
def strategyBalances (node : Node) (request : BalancesRequest) : Except String (List TokenBalance) :=
  if request.chainId ∈ ownStrategyChains then do
    let balances ← node.networkBalances request.chainId request.address request.tokens
    pure (balances.map fun e => .read e.1 (.latest e.2))
  else commonStrategy node request

/-! ## The cache -/

/-- The parts of a cache key; no block stands for `latest`. -/
structure CacheKey where
  chainId : ChainId
  address : Address
  assets : List Address
  block : Option Nat
  deriving DecidableEq

abbrev Cache := Store CacheKey PartialBalances

def BalancesRequest.cacheKey (request : BalancesRequest) : CacheKey :=
  ⟨request.chainId, request.address, request.tokens, request.block.map (·.block)⟩

/-- What is made of the result of `getBalancesSafe`. -/
def loadBalances (node : Node) (request : BalancesRequest) : PartialBalances :=
  match strategyBalances node request with
  | .ok balances => ⟨request.address, balances, []⟩
  | .error message => ⟨request.address, [], [⟨request.chainId, 500, message⟩]⟩

def getBalancesForChainForAddress (cache : Cache) (node : Node) (request : BalancesRequest) :
    PartialBalances × Cache :=
  match cache request.cacheKey with
  | some cacheValue => (cacheValue, cache)
  | none =>
    let final := loadBalances node request
    (final, if final.errors.isEmpty then cache.set request.cacheKey final else cache)

/-- The caches that calls leave, at any times and with any nodes. -/
inductive Reachable : Cache → Prop
  | empty : Reachable .empty
  | load (node : Node) (request : BalancesRequest) (h : Reachable cache) :
      Reachable (getBalancesForChainForAddress cache node request).2
  | expire (key : CacheKey) (h : Reachable cache) : Reachable (cache.erase key)

/-- A balance that the contract gives: on a chain without a strategy of its own, and not of the
native coin, unless the coin is in the list of tokens again. -/
def TokenBalance.OfContract (chainId : ChainId) (b : TokenBalance) : Prop :=
  chainId ∉ ownStrategyChains ∧ (b.token = COIN_ADDRESS → b.reading.isContract)

/-- Balances of a chain without prices, of which the contract gave some at one block. -/
def ReadAt (chainId : ChainId) (block : Option Nat) (balances : List TokenBalance) : Prop :=
  ∀ b ∈ balances, b.tokenPriceUSD = none ∧ b.totalPriceUSD = none ∧
    (∀ block' amount, b.reading = .contract block' amount → block' = block) ∧
    (b.reading.isContract ↔ b.OfContract chainId)

theorem mem_insertAtPosition {array : List α} {index : Nat} {newItem item : α} :
    item ∈ insertAtPosition array index newItem ↔ item = newItem ∨ item ∈ array := by
  have harray : item ∈ array ↔ item ∈ array.take index ∨ item ∈ array.drop index := by
    rw [← List.mem_append, List.take_append_drop]
  unfold insertAtPosition
  rw [List.mem_append, List.mem_cons, harray]
  exact or_left_comm

/-- At the other places there are the items of the array. -/
theorem getElem_insertAtPosition {array : List α} {index i : Nat} {newItem : α}
    (hindex : index ≤ array.length) (hne : i ≠ index)
    (hi : i < (insertAtPosition array index newItem).length) :
    (insertAtPosition array index newItem)[i] ∈ array := by
  have htake : (array.take index).length = index := List.length_take_of_le hindex
  unfold insertAtPosition at hi ⊢
  rw [List.getElem_append]
  split
  · exact List.mem_of_mem_take (List.getElem_mem _)
  · next hge =>
    obtain ⟨k, hk⟩ : ∃ k, i - (array.take index).length = k + 1 :=
      Nat.exists_eq_succ_of_ne_zero (by omega)
    simp only [hk, List.getElem_cons_succ]
    exact List.mem_of_mem_drop (List.getElem_mem _)

/-- What the contract and the node give for the tokens: of the node is the first native coin. -/
theorem commonStrategy_readings {node : Node} {request : BalancesRequest}
    {balances : List TokenBalance} (h : commonStrategy node request = .ok balances) :
    ∃ readings : List Reading, (∀ reading ∈ readings, ∀ block amount,
        reading = .contract block amount → block = request.block.map (·.block)) ∧
      (∀ i (hi : i < readings.length) (ht : i < request.tokens.length),
        request.tokens[i] ≠ COIN_ADDRESS → readings[i].isContract) ∧
      balances ⊆ List.zipWith TokenBalance.read request.tokens readings := by
  unfold commonStrategy at h
  split at h
  · cases h
    exact ⟨[], nofun, fun i hi => absurd hi i.not_lt_zero, List.nil_subset _⟩
  · obtain ⟨amounts, hamounts, h⟩ := bind_eq_ok.mp h
    obtain ⟨readings, hreadings, h⟩ := bind_eq_ok.mp h
    cases h
    have hlength := node.contractBalances_length _ _ _ _ _ hamounts
    have hcontract : ∀ reading ∈ amounts.map (Reading.contract (request.block.map (·.block))),
        reading.isContract ∧ ∀ block amount, reading = .contract block amount →
          block = request.block.map (·.block) := by
      intro reading hr
      obtain ⟨n, -, rfl⟩ := List.mem_map.mp hr
      exact ⟨rfl, fun block amount he => by cases he; rfl⟩
    refine ⟨readings, ?_, ?_, List.filter_subset_self _⟩
    · intro reading hr
      split at hreadings
      · obtain ⟨coin, -, hcoin⟩ := bind_eq_ok.mp hreadings
        cases hcoin
        rcases mem_insertAtPosition.mp hr with rfl | hr
        · intro block amount he
          cases he
        · exact (hcontract reading hr).2
      · cases hreadings
        exact (hcontract reading hr).2
    · intro i hi ht hne
      split at hreadings
      · next hcoinMem =>
        obtain ⟨coin, -, hcoin⟩ := bind_eq_ok.mp hreadings
        cases hcoin
        have hplace := List.idxOf_lt_length_of_mem hcoinMem
        rw [List.length_erase_of_mem hcoinMem] at hlength
        refine (hcontract _ (getElem_insertAtPosition ?_ ?_ hi)).1
        · rw [List.length_map, hlength]
          omega
        · rintro rfl
          exact hne (List.getElem_idxOf ht)
      · cases hreadings
        exact (hcontract _ (List.getElem_mem hi)).1

theorem commonStrategy_readAt {node : Node} {request : BalancesRequest}
    (hchain : request.chainId ∉ ownStrategyChains) {balances : List TokenBalance}
    (h : commonStrategy node request = .ok balances) :
    ReadAt request.chainId (request.block.map (·.block)) balances := by
  obtain ⟨readings, hblock, hcontract, hsubset⟩ := commonStrategy_readings h
  intro b hb
  obtain ⟨i, hi, rfl⟩ := List.mem_iff_getElem.mp (hsubset hb)
  obtain ⟨ht, hr⟩ := lt_min_iff.mp (List.length_zipWith ▸ hi)
  rw [List.getElem_zipWith]
  refine ⟨rfl, rfl, hblock _ (List.getElem_mem hr), fun hof => ⟨hchain, fun _ => hof⟩, ?_⟩
  rintro ⟨-, hcoin⟩
  by_cases hne : request.tokens[i] = COIN_ADDRESS
  · exact hcoin hne
  · exact hcontract i hr ht hne

theorem strategyBalances_readAt {node : Node} {request : BalancesRequest}
    {balances : List TokenBalance} (h : strategyBalances node request = .ok balances) :
    ReadAt request.chainId (request.block.map (·.block)) balances := by
  unfold strategyBalances at h
  split at h
  · next hown =>
    obtain ⟨amounts, -, h⟩ := bind_eq_ok.mp h
    cases h
    intro b hb
    obtain ⟨e, -, rfl⟩ := List.mem_map.mp hb
    exact ⟨rfl, rfl, nofun, iff_of_false nofun fun hof => hof.1 hown⟩
  · next hown => exact commonStrategy_readAt hown h

theorem loadBalances_readAt (node : Node) (request : BalancesRequest) :
    ReadAt request.chainId (request.block.map (·.block)) (loadBalances node request).balances := by
  unfold loadBalances
  cases h : strategyBalances node request with
  | ok balances => exact strategyBalances_readAt h
  | error message =>
    intro b hb
    cases hb

/-- Every entry of the cache was read at the block of its key. -/
def Consistent (cache : Cache) : Prop :=
  ∀ key entry, cache key = some entry → ReadAt key.chainId key.block entry.balances

theorem getBalancesForChainForAddress_consistent {cache : Cache} (H : Consistent cache)
    (node : Node) (request : BalancesRequest) :
    ReadAt request.chainId (request.block.map (·.block))
        (getBalancesForChainForAddress cache node request).1.balances ∧
      Consistent (getBalancesForChainForAddress cache node request).2 := by
  unfold getBalancesForChainForAddress
  cases hget : cache request.cacheKey with
  | some cacheValue => exact ⟨H _ _ hget, H⟩
  | none =>
    refine ⟨loadBalances_readAt node request, ?_⟩
    change Consistent (if _ then _ else _)
    split
    · intro key entry h
      rcases Store.of_set h with ⟨rfl, rfl⟩ | h
      · exact loadBalances_readAt node request
      · exact H key entry h.2
    · exact H

theorem Reachable.consistent {cache : Cache} (h : Reachable cache) : Consistent cache := by
  induction h with
  | empty => exact fun _ _ h => by cases h
  | load node request _ ih => exact (getBalancesForChainForAddress_consistent ih node request).2
  | expire key _ ih => exact fun key' entry h => ih key' entry (Store.of_erase h)

/-! ## A call about the past -/

/-- `AssembledAssetInterface`: what is used of it. -/
structure Asset where
  address : Address
  decimals : Nat
  price : Option JsNumber

/-- The prices of a response: nothing for one that counts as false. -/
abbrev PricesMap := Address → Option JsNumber

/-- What a call meets: for every chain the outcomes of its requests, and for every address the cache
when it is asked. -/
structure Call where
  addresses : List Address
  chains : List ChainId
  checks : AddressChecks
  isBlacklisted : Address → Bool
  getAssetsToHandle : ChainId → Except String (List Asset)
  cachedBlock : ChainId → Option Block
  getBlockFromDate : ChainId → Except String Block
  getBulkPriceAtTimestamp : List Address → ChainId → Nat → Except String PricesMap
  node : Node
  cache : ChainId → Address → Cache
  reachable : ∀ chainId address, Reachable (cache chainId address)

/-- `addAssetsInformation`, for a balance. -/
def TokenBalance.addAsset (assetsMap : JsMap Address Asset) (balance : TokenBalance) : TokenBalance :=
  match assetsMap.get balance.token with
  | none => balance
  | some asset =>
    let decimalsAmount := (JsNumber.finite balance.reading.amount).normalizeDecimals asset.decimals
    match asset.price.filter (!·.falsy) with
    | none => { balance with decimalsAmount := some decimalsAmount }
    | some price =>
      { balance with
        decimalsAmount := some decimalsAmount
        tokenPriceUSD := some ⟨price, .current⟩
        totalPriceUSD := some (decimalsAmount * price) }

/-- The loop body of `applyHistoricalPrices`. -/
def TokenBalance.applyPrice (pricesMap : PricesMap) (timestamp : Nat) (balance : TokenBalance) :
    TokenBalance :=
  match (pricesMap balance.token).filter (!·.falsy) with
  | none => balance
  | some price =>
    { balance with
      tokenPriceUSD := some ⟨price, .atTimestamp timestamp⟩
      totalPriceUSD := some (balance.decimalsAmount.getD .nan * price) }

def PartialBalances.map (f : TokenBalance → TokenBalance) (result : PartialBalances) :
    PartialBalances :=
  { result with balances := result.balances.map f }

/-- The tokens whose prices are asked for. -/
def tokensWithBalances (results : List PartialBalances) : List Address :=
  results.flatMap fun result =>
    (result.balances.filter fun b => b.decimalsAmount.isSome && 0 < b.reading.amount).map (·.token)

/-- `AccountBalance`. -/
structure AccountBalance where
  account : Address
  tokens : List TokenBalance
  totalUsd : JsNumber
  errors : List ErrorMessage

/-- The callback of `mergeBalances`. -/
def mergePartial (response : JsMap Address AccountBalance) (result : PartialBalances) :
    JsMap Address AccountBalance :=
  let accountBalance := (response.get result.address).getD ⟨result.address, [], 0, []⟩
  let partialUsd := result.balances.foldl
    (fun sum b => sum + (b.totalPriceUSD.getD .nan).orZero) 0
  response.set result.address
    { accountBalance with
      tokens := accountBalance.tokens ++
        result.balances.filter (·.token ∉ BLACKLISTED_TOKENS)
      errors := accountBalance.errors ++ result.errors
      totalUsd := accountBalance.totalUsd + partialUsd }

namespace Call
variable (call : Call)

def chainsToHandle : List ChainId := unique call.chains

def addressesToHandle : List Address :=
  ((unique call.addresses).map call.checks.unifyAddress).filter (!call.isBlacklisted ·)

/-- A failed search gives nothing. -/
def getBlockAtDate (chainId : ChainId) : Option Block :=
  match call.cachedBlock chainId with
  | some block => some block
  | none => (call.getBlockFromDate chainId).toOption

/-- The balances of a chain before assets and prices are put to them. -/
def rawBalances (chainId : ChainId) (assetsToHandle : List Asset) : List PartialBalances :=
  call.addressesToHandle.map fun address =>
    (getBalancesForChainForAddress (call.cache chainId address) call.node
      ⟨chainId, address, assetsToHandle.map (·.address), call.getBlockAtDate chainId⟩).1

def assetsMap (assetsToHandle : List Asset) : JsMap Address Asset :=
  .ofEntries (assetsToHandle.map fun asset => (asset.address, asset))

/-- `addAssetsInformation`. -/
def withAssets (chainId : ChainId) (assetsToHandle : List Asset) : List PartialBalances :=
  (call.rawBalances chainId assetsToHandle).map
    (·.map (TokenBalance.addAsset (assetsMap assetsToHandle)))

def applyHistoricalPrices (chainId : ChainId) (results : List PartialBalances) (block : Block) :
    Except String (List PartialBalances) := do
  let pricesMap ← call.getBulkPriceAtTimestamp (tokensWithBalances results) chainId block.timestamp
  pure (results.map (·.map (TokenBalance.applyPrice pricesMap block.timestamp)))

def getBalancesPerChain (chainId : ChainId) : Except String (List PartialBalances) := do
  let assetsToHandle ← call.getAssetsToHandle chainId
  let balances := call.withAssets chainId assetsToHandle
  match call.getBlockAtDate chainId with
  | some block => call.applyHistoricalPrices chainId balances block
  | none => pure balances

def getBalance : Except String (JsMap Address AccountBalance) :=
  if call.addressesToHandle = [] ∨ call.chainsToHandle = [] then pure []
  else do
    let results ← call.chainsToHandle.mapM call.getBalancesPerChain
    pure (results.flatten.foldl mergePartial [])

end Call

/-! ## Past and present -/

namespace TokenBalance
variable {b : TokenBalance} {assetsMap : JsMap Address Asset} {pricesMap : PricesMap} {t : Nat}

/-- A balance adds to a total. -/
def Counted (b : TokenBalance) : Prop := (b.totalPriceUSD.getD .nan).falsy = false

/-- A balance is listed in a response, or counts in a total. -/
def Reported (b : TokenBalance) : Prop := b.token ∉ BLACKLISTED_TOKENS ∨ b.Counted

/-- A balance was read at the block, and its price is one of the block's time. -/
def IsHistoric (block : Block) (b : TokenBalance) : Prop :=
  (∃ amount, b.reading = .contract (some block.block) amount) ∧
    ∀ price, b.tokenPriceUSD = some price → price.source = .atTimestamp block.timestamp

/-- The token has a price now. -/
def PricedNow (assetsMap : JsMap Address Asset) (token : Address) : Prop :=
  ∃ asset, assetsMap.get token = some asset ∧ (asset.price.filter (!·.falsy)).isSome

/-- The token has a price in a response. -/
def PricedThen (pricesMap : PricesMap) (token : Address) : Prop :=
  ((pricesMap token).filter (!·.falsy)).isSome

@[simp] theorem addAsset_token : (b.addAsset assetsMap).token = b.token := by
  unfold addAsset
  split
  · rfl
  · split <;> rfl

@[simp] theorem addAsset_reading : (b.addAsset assetsMap).reading = b.reading := by
  unfold addAsset
  split
  · rfl
  · split <;> rfl

/-- The asset step puts a current price to a balance without a price, or none. -/
theorem addAsset_price (assetsMap : JsMap Address Asset) (h : b.tokenPriceUSD = none) :
    (∃ price, (b.addAsset assetsMap).tokenPriceUSD = some ⟨price, .current⟩ ∧
        PricedNow assetsMap b.token) ∨
      (b.addAsset assetsMap).tokenPriceUSD = none ∧ ¬ PricedNow assetsMap b.token := by
  unfold addAsset PricedNow
  cases hasset : assetsMap.get b.token with
  | none => exact .inr ⟨h, by simp⟩
  | some asset =>
    dsimp only
    cases hprice : asset.price.filter (!·.falsy) with
    | none =>
      refine .inr ⟨h, ?_⟩
      rintro ⟨_, he, hsome⟩
      cases he
      rw [hprice] at hsome
      cases hsome
    | some price => exact .inl ⟨price, rfl, asset, rfl, by rw [hprice]; rfl⟩

@[simp] theorem applyPrice_reading : (b.applyPrice pricesMap t).reading = b.reading := by
  unfold applyPrice
  split <;> rfl

/-- The price step replaces the price only where the response has one. -/
theorem applyPrice_price (b : TokenBalance) (pricesMap : PricesMap) (t : Nat) :
    (∃ price, (b.applyPrice pricesMap t).tokenPriceUSD = some ⟨price, .atTimestamp t⟩ ∧
        PricedThen pricesMap b.token) ∨
      (b.applyPrice pricesMap t).tokenPriceUSD = b.tokenPriceUSD ∧
        ¬ PricedThen pricesMap b.token := by
  unfold applyPrice PricedThen
  cases (pricesMap b.token).filter (!·.falsy) with
  | none => exact .inr ⟨rfl, by simp⟩
  | some price => exact .inl ⟨price, rfl, rfl⟩

/-- A balance ends up historic when the strategy has read it at the block and a price of now is
replaced. -/
theorem isHistoric_iff {chainId : ChainId} {block : Block} {balances : List TokenBalance}
    (hread : ReadAt chainId (some block.block) balances) (hb : b ∈ balances) :
    ((b.addAsset assetsMap).applyPrice pricesMap block.timestamp).IsHistoric block ↔
      b.OfContract chainId ∧ (PricedNow assetsMap b.token → PricedThen pricesMap b.token) := by
  obtain ⟨hprice, -, hblock, hcontract⟩ := hread b hb
  unfold IsHistoric
  rw [applyPrice_reading, addAsset_reading, ← hcontract]
  refine and_congr ?_ ?_
  · constructor
    · rintro ⟨amount, h⟩
      rw [h]
      rfl
    · intro h
      cases hr : b.reading with
      | contract block' amount => exact ⟨amount, by rw [hblock _ _ hr]⟩
      | latest amount =>
        rw [hr] at h
        cases h
  · rcases applyPrice_price (b.addAsset assetsMap) pricesMap block.timestamp with
      ⟨price, hp, hthen⟩ | ⟨hp, hthen⟩
    · rw [addAsset_token] at hthen
      rw [hp]
      refine iff_of_true (fun price h => ?_) fun _ => hthen
      rw [← Option.some.inj h]
    · rw [addAsset_token] at hthen
      rw [hp]
      rcases addAsset_price assetsMap hprice with
        ⟨price, hnow, hpriced⟩ | ⟨hnow, hpriced⟩
      · refine iff_of_false (fun h => ?_) fun h => hthen (h hpriced)
        cases h _ hnow
      · refine iff_of_true (fun price h => ?_) fun h => absurd h hpriced
        rw [hnow] at h
        cases h

end TokenBalance

/-- The tokens that a response lists for an address. -/
def listed (response : JsMap Address AccountBalance) (address : Address) : List TokenBalance :=
  ((response.get address).map (·.tokens)).getD []

theorem listed_mergePartial (response : JsMap Address AccountBalance) (result : PartialBalances) :
    listed (mergePartial response result) address =
      if result.address = address then
        listed response address ++ result.balances.filter (·.token ∉ BLACKLISTED_TOKENS)
      else listed response address := by
  unfold listed mergePartial
  rw [JsMap.get_set]
  split
  · next h =>
    subst h
    cases response.get result.address <;> rfl
  · rfl

/-- A merged response lists the balances of the results, without the blacklisted tokens. -/
theorem mem_listed {results : List PartialBalances} {response : JsMap Address AccountBalance} :
    b ∈ listed (results.foldl mergePartial response) address ↔
      b ∈ listed response address ∨
        ∃ result ∈ results, result.address = address ∧ b ∈ result.balances ∧
          b.token ∉ BLACKLISTED_TOKENS := by
  induction results generalizing response with
  | nil => simp
  | cons result results ih =>
    rw [List.foldl_cons, ih, listed_mergePartial]
    split
    · next h => simp [h, or_assoc]
    · next h => simp [h]

namespace Call
variable (call : Call)

/-- What a response lists of every chain, or counts in a total, was read at the block found for the
instant, with prices of the block's time. -/
def NeverMixes : Prop :=
  ∀ response, call.getBalance = .ok response →
    ∀ chainId ∈ call.chainsToHandle, ∀ results, call.getBalancesPerChain chainId = .ok results →
      ∀ result ∈ results, ∀ b ∈ result.balances, b ∈ listed response result.address ∨ b.Counted →
        ∃ block, call.getBlockAtDate chainId = some block ∧ b.IsHistoric block

/-- The requests of a chain are answered. -/
def Answered (chainId : ChainId) : Prop :=
  ∃ assets, call.getAssetsToHandle chainId = .ok assets ∧
    ∀ block, call.getBlockAtDate chainId = some block →
      Succeeds (call.getBulkPriceAtTimestamp (tokensWithBalances (call.withAssets chainId assets))
        chainId block.timestamp)

/-- Without a block nothing of a chain is reported; with one, what is reported is what the contract
gives, and the block's prices have every token with a price of now. -/
def KeepsToPast (chainId : ChainId) : Prop :=
  ∀ assets, call.getAssetsToHandle chainId = .ok assets →
    ∀ result ∈ call.rawBalances chainId assets, ∀ b ∈ result.balances,
      match call.getBlockAtDate chainId with
      | none => ¬ (b.addAsset (assetsMap assets)).Reported
      | some block =>
        ∀ pricesMap, call.getBulkPriceAtTimestamp
            (tokensWithBalances (call.withAssets chainId assets)) chainId block.timestamp =
              .ok pricesMap →
          ((b.addAsset (assetsMap assets)).applyPrice pricesMap block.timestamp).Reported →
            b.OfContract chainId ∧
              (TokenBalance.PricedNow (assetsMap assets) b.token →
                TokenBalance.PricedThen pricesMap b.token)

theorem rawBalances_readAt {chainId : ChainId} {assets : List Asset} {result : PartialBalances}
    (h : result ∈ call.rawBalances chainId assets) :
    ReadAt chainId ((call.getBlockAtDate chainId).map (·.block)) result.balances := by
  obtain ⟨address, -, rfl⟩ := List.mem_map.mp h
  exact (getBalancesForChainForAddress_consistent (call.reachable chainId address).consistent
    call.node ⟨chainId, address, assets.map (·.address), call.getBlockAtDate chainId⟩).1

theorem getBalancesPerChain_succeeds {chainId : ChainId} :
    Succeeds (call.getBalancesPerChain chainId) ↔ call.Answered chainId := by
  unfold getBalancesPerChain Answered
  rw [succeeds_bind]
  refine exists_congr fun assets => and_congr_right fun _ => ?_
  cases call.getBlockAtDate chainId with
  | none => exact iff_of_true succeeds_pure fun _ h => by cases h
  | some block =>
    simp only [Option.some.injEq, forall_eq']
    exact succeeds_bind_of_forall fun _ => succeeds_pure

theorem getBalance_succeeds (haddresses : call.addressesToHandle ≠ []) :
    Succeeds call.getBalance ↔ ∀ chainId ∈ call.chainsToHandle, call.Answered chainId := by
  unfold getBalance
  by_cases hchains : call.chainsToHandle = []
  · rw [if_pos (.inr hchains), hchains]
    exact iff_of_true succeeds_pure fun _ h => by cases h
  · rw [if_neg (not_or.mpr ⟨haddresses, hchains⟩), succeeds_bind_of_forall fun _ => succeeds_pure,
      succeeds_mapM]
    exact forall₂_congr fun chainId _ => call.getBalancesPerChain_succeeds

theorem getBalancesPerChain_length {chainId : ChainId} {results : List PartialBalances}
    (h : call.getBalancesPerChain chainId = .ok results) :
    results.length = call.addressesToHandle.length := by
  unfold getBalancesPerChain at h
  obtain ⟨assets, -, h⟩ := bind_eq_ok.mp h
  have hlength : (call.withAssets chainId assets).length = call.addressesToHandle.length := by
    simp only [withAssets, rawBalances, List.length_map]
  cases hblock : call.getBlockAtDate chainId with
  | none =>
    rw [hblock] at h
    cases h
    exact hlength
  | some block =>
    rw [hblock] at h
    obtain ⟨pricesMap, -, h⟩ := bind_eq_ok.mp h
    cases h
    rw [List.length_map, hlength]

/-- Of the balances of a chain a response lists those whose token is not blacklisted. -/
theorem reported_iff {response : JsMap Address AccountBalance} (h : call.getBalance = .ok response)
    {chainId : ChainId} (hc : chainId ∈ call.chainsToHandle) {results : List PartialBalances}
    (hresults : call.getBalancesPerChain chainId = .ok results) {result : PartialBalances}
    (hr : result ∈ results) {b : TokenBalance} (hb : b ∈ result.balances) :
    (b ∈ listed response result.address ∨ b.Counted) ↔ b.Reported := by
  refine or_congr_left ?_
  have hne : call.addressesToHandle ≠ [] := by
    intro hempty
    have hlength := call.getBalancesPerChain_length hresults
    rw [hempty] at hlength
    rw [List.length_eq_zero_iff.mp hlength] at hr
    cases hr
  unfold getBalance at h
  rw [if_neg (not_or.mpr ⟨hne, List.ne_nil_of_mem hc⟩)] at h
  obtain ⟨perChain, hperChain, h⟩ := bind_eq_ok.mp h
  cases h
  rw [mem_listed]
  constructor
  · rintro (h | ⟨_, -, -, -, h⟩)
    · cases h
    · exact h
  · intro h
    have hmem : results ∈ perChain := (mem_of_mapM_ok hperChain).mpr ⟨chainId, hc, hresults⟩
    exact .inr ⟨result, List.mem_flatten_of_mem hmem hr, rfl, hb, h⟩

/-- A chain reports nothing of the present. -/
theorem chain_neverMixes_iff (chainId : ChainId) :
    (∀ results, call.getBalancesPerChain chainId = .ok results →
      ∀ result ∈ results, ∀ b ∈ result.balances, b.Reported →
        ∃ block, call.getBlockAtDate chainId = some block ∧ b.IsHistoric block) ↔
      (call.Answered chainId → call.KeepsToPast chainId) := by
  unfold getBalancesPerChain Answered KeepsToPast
  cases hassets : call.getAssetsToHandle chainId with
  | error e =>
    refine iff_of_true (fun results h => by cases h) ?_
    rintro ⟨assets, h, -⟩
    cases h
  | ok assets =>
    simp only [ok_bind, Except.ok.injEq, exists_eq_left', forall_eq']
    have hraw : ∀ result ∈ call.rawBalances chainId assets,
        ReadAt chainId ((call.getBlockAtDate chainId).map (·.block)) result.balances :=
      fun result h => call.rawBalances_readAt h
    cases hblock : call.getBlockAtDate chainId with
    | none =>
      have hmem : ∀ results,
          (pure (call.withAssets chainId assets) : Except String _) = .ok results ↔
            call.withAssets chainId assets = results :=
        fun results => ⟨fun h => Except.ok.inj h, fun h => congrArg Except.ok h⟩
      simp only [hmem, forall_eq']
      simp only [withAssets, List.forall_mem_map, PartialBalances.map]
      constructor
      · intro h _ result hr b hb hreported
        obtain ⟨block, hnone, -⟩ := h result hr b hb hreported
        cases hnone
      · intro h result hr b hb hreported
        exact absurd hreported (h (fun _ hnone => by cases hnone) result hr b hb)
    | some block =>
      rw [hblock] at hraw
      simp only [applyHistoricalPrices, Option.some.injEq, forall_eq', exists_eq_left']
      cases hprices : call.getBulkPriceAtTimestamp
          (tokensWithBalances (call.withAssets chainId assets)) chainId block.timestamp with
      | error e =>
        exact iff_of_true (fun results h => by cases h) fun h => absurd h not_succeeds_error
      | ok pricesMap =>
        simp only [ok_bind, succeeds_ok, forall_const, Except.ok.injEq, forall_eq']
        have hmem : ∀ results, (pure ((call.withAssets chainId assets).map
              (·.map (TokenBalance.applyPrice pricesMap block.timestamp))) : Except String _) =
                .ok results ↔
            (call.withAssets chainId assets).map
              (·.map (TokenBalance.applyPrice pricesMap block.timestamp)) = results :=
          fun results => ⟨fun h => Except.ok.inj h, fun h => congrArg Except.ok h⟩
        simp only [hmem, forall_eq']
        simp only [withAssets, List.forall_mem_map, PartialBalances.map]
        refine forall₂_congr fun result hr => forall₂_congr fun b hb => imp_congr_right fun _ => ?_
        exact TokenBalance.isHistoric_iff (hraw result hr) hb

/-- The past does not mix with the present exactly when, all requests being answered, every chain
keeps to the past. -/
theorem neverMixes_iff :
    call.NeverMixes ↔
      ((∀ chainId ∈ call.chainsToHandle, call.Answered chainId) →
        ∀ chainId ∈ call.chainsToHandle, call.KeepsToPast chainId) := by
  have hreported : call.NeverMixes ↔ (Succeeds call.getBalance →
      ∀ chainId ∈ call.chainsToHandle, ∀ results, call.getBalancesPerChain chainId = .ok results →
        ∀ result ∈ results, ∀ b ∈ result.balances, b.Reported →
          ∃ block, call.getBlockAtDate chainId = some block ∧ b.IsHistoric block) := by
    constructor
    · rintro h ⟨response, hresponse⟩ chainId hc results hresults result hr b hb hb'
      exact h response hresponse chainId hc results hresults result hr b hb
        ((call.reported_iff hresponse hc hresults hr hb).mpr hb')
    · intro h response hresponse chainId hc results hresults result hr b hb hb'
      exact h ⟨response, hresponse⟩ chainId hc results hresults result hr b hb
        ((call.reported_iff hresponse hc hresults hr hb).mp hb')
  rw [hreported]
  by_cases hempty : call.addressesToHandle = []
  · -- nothing is reported without addresses
    have hkeeps : ∀ chainId, call.KeepsToPast chainId := by
      intro chainId assets _ result hr
      rw [rawBalances, hempty] at hr
      cases hr
    exact iff_of_true (fun _ chainId _ => (call.chain_neverMixes_iff chainId).mpr fun _ =>
      hkeeps chainId) fun _ chainId _ => hkeeps chainId
  · rw [call.getBalance_succeeds hempty]
    refine imp_congr_right fun hanswered => forall₂_congr fun chainId hc => ?_
    rw [call.chain_neverMixes_iff chainId]
    exact ⟨fun h => h (hanswered chainId hc), fun h _ => h⟩

end Call

/-! ## A search that fails -/

def account : Address := "0xd8da6bf26964af9d7eed9e03e53415d37aa96045"

def token : Address := "0x6b175474e89094c44da98b954eedeac495271d0f"

/-- A call for one account on one chain. The node has a balance of one token, now and at any block;
the search for the block has failed. -/
def withoutBlock : Call where
  addresses := [account]
  chains := [1]
  checks :=
    { isETHAddress := (· = account)
      validator := fun _ => none
      lowerCase_isETHAddress := fun h => by
        rw [of_decide_eq_true h]
        decide
      no_space := fun h => by
        rw [of_decide_eq_true h]
        exact no_space_of_all (by decide) }
  isBlacklisted _ := false
  getAssetsToHandle _ := .ok [⟨token, 18, some 1⟩]
  cachedBlock _ := none
  getBlockFromDate _ := .error "Returned error: missing trie node"
  getBulkPriceAtTimestamp _ _ _ := .ok fun _ => some 1
  node :=
    { isETHAddress := (· = account)
      getBalance := fun _ _ => .ok 0
      contractBalances := fun _ _ _ tokens => .ok (tokens.map fun _ => 5)
      contractBalances_length := fun _ _ _ _ _ h => by cases h; rw [List.length_map]
      networkBalances := fun _ _ _ => .ok [] }
  cache _ _ := .empty
  reachable _ _ := .empty

/-- The balance of now is listed. -/
theorem withoutBlock_mixes : ¬ withoutBlock.NeverMixes := by
  intro h
  have hchain : withoutBlock.getBalancesPerChain 1 =
      .ok (withoutBlock.withAssets 1 [⟨token, 18, some 1⟩]) := rfl
  obtain ⟨block, hblock, -⟩ := h _ rfl 1 (by decide) _ hchain _ (List.mem_singleton_self _) _
    (List.mem_singleton_self _) (.inl (List.mem_singleton_self _))
  cases hblock

end HistoricalBalances
end Account
end DefiBackend
