import DefiBackend.Common.Address
import DefiBackend.Common.BigNumber
import DefiBackend.Common.Collections
import DefiBackend.Common.JsMap
import DefiBackend.Theory.Fallible

/-! # Parsing of migrated transactions

`transactions.parsing.service.ts`: the transfers of a transaction (its ERC20 transfer events, and
its value) give one row for each address, with the incoming and outgoing sub-transactions of the
address. Addresses are collected from the transfers, and sub-transactions are made from them later.

* `parseTransactions_eq_ok`: what a run that completes has collected and made.
* `parseTransactions_conserves`: each transfer of a known asset is once outgoing in the row of its
  sender and once incoming in the row of its receiver, with one amount, and in no other row. -/

namespace DefiBackend
namespace Migration
namespace TransactionsParsing
open Theory

/-! ## Data -/

structure MigrationEvent where
  address : Address
  topic1 : Option String
  topic2 : Option String
  topic3 : Option String
  data : Option String
  chainId : Option Nat
  deriving DecidableEq

/-- `value` is the decimal text of a number. -/
structure MigrationTransaction where
  hash : String
  blockNumber : Nat
  «from» : Option Address
  «to» : Option Address
  value : Nat
  gasPrice : JsNumber
  timestamp : Nat
  events : List MigrationEvent
  chainId : Nat

structure AssetsNewEntity where
  address : Address
  symbol : String
  chain : Nat
  decimals : Nat
  isDataPresent : Bool

inductive TokenTypes
  | OUT | IN
  deriving DecidableEq

inductive TokenOperations
  | RECEIVE | SEND | EXCHANGE
  deriving DecidableEq

structure SubTransaction where
  address : Address
  amount : JsNumber
  price : Option JsNumber
  symbol : String
  tokenAddress : Address
  decimals : Nat
  «from» : Option Address
  «to» : Option Address
  type : TokenTypes

/-- A row that is inserted into `transactions_new`. -/
structure Row where
  hash : String
  address : Address
  blockNumber : Nat
  timestamp : Nat
  sender : Option Address
  destination : Option Address
  gasPrice : JsNumber
  gasUsed : Nat
  gasUsedUsd : JsNumber
  tokenOperation : TokenOperations
  chainId : Nat
  isVisible : Bool
  subTransactions : List SubTransaction

/-- What `publishNewAssetAddedWithEvents` publishes. -/
structure MigrationAddNewAsset where
  chainId : Nat
  contractAddress : Address
  userAddress : Option Address

inductive Thrown
  | web3
  | prices
  | undefined
  | incorrectData (published : MigrationAddNewAsset)

abbrev CurrentPrices := JsMap Address (JsMap Nat JsNumber)

/-- What is called: the decoding and the numbers of `web3`, where nothing stands for an error; the
receipts of transactions; the prices; and the table of assets. -/
structure Services where
  decodeParameter : String → Option Address
  toBN : String → Option Nat
  gasUsed : String → Except Thrown (Option Nat)
  getHistoricalPrices : List Address → Nat → Nat → Except Thrown CurrentPrices
  assets : List AssetsNewEntity

def CHAIN_ID_ETH : Nat := 1

def ETH_ADDRESS : Address := "0x0000000000000000000000000000000000000000"

def ETH_TRANSFER_TOPIC : String :=
  "0xddf252ad1be2c89b69c2b068fc378daa952ba7f163c4a11628f55a4df523b3ef"

def ZERO_DATA : String := "0x"

/-! ## Transfers -/

/-- A text that is there and is not empty. -/
def truthy (text : Option String) : Option String := text.filter (· ≠ "")

/-- `transaction.chainId || CHAIN_ID_ETH`. -/
def chainIdOr (chainId : Nat) : Nat := if chainId = 0 then CHAIN_ID_ETH else chainId

/-- `addToSetAddress`. -/
def addToSetAddress (topic : Option Address) (uniqueAddresses : List Address) : List Address :=
  match truthy topic with
  | some topic => addToSet uniqueAddresses topic
  | none => uniqueAddresses

/-- `Web3.utils.fromDecimal`. -/
def fromDecimal (value : Nat) : String := "0x" ++ String.ofList (Nat.toDigits 16 value)

/-- `getEthTransactionTransfer`: an `EventDto` has the address of the coin, and what it exposes. -/
def getEthTransactionTransfer (transaction : MigrationTransaction) : MigrationEvent where
  address := ETH_ADDRESS
  topic1 := none
  topic2 := transaction.from.map lowerCase
  topic3 := transaction.to.map lowerCase
  data := some (fromDecimal transaction.value)
  chainId := none

section
variable (services : Services)

def fromHexToAddress (topic : Option String) : Except Thrown (Option Address) :=
  match truthy topic with
  | none => return none
  | some topic =>
    match services.decodeParameter topic with
    | some address => return some (lowerCase address)
    | none => throw .web3

/-- The callback of `getModifiedTransactionTransfers`. -/
def modifyEvent (s : List Address × List MigrationEvent) (event : MigrationEvent) :
    Except Thrown (List Address × List MigrationEvent) := do
  let (uniqueAddresses, transactionTransfers) := s
  if event.topic1 = some ETH_TRANSFER_TOPIC then
    let topic2 ← fromHexToAddress services event.topic2
    let topic3 ← fromHexToAddress services event.topic3
    let temporaryEvent := { event with topic2, topic3, address := lowerCase event.address }
    return (addToSetAddress topic3 (addToSetAddress topic2 uniqueAddresses),
      transactionTransfers ++ [temporaryEvent])
  else return s

def getModifiedTransactionTransfers (transaction : MigrationTransaction)
    (uniqueAddresses : List Address) : Except Thrown (List Address × List MigrationEvent) :=
  transaction.events.foldlM (modifyEvent services) (uniqueAddresses, [])

/-! ## Sub-transactions -/

def decimalsDivider (decimals : Nat) : JsNumber :=
  if decimals = 0 then 1 else JsNumber.tenPow decimals

def fromHexToNumber (hexData : Option String) (decimals : Nat) : Except Thrown JsNumber :=
  match hexData.bind services.toBN with
  | some n => return (JsNumber.finite n).dividedBy (decimalsDivider decimals)
  | none => throw .web3

def getSubTransactions (asset : AssetsNewEntity) (price : Option JsNumber) (event : MigrationEvent)
    (type : TokenTypes) (subTransactions : List SubTransaction) :
    Except Thrown (List SubTransaction) := do
  if ¬ asset.isDataPresent then
    throw (.incorrectData {
      chainId := chainIdOr (event.chainId.getD 0)
      contractAddress := asset.address
      userAddress := event.topic2 })
  let address := match type with
    | .OUT => event.topic2
    | .IN => event.topic3
  let amount ← fromHexToNumber services event.data asset.decimals
  match truthy address with
  | some address =>
    return subTransactions ++ [{
      address
      amount
      price
      symbol := asset.symbol
      tokenAddress := asset.address
      decimals := asset.decimals
      «from» := truthy event.topic2
      «to» := truthy event.topic3
      type }]
  | none => return subTransactions

/-- The loop of `getArrayOfSubTransactions`. -/
def addSubTransactions (assetsEntities : List AssetsNewEntity) (assetsPrices : CurrentPrices)
    (timestamp : Nat) (subTransactions : List SubTransaction) (item : MigrationEvent) :
    Except Thrown (List SubTransaction) := do
  match assetsEntities.find? (·.address = item.address) with
  | none => return subTransactions
  | some currentAssetEntity =>
    if item.data = some ZERO_DATA then return subTransactions
    match assetsPrices.get currentAssetEntity.address with
    | none => throw .undefined
    | some prices =>
      let price := prices.get timestamp
      let subTransactions ←
        getSubTransactions services currentAssetEntity price item .IN subTransactions
      getSubTransactions services currentAssetEntity price item .OUT subTransactions

/-- What `modifyTransaction` writes to a transaction. -/
structure Modified where
  sender : Option Address
  destination : Option Address
  gasUsed : Nat
  gasUsedUsd : JsNumber

def modifyTransaction (transaction : MigrationTransaction) (ethPrice : Option JsNumber)
    (gasUsed : Nat) : Except Thrown Modified :=
  match ethPrice with
  | none => throw .prices
  | some ethPrice =>
    if ethPrice.falsy then throw .prices
    else return {
      sender := transaction.from.map lowerCase
      destination := transaction.to.map lowerCase
      gasUsed
      gasUsedUsd := (JsNumber.finite gasUsed * transaction.gasPrice).dividedBy (decimalsDivider 18) *
        ethPrice }

def getAssetsPricesAndModifyTransaction (transaction : MigrationTransaction)
    (tokenAddresses : List Address) (gasUsed : Nat) : Except Thrown (CurrentPrices × Modified) := do
  let assetsPrices ← services.getHistoricalPrices tokenAddresses transaction.timestamp
    transaction.chainId
  match assetsPrices.get ETH_ADDRESS with
  | none => throw .undefined
  | some prices =>
    let modified ← modifyTransaction transaction (prices.get transaction.timestamp) gasUsed
    return (assetsPrices, modified)

def getArrayOfSubTransactions (events : List MigrationEvent) (transaction : MigrationTransaction)
    (gasUsed : Nat) : Except Thrown (List SubTransaction × Modified) := do
  let tokenAddresses := addToSet (unique (events.map (·.address))) ETH_ADDRESS
  let (assetsPrices, modified) ←
    getAssetsPricesAndModifyTransaction services transaction tokenAddresses gasUsed
  let assetsEntities := services.assets.filter fun asset =>
    asset.address ∈ tokenAddresses ∧ asset.chain = chainIdOr transaction.chainId
  let subTransactions ← events.foldlM
    (addSubTransactions services assetsEntities assetsPrices transaction.timestamp) []
  return (subTransactions, modified)

/-! ## Rows -/

/-- The row of an address. -/
def insertRow (transaction : MigrationTransaction) (modified : Modified)
    (subTransactions : List SubTransaction) (address : Address) : Row :=
  let addressSubTransactions := subTransactions.filter (address = ·.address)
  { hash := transaction.hash
    address
    blockNumber := transaction.blockNumber
    timestamp := transaction.timestamp
    sender := modified.sender
    destination := modified.destination
    gasPrice := transaction.gasPrice
    gasUsed := modified.gasUsed
    gasUsedUsd := modified.gasUsedUsd
    tokenOperation :=
      if (addressSubTransactions.find? (·.type = .OUT)).isSome then
        if (addressSubTransactions.find? (·.type = .IN)).isSome then .EXCHANGE else .SEND
      else .RECEIVE
    chainId := chainIdOr transaction.chainId
    isVisible := ¬ addressSubTransactions.isEmpty
    subTransactions := addressSubTransactions }

/-- The rows of the statement that is run, if one is. -/
def parseTransactions (transaction : MigrationTransaction) : Except Thrown (Option (List Row)) := do
  let gasUsed ← services.gasUsed transaction.hash
  match gasUsed with
  | none | some 0 => return none
  | some gasUsed =>
    let (uniqueAddresses, transactionTransfers) ←
      getModifiedTransactionTransfers services transaction []
    let (uniqueAddresses, transactionTransfers) :=
      if transaction.value ≠ 0 then
        (addToSetAddress (transaction.to.map lowerCase)
            (addToSetAddress (transaction.from.map lowerCase) uniqueAddresses),
          transactionTransfers ++ [getEthTransactionTransfer transaction])
      else (uniqueAddresses, transactionTransfers)
    let (subTransactions, modified) ←
      getArrayOfSubTransactions services transactionTransfers transaction gasUsed
    return some (uniqueAddresses.map (insertRow transaction modified subTransactions))

end

/-! ## Transfers of a transaction -/

/-- Who sends something to whom. -/
structure Transfer where
  sender : Option Address
  receiver : Option Address
  token : Address
  data : Option String
  isEmpty : Bool

/-- The transfer of an event that has been modified. -/
def MigrationEvent.transfer (event : MigrationEvent) : Transfer :=
  ⟨truthy event.topic2, truthy event.topic3, event.address, event.data, event.data = some ZERO_DATA⟩

section
variable (services : Services) (transaction : MigrationTransaction)

/-- The address in a topic. -/
def party (topic : Option String) : Option Address :=
  truthy (((truthy topic).bind services.decodeParameter).map lowerCase)

def erc20Transfer (event : MigrationEvent) : Transfer :=
  ⟨party services event.topic2, party services event.topic3, lowerCase event.address, event.data,
    event.data = some ZERO_DATA⟩

/-- The transfer of the value is never empty. -/
def nativeTransfer : Transfer :=
  ⟨truthy (transaction.from.map lowerCase), truthy (transaction.to.map lowerCase), ETH_ADDRESS,
    some (fromDecimal transaction.value), false⟩

/-- The ERC20 transfers of a transaction, and that of its value. -/
def transfers : List Transfer :=
  (transaction.events.filter (·.topic1 = some ETH_TRANSFER_TOPIC)).map (erc20Transfer services) ++
    if transaction.value ≠ 0 then [nativeTransfer transaction] else []

/-- The asset of a token, if it is known. -/
def knownAsset (token : Address) : Option AssetsNewEntity :=
  services.assets.find? fun asset =>
    asset.address = token ∧ asset.chain = chainIdOr transaction.chainId

/-- The amount of a transfer. -/
def amountOf (data : Option String) (decimals : Nat) : JsNumber :=
  match data.bind services.toBN with
  | some n => (JsNumber.finite n).dividedBy (decimalsDivider decimals)
  | none => .nan

/-- A transfer as a sub-transaction of an address. -/
def Transfer.sub (asset : AssetsNewEntity) (price : Option JsNumber) (t : Transfer)
    (type : TokenTypes) (address : Address) : SubTransaction where
  address
  amount := amountOf services t.data asset.decimals
  price
  symbol := asset.symbol
  tokenAddress := asset.address
  decimals := asset.decimals
  «from» := t.sender
  «to» := t.receiver
  type

/-- The sub-transactions of a transfer of a known asset that is not empty: one for its receiver and
one for its sender. -/
def Transfer.subs (price : Address → Option JsNumber) (t : Transfer) : List SubTransaction :=
  match knownAsset services transaction t.token with
  | none => []
  | some asset =>
    if t.isEmpty then []
    else t.receiver.toList.map (t.sub services asset (price asset.address) .IN) ++
      t.sender.toList.map (t.sub services asset (price asset.address) .OUT)

/-- What a transfer contributes to the row of an address: if it is not empty and its asset is known,
once what the address receives, and once what it sends. -/
def Transfer.contribution (price : Address → Option JsNumber) (address : Address) (t : Transfer) :
    List SubTransaction :=
  match knownAsset services transaction t.token with
  | none => []
  | some asset =>
    if t.isEmpty then []
    else
      (if t.receiver = some address then [t.sub services asset (price asset.address) .IN address]
        else []) ++
      if t.sender = some address then [t.sub services asset (price asset.address) .OUT address]
        else []

end

/-- `EXCHANGE` with both kinds, `SEND` with outgoing ones only. -/
def operationOf (subTransactions : List SubTransaction) : TokenOperations :=
  if ∃ s ∈ subTransactions, s.type = .OUT then
    if ∃ s ∈ subTransactions, s.type = .IN then .EXCHANGE else .SEND
  else .RECEIVE

/-- There is one row for each address, with what the transfers contribute to it. -/
structure Conserves (services : Services) (transaction : MigrationTransaction) (rows : List Row) :
    Prop where
  distinct : (rows.map (·.address)).Nodup
  involved : ∀ address, address ∈ rows.map (·.address) ↔
    ∃ t ∈ transfers services transaction, t.sender = some address ∨ t.receiver = some address
  subTransactions : ∃ price : Address → Option JsNumber, ∀ row ∈ rows, row.subTransactions =
    (transfers services transaction).flatMap
      (Transfer.contribution services transaction price row.address)
  tokenOperation : ∀ row ∈ rows, row.tokenOperation = operationOf row.subTransactions

/-! ## What is collected -/

section
variable {services : Services} {transaction : MigrationTransaction}

/-- The addresses of a transfer are collected. -/
def addParties (set : List Address) (t : Transfer) : List Address :=
  addToSetAddress t.receiver (addToSetAddress t.sender set)

theorem truthy_truthy (text : Option String) : truthy (truthy text) = truthy text := by
  rw [truthy, truthy, Option.filter_filter]
  congr
  funext a
  exact Bool.and_self _

theorem addToSetAddress_truthy (topic : Option Address) (set : List Address) :
    addToSetAddress (truthy topic) set = addToSetAddress topic set := by
  rw [addToSetAddress, addToSetAddress, truthy_truthy]

theorem mem_addToSetAddress {topic : Option Address} {set : List Address} {address : Address} :
    address ∈ addToSetAddress topic set ↔ address ∈ set ∨ truthy topic = some address := by
  rw [addToSetAddress]
  cases truthy topic with
  | none => simp
  | some topic => simp [mem_addToSet, eq_comm]

theorem nodup_addToSetAddress {set : List Address} (h : set.Nodup) (topic : Option Address) :
    (addToSetAddress topic set).Nodup := by
  rw [addToSetAddress]
  cases truthy topic with
  | none => exact h
  | some topic => exact nodup_addToSet h topic

theorem nodup_foldl_addParties (l : List Transfer) {set : List Address} (h : set.Nodup) :
    (l.foldl addParties set).Nodup := by
  induction l generalizing set with
  | nil => exact h
  | cons t l ih => exact ih (nodup_addToSetAddress (nodup_addToSetAddress h _) _)

theorem mem_foldl_addParties {l : List Transfer} {set : List Address} {address : Address} :
    address ∈ l.foldl addParties set ↔ address ∈ set ∨
      ∃ t ∈ l, truthy t.sender = some address ∨ truthy t.receiver = some address := by
  induction l generalizing set with
  | nil => simp
  | cons t l ih =>
    rw [List.foldl_cons, ih, addParties, mem_addToSetAddress, mem_addToSetAddress,
      List.exists_mem_cons_iff, or_assoc, or_assoc, or_assoc]

theorem fromHexToAddress_eq_ok {topic : Option String} {address : Option Address}
    (h : fromHexToAddress services topic = .ok address) : truthy address = party services topic := by
  rw [fromHexToAddress] at h
  rw [party]
  cases htopic : truthy topic with
  | none =>
    rw [htopic] at h
    cases h
    rfl
  | some text =>
    rw [htopic] at h
    dsimp only at h
    rw [Option.bind_some]
    cases hdecode : services.decodeParameter text with
    | none =>
      rw [hdecode] at h
      cases h
    | some decoded =>
      rw [hdecode] at h
      cases h
      rfl

/-- One event adds its transfer, if it is one. -/
theorem modifyEvent_eq_ok {s s' : List Address × List MigrationEvent} {event : MigrationEvent}
    (h : modifyEvent services s event = .ok s') :
    s'.2.map (·.transfer) = s.2.map (·.transfer) ++
        (if event.topic1 = some ETH_TRANSFER_TOPIC then [erc20Transfer services event] else []) ∧
      s'.1 = (if event.topic1 = some ETH_TRANSFER_TOPIC then
        [erc20Transfer services event] else []).foldl addParties s.1 := by
  rw [modifyEvent] at h
  split at h
  · next htopic =>
    obtain ⟨topic2, htopic2, h⟩ := bind_eq_ok.mp h
    obtain ⟨topic3, htopic3, h⟩ := bind_eq_ok.mp h
    cases h
    have htransfer : MigrationEvent.transfer { event with
        topic2, topic3, address := lowerCase event.address } = erc20Transfer services event := by
      rw [MigrationEvent.transfer, erc20Transfer, fromHexToAddress_eq_ok htopic2,
        fromHexToAddress_eq_ok htopic3]
    rw [if_pos htopic, List.map_append, List.map_singleton, htransfer]
    refine ⟨rfl, ?_⟩
    rw [← htransfer, List.foldl_cons, List.foldl_nil, addParties, MigrationEvent.transfer,
      addToSetAddress_truthy, addToSetAddress_truthy]
  · next htopic =>
    cases h
    rw [if_neg htopic, List.append_nil]
    exact ⟨rfl, rfl⟩

theorem getModifiedTransactionTransfers_eq_ok {events : List MigrationEvent}
    {s s' : List Address × List MigrationEvent}
    (h : events.foldlM (modifyEvent services) s = .ok s') :
    s'.2.map (·.transfer) = s.2.map (·.transfer) ++
        (events.filter (·.topic1 = some ETH_TRANSFER_TOPIC)).map (erc20Transfer services) ∧
      s'.1 = ((events.filter (·.topic1 = some ETH_TRANSFER_TOPIC)).map
        (erc20Transfer services)).foldl addParties s.1 := by
  induction events generalizing s with
  | nil =>
    cases h
    exact ⟨(List.append_nil _).symm, rfl⟩
  | cons event events ih =>
    rw [List.foldlM_cons] at h
    obtain ⟨s₁, hs₁, h⟩ := bind_eq_ok.mp h
    obtain ⟨htransfers, haddresses⟩ := modifyEvent_eq_ok hs₁
    obtain ⟨htransfers', haddresses'⟩ := ih h
    rw [htransfers', haddresses', htransfers, haddresses, List.append_assoc]
    by_cases htopic : event.topic1 = some ETH_TRANSFER_TOPIC
    · rw [if_pos htopic, List.filter_cons, if_pos (decide_eq_true htopic), List.map_cons]
      exact ⟨rfl, rfl⟩
    · have hskip : ¬ decide (event.topic1 = some ETH_TRANSFER_TOPIC) = true :=
        fun h => htopic (of_decide_eq_true h)
      rw [if_neg htopic, List.filter_cons, if_neg hskip]
      exact ⟨rfl, rfl⟩

/-! ## What is made -/

theorem fromHexToNumber_eq_ok {data : Option String} {decimals : Nat} {amount : JsNumber}
    (h : fromHexToNumber services data decimals = .ok amount) :
    amountOf services data decimals = amount := by
  rw [fromHexToNumber] at h
  rw [amountOf]
  cases hn : data.bind services.toBN with
  | none =>
    rw [hn] at h
    cases h
  | some n =>
    rw [hn] at h
    exact Except.ok.inj h

/-- One sub-transaction is made if there is an address for it. -/
theorem getSubTransactions_eq_ok {asset : AssetsNewEntity} {price : Option JsNumber}
    {event : MigrationEvent} {type : TokenTypes} {subTransactions result : List SubTransaction}
    (h : getSubTransactions services asset price event type subTransactions = .ok result) :
    result = subTransactions ++
      (match type with
        | .OUT => event.transfer.sender
        | .IN => event.transfer.receiver).toList.map
        (event.transfer.sub services asset price type) := by
  have hside : ∀ (side : Option Address) (make : Address → SubTransaction),
      (match side with
        | some address => .ok (subTransactions ++ [make address])
        | none => .ok subTransactions : Except Thrown (List SubTransaction)) = .ok result →
      result = subTransactions ++ side.toList.map make := by
    intro side make h
    cases side with
    | none =>
      cases h
      exact (List.append_nil _).symm
    | some address =>
      cases h
      rfl
  by_cases hpresent : asset.isDataPresent = true
  · simp only [getSubTransactions, hpresent, not_true_eq_false, if_false] at h
    obtain ⟨amount, hamount, h⟩ := bind_eq_ok.mp h
    have hsub : event.transfer.sub services asset price type = fun address =>
        { address
          amount
          price
          symbol := asset.symbol
          tokenAddress := asset.address
          decimals := asset.decimals
          «from» := truthy event.topic2
          «to» := truthy event.topic3
          type } := by
      funext address
      rw [Transfer.sub, MigrationEvent.transfer, fromHexToNumber_eq_ok hamount]
    rw [hsub]
    cases type with
    | OUT => exact hside (truthy event.topic2) _ h
    | IN => exact hside (truthy event.topic3) _ h
  · simp only [getSubTransactions, hpresent] at h
    cases h

/-- The price of an asset among those that were read. -/
def priceAt (assetsPrices : CurrentPrices) (timestamp : Nat) (address : Address) :
    Option JsNumber :=
  (assetsPrices.get address).bind (·.get timestamp)

/-- The sub-transactions of one transfer are made. -/
theorem addSubTransactions_eq_ok {assetsEntities : List AssetsNewEntity}
    {assetsPrices : CurrentPrices} {timestamp : Nat} {item : MigrationEvent}
    {subTransactions result : List SubTransaction}
    (hfind : assetsEntities.find? (·.address = item.address) =
      knownAsset services transaction item.address)
    (h : addSubTransactions services assetsEntities assetsPrices timestamp subTransactions item =
      .ok result) :
    result = subTransactions ++
      item.transfer.subs services transaction (priceAt assetsPrices timestamp) := by
  rw [addSubTransactions, hfind] at h
  have htoken : item.transfer.token = item.address := rfl
  have hempty : item.transfer.isEmpty = decide (item.data = some ZERO_DATA) := rfl
  rw [Transfer.subs, htoken, hempty]
  cases hasset : knownAsset services transaction item.address with
  | none =>
    rw [hasset] at h
    cases h
    exact (List.append_nil _).symm
  | some asset =>
    rw [hasset] at h
    dsimp only at h ⊢
    split at h
    · next hzero =>
      cases h
      rw [if_pos (decide_eq_true hzero), List.append_nil]
    · next hzero =>
      rw [if_neg (by simpa using hzero)]
      cases hprices : assetsPrices.get asset.address with
      | none =>
        rw [hprices] at h
        cases h
      | some prices =>
        rw [hprices] at h
        obtain ⟨received, hreceived, hsent⟩ := bind_eq_ok.mp h
        have hprice : priceAt assetsPrices timestamp asset.address = prices.get timestamp := by
          rw [priceAt, hprices, Option.bind_some]
        rw [getSubTransactions_eq_ok hsent, getSubTransactions_eq_ok hreceived, hprice,
          List.append_assoc]

theorem foldlM_addSubTransactions {assetsEntities : List AssetsNewEntity}
    {assetsPrices : CurrentPrices} {timestamp : Nat} {items : List MigrationEvent}
    {subTransactions result : List SubTransaction}
    (hfind : ∀ item ∈ items, assetsEntities.find? (·.address = item.address) =
      knownAsset services transaction item.address)
    (h : items.foldlM (addSubTransactions services assetsEntities assetsPrices timestamp)
      subTransactions = .ok result) :
    result = subTransactions ++ (items.map (·.transfer)).flatMap
      (Transfer.subs services transaction (priceAt assetsPrices timestamp)) := by
  induction items generalizing subTransactions with
  | nil =>
    cases h
    exact (List.append_nil _).symm
  | cons item items ih =>
    rw [List.foldlM_cons] at h
    obtain ⟨first, hfirst, h⟩ := bind_eq_ok.mp h
    obtain ⟨hitem, hitems⟩ := List.forall_mem_cons.mp hfind
    rw [ih hitems h, addSubTransactions_eq_ok hitem hfirst, List.map_cons, List.flatMap_cons,
      List.append_assoc]

/-- All sub-transactions of the transfers are made. -/
theorem getArrayOfSubTransactions_eq_ok {events : List MigrationEvent} {gasUsed : Nat}
    {result : List SubTransaction × Modified}
    (h : getArrayOfSubTransactions services events transaction gasUsed = .ok result) :
    ∃ price : Address → Option JsNumber, result.1 =
      (events.map (·.transfer)).flatMap (Transfer.subs services transaction price) := by
  obtain ⟨⟨assetsPrices, modified⟩, -, h⟩ := bind_eq_ok.mp h
  obtain ⟨subTransactions, hsubs, h⟩ := bind_eq_ok.mp h
  cases h
  refine ⟨priceAt assetsPrices transaction.timestamp, foldlM_addSubTransactions ?_ hsubs⟩
  intro item hitem
  have hmem : item.address ∈ addToSet (unique (events.map (·.address))) ETH_ADDRESS :=
    mem_addToSet.mpr (.inl (mem_unique.mpr (List.mem_map_of_mem hitem)))
  rw [List.find?_filter, knownAsset]
  apply List.find?_congr
  intro asset _
  by_cases haddress : asset.address = item.address
  · simp [haddress, hmem]
  · simp [haddress]

/-- Of the sub-transactions of a transfer, those of an address are what it contributes to its row.
-/
theorem filter_subs (price : Address → Option JsNumber) (address : Address) (t : Transfer) :
    (t.subs services transaction price).filter (address = ·.address) =
      t.contribution services transaction price address := by
  have hside : ∀ (asset : AssetsNewEntity) type (side : Option Address),
      (side.toList.map (t.sub services asset (price asset.address) type)).filter
          (address = ·.address) =
        if side = some address then [t.sub services asset (price asset.address) type address]
        else [] := by
    intro asset type side
    cases side with
    | none => rfl
    | some a =>
      by_cases h : a = address
      · subst h
        simp [Transfer.sub]
      · simp [Transfer.sub, h, Ne.symm h]
  rw [Transfer.subs, Transfer.contribution]
  cases knownAsset services transaction t.token with
  | none => rfl
  | some asset =>
    dsimp only
    split
    · rfl
    · rw [List.filter_append, hside, hside]

theorem tokenOperation_eq (l : List SubTransaction) :
    (if (l.find? (·.type = .OUT)).isSome then
      if (l.find? (·.type = .IN)).isSome then TokenOperations.EXCHANGE else .SEND
    else .RECEIVE) = operationOf l := by
  simp [operationOf, List.find?_isSome]

theorem fromDecimal_ne_zeroData (value : Nat) : fromDecimal value ≠ ZERO_DATA := by
  intro h
  have hlist : (String.ofList (Nat.toDigits 16 value)).toList = [] := by
    have happend := congrArg String.toList h
    rw [fromDecimal, String.toList_append] at happend
    exact List.append_right_eq_self.mp happend
  rw [String.toList_ofList] at hlist
  exact Nat.toDigits_ne_nil hlist

theorem transfer_getEthTransactionTransfer :
    (getEthTransactionTransfer transaction).transfer = nativeTransfer transaction := by
  have hdata : decide (some (fromDecimal transaction.value) = some ZERO_DATA) = false :=
    decide_eq_false fun h => fromDecimal_ne_zeroData _ (Option.some.inj h)
  rw [MigrationEvent.transfer, nativeTransfer, ← hdata]
  rfl

/-- The rows are those of the addresses of the transfers, with the sub-transactions of them all. -/
theorem parseTransactions_eq_ok {rows : List Row}
    (h : parseTransactions services transaction = .ok (some rows)) :
    ∃ (price : Address → Option JsNumber) (modified : Modified),
      rows = ((transfers services transaction).foldl addParties []).map
        (insertRow transaction modified
          ((transfers services transaction).flatMap
            (Transfer.subs services transaction price))) := by
  obtain ⟨gasUsed, -, h⟩ := bind_eq_ok.mp h
  match gasUsed, h with
  | none, h => cases h
  | some 0, h => cases h
  | some (gasUsed + 1), h =>
    obtain ⟨⟨uniqueAddresses, events⟩, hevents, h⟩ := bind_eq_ok.mp h
    obtain ⟨htransfers, haddresses⟩ := getModifiedTransactionTransfers_eq_ok hevents
    dsimp only at htransfers haddresses h
    by_cases hvalue : transaction.value ≠ 0
    · rw [if_pos hvalue] at h
      obtain ⟨⟨subTransactions, modified⟩, hsubs, h⟩ := bind_eq_ok.mp h
      obtain ⟨price, hprice⟩ := getArrayOfSubTransactions_eq_ok hsubs
      cases h
      have hall : (events ++ [getEthTransactionTransfer transaction]).map (·.transfer) =
          transfers services transaction := by
        rw [List.map_append, htransfers, List.map_singleton, transfer_getEthTransactionTransfer,
          transfers, if_pos hvalue]
        rfl
      rw [hall] at hprice
      refine ⟨price, modified, ?_⟩
      rw [← hprice, transfers, if_pos hvalue, List.foldl_append, ← haddresses, List.foldl_cons,
        List.foldl_nil, addParties, nativeTransfer, addToSetAddress_truthy, addToSetAddress_truthy]
    · rw [if_neg hvalue] at h
      obtain ⟨⟨subTransactions, modified⟩, hsubs, h⟩ := bind_eq_ok.mp h
      obtain ⟨price, hprice⟩ := getArrayOfSubTransactions_eq_ok hsubs
      cases h
      have hall : events.map (·.transfer) = transfers services transaction := by
        rw [htransfers, transfers, if_neg hvalue, List.append_nil]
        rfl
      rw [hall] at hprice
      refine ⟨price, modified, ?_⟩
      rw [← hprice, transfers, if_neg hvalue, List.append_nil, ← haddresses]

/-- The parties of a transfer are not empty texts. -/
theorem truthy_parties {t : Transfer} (ht : t ∈ transfers services transaction) :
    truthy t.sender = t.sender ∧ truthy t.receiver = t.receiver := by
  rw [transfers, List.mem_append, List.mem_map] at ht
  rcases ht with ⟨event, -, rfl⟩ | ht
  · exact ⟨truthy_truthy _, truthy_truthy _⟩
  · split at ht
    · rw [List.mem_singleton] at ht
      subst ht
      exact ⟨truthy_truthy _, truthy_truthy _⟩
    · cases ht

/-- Each transfer of a known asset is in the rows of its parties, and in no other. -/
theorem parseTransactions_conserves {rows : List Row}
    (h : parseTransactions services transaction = .ok (some rows)) :
    Conserves services transaction rows := by
  obtain ⟨price, modified, rfl⟩ := parseTransactions_eq_ok h
  have haddress : ∀ subTransactions, (·.address) ∘ insertRow transaction modified subTransactions =
    id := fun _ => rfl
  constructor
  case distinct =>
    rw [List.map_map, haddress, List.map_id]
    exact nodup_foldl_addParties _ List.nodup_nil
  case involved =>
    intro address
    rw [List.map_map, haddress, List.map_id, mem_foldl_addParties]
    simp only [List.not_mem_nil, false_or]
    apply exists_congr
    intro t
    apply and_congr_right
    intro ht
    obtain ⟨hsender, hreceiver⟩ := truthy_parties ht
    rw [hsender, hreceiver]
  case subTransactions =>
    refine ⟨price, ?_⟩
    intro row hrow
    obtain ⟨address, -, rfl⟩ := List.mem_map.mp hrow
    have hfilter : ∀ l : List Transfer,
        (l.flatMap (Transfer.subs services transaction price)).filter (address = ·.address) =
          l.flatMap (Transfer.contribution services transaction price address) := by
      intro l
      rw [List.filter_flatMap]
      congr
      funext t
      exact filter_subs price address t
    exact hfilter _
  case tokenOperation =>
    intro row hrow
    obtain ⟨address, -, rfl⟩ := List.mem_map.mp hrow
    exact tokenOperation_eq _

/-- Where a coin and a token are known, with prices. -/
def coinAndToken : Services where
  decodeParameter topic :=
    if topic = "0x000000000000000000000000000000000000000000000000000000000000000a" then
      some "0x000000000000000000000000000000000000000A"
    else if topic = "0x000000000000000000000000000000000000000000000000000000000000000b" then
      some "0x000000000000000000000000000000000000000b"
    else none
  toBN data := if data = "0x64" then some 100 else if data = "0x5" then some 5 else none
  gasUsed _ := .ok (some 21000)
  getHistoricalPrices addresses timestamp _ :=
    .ok (addresses.map fun address => (address, [(timestamp, 1)]))
  assets := [
    ⟨ETH_ADDRESS, "ETH", 1, 18, true⟩, ⟨"0x00000000000000000000000000000000000000cc", "C", 1, 0, true⟩]

/-- A transfer of a token from one address to another, which sends coins. -/
def tokenForCoins : MigrationTransaction where
  hash := "0x1"
  blockNumber := 1
  «from» := some "0x000000000000000000000000000000000000000B"
  «to» := some "0x000000000000000000000000000000000000000a"
  value := 5
  gasPrice := 1
  timestamp := 1600000000
  events := [{
    address := "0x00000000000000000000000000000000000000CC"
    topic1 := some ETH_TRANSFER_TOPIC
    topic2 := some "0x000000000000000000000000000000000000000000000000000000000000000a"
    topic3 := some "0x000000000000000000000000000000000000000000000000000000000000000b"
    data := some "0x64"
    chainId := none }]
  chainId := 1

theorem tokenForCoins_conserves : ∃ rows,
    parseTransactions coinAndToken tokenForCoins = .ok (some rows) ∧
      rows.map (fun row => (row.address, row.tokenOperation)) =
        [("0x000000000000000000000000000000000000000a", .EXCHANGE),
          ("0x000000000000000000000000000000000000000b", .EXCHANGE)] ∧
      Conserves coinAndToken tokenForCoins rows := by
  have hrows : ∃ rows, parseTransactions coinAndToken tokenForCoins = .ok (some rows) ∧
      rows.map (fun row => (row.address, row.tokenOperation)) =
        [("0x000000000000000000000000000000000000000a", .EXCHANGE),
          ("0x000000000000000000000000000000000000000b", .EXCHANGE)] := ⟨_, rfl, rfl⟩
  obtain ⟨rows, hrows, hrow⟩ := hrows
  exact ⟨rows, hrows, hrow, parseTransactions_conserves hrows⟩

end

end TransactionsParsing
end Migration
end DefiBackend
