import DefiBackend.Common.Address
import DefiBackend.Common.BigNumber
import DefiBackend.Common.JsMap
import DefiBackend.Theory.Fallible
import DefiBackend.Theory.KeyValue
import DefiBackend.Theory.Run

/-! # Transfers of tokens from a scan

`ScanService.toTransfersResponse` of `apps/gateway`: the transfers of each address, grouped by the
hashes of their transactions, with their prices. The one instance counts the retries of all its
calls in one field, which has no value at first.

* `Grouped`: a response has one transaction for each hash, with its transfers and their own values.
  There is one exactly when the decimals make no difference (`grouped_iff`).
* `Lawful`: no call is retried too often, and one that fails with the status 403 in the end has been
  retried as often as it may be.
* `toTransfersResponse_correct`: runs of any number of calls are lawful exactly when at each such
  failure the field says the same as the number of retries of the call itself. -/

namespace DefiBackend
namespace Gateway
namespace ScanService
open JsNumber Theory

/-- A transfer as the scan gives it. -/
structure TokenTransfer where
  hash : String
  «from» : Address
  «to» : Address
  contractAddress : Address
  timeStamp : ℕ
  value : ℚ
  tokenName : String
  tokenSymbol : String
  tokenDecimal : ℕ
  tokenTotalSupply : String
  blockNumber : String
  gas : ℚ
  gasPrice : ℚ

structure TokenErc20 where
  address : Address
  name : String
  symbol : String
  decimals : ℕ
  totalSupply : String

structure Erc20Transfer where
  fromAddress : Address
  toAddress : Address
  amount : ℚ
  token : TokenErc20
  tokenPriceUSD : JsNumber
  totalPriceUSD : JsNumber

structure ScanTransaction where
  chainId : ℕ
  hash : String
  blockNumber : String
  blockTimeStamp : ℕ
  gas : ℚ
  gasPrice : ℚ
  gasUsed : ℚ
  erc20Transfers : List Erc20Transfer

/-- Prices by contract and time. -/
abbrev Prices := JsMap Address (JsMap ℕ JsNumber)

abbrev TransfersResponse := JsMap Address (List ScanTransaction)

/-! ## Grouping -/

/-- `getUniqueAndToLowerCaseArrayData` of the gateway, which leaves letters as they are. -/
def getUniqueAndToLowerCaseArrayData (array : List String) : List String := unique array

def totalPrice (amount : ℚ) (price : JsNumber) (decimals : ℕ) : JsNumber :=
  (finite amount * price).dividedBy (tenPow decimals)

/-- A transfer with a price and its value at some decimals. -/
def transferDto (transfer : TokenTransfer) (tokenPriceUsd : JsNumber) (decimals : ℕ) :
    Erc20Transfer where
  fromAddress := transfer.from
  toAddress := transfer.to
  amount := transfer.value
  token := ⟨transfer.contractAddress, transfer.tokenName, transfer.tokenSymbol,
    transfer.tokenDecimal, transfer.tokenTotalSupply⟩
  tokenPriceUSD := tokenPriceUsd
  totalPriceUSD := totalPrice transfer.value tokenPriceUsd decimals

def formatTransferDto (contractTimestampPrices : Prices) (transfer : TokenTransfer) :
    Except String Erc20Transfer :=
  match contractTimestampPrices.get transfer.contractAddress with
  | none => .error "TypeError"
  | some prices => .ok (transferDto transfer ((prices.get transfer.timeStamp).getD nan) 18)

def formatTransfersDto (hashTransfers : List TokenTransfer) (contractTimestampPrices : Prices) :
    Except String (List Erc20Transfer) :=
  hashTransfers.mapM (formatTransferDto contractTimestampPrices)

def userTransfers (transfers : List TokenTransfer) (address : Address) : List TokenTransfer :=
  transfers.filter fun transaction => transaction.to = address ∨ transaction.from = address

/-- `DEFAULT_MULTIPLIER`. -/
def defaultMultiplier : ℚ := 1 / 10 ^ 18

section
variable (chainId : ℕ)

/-- The transaction of a hash. -/
def transactionWithTransfers (transfers : List TokenTransfer) (contractTimestampPrices : Prices)
    (hash : String) : Except String ScanTransaction := do
  let hashTransfers := transfers.filter (·.hash = hash)
  let erc20Transfers ← formatTransfersDto hashTransfers contractTimestampPrices
  match hashTransfers with
  | [] => .error "TypeError"
  | first :: _ => .ok {
      chainId := chainId
      hash := first.hash
      blockNumber := first.blockNumber
      blockTimeStamp := first.timeStamp
      gas := first.gas
      gasPrice := first.gasPrice
      gasUsed := first.gas * first.gasPrice * defaultMultiplier
      erc20Transfers := erc20Transfers }

/-- The transactions of an address. -/
def transactionsOf (transfers : List TokenTransfer) (contractTimestampPrices : Prices)
    (address : Address) : Except String (List ScanTransaction) :=
  let transfers := userTransfers transfers address
  (getUniqueAndToLowerCaseArrayData (transfers.map (·.hash))).mapM
    (transactionWithTransfers chainId transfers contractTimestampPrices)

/-- What is made of the transfers once there are prices. -/
def groupTransfers (transfers : List TokenTransfer) (addresses : List Address)
    (contractTimestampPrices : Prices) : Except String TransfersResponse :=
  addresses.foldlM (fun response address => do
    let transactions ← transactionsOf chainId transfers contractTimestampPrices address
    pure (response.set address transactions)) []

end

/-- The price of a transfer. -/
def priceOf (prices : Prices) (transfer : TokenTransfer) : JsNumber :=
  ((prices.get transfer.contractAddress).bind (·.get transfer.timeStamp)).getD nan

/-- There is a price for the contract and time of each transfer. -/
def PricesAvailable (prices : Prices) (transfers : List TokenTransfer) : Prop :=
  ∀ transfer ∈ transfers, ∃ contract, prices.get transfer.contractAddress = some contract ∧
    ∃ q, contract.get transfer.timeStamp = some (finite q)

/-- A transfer with its value at the decimals of its own token. -/
def ownDto (prices : Prices) (transfer : TokenTransfer) : Erc20Transfer :=
  transferDto transfer (priceOf prices transfer) transfer.tokenDecimal

/-- Some transactions have the hashes of some transfers, each once, with their transfers. -/
structure IsGrouped (prices : Prices) (transfers : List TokenTransfer)
    (transactions : List ScanTransaction) : Prop where
  nodup : (transactions.map (·.hash)).Nodup
  mem_iff : ∀ hash, hash ∈ transactions.map (·.hash) ↔ hash ∈ transfers.map (·.hash)
  transfers : ∀ transaction ∈ transactions, transaction.erc20Transfers.Perm
    ((transfers.filter (·.hash = transaction.hash)).map (ownDto prices))

/-- There is a response, and each address has its transactions in it. -/
def Grouped (chainId : ℕ) (transfers : List TokenTransfer) (addresses : List Address)
    (prices : Prices) : Prop :=
  ∃ response, groupTransfers chainId transfers addresses prices = .ok response ∧
    ∀ address ∈ addresses, ∃ transactions, response.get address = some transactions ∧
      IsGrouped prices (userTransfers transfers address) transactions

/-- The value of a transfer is the same at 18 decimals as at those of its token. -/
def SameAtOwnDecimals (prices : Prices) (transfer : TokenTransfer) : Prop :=
  totalPrice transfer.value (priceOf prices transfer) 18 =
    totalPrice transfer.value (priceOf prices transfer) transfer.tokenDecimal

section
variable {chainId : ℕ} {prices : Prices} {transfers : List TokenTransfer}

theorem formatTransfersDto_eq (h : PricesAvailable prices transfers) :
    formatTransfersDto transfers prices =
      .ok (transfers.map fun transfer => transferDto transfer (priceOf prices transfer) 18) := by
  apply mapM_eq_ok
  intro transfer htransfer
  obtain ⟨contract, hcontract, -⟩ := h transfer htransfer
  rw [formatTransferDto, priceOf, hcontract]
  rfl

/-- The transaction of the hash of a transfer. -/
theorem transactionWithTransfers_eq (h : PricesAvailable prices transfers) {hash : String}
    (hhash : hash ∈ transfers.map (·.hash)) :
    ∃ transaction, transactionWithTransfers chainId transfers prices hash = .ok transaction ∧
      transaction.hash = hash ∧ transaction.erc20Transfers =
        (transfers.filter (·.hash = hash)).map fun transfer =>
          transferDto transfer (priceOf prices transfer) 18 := by
  have hsome : PricesAvailable prices (transfers.filter (·.hash = hash)) :=
    fun transfer htransfer => h transfer (List.mem_of_mem_filter htransfer)
  rw [transactionWithTransfers, formatTransfersDto_eq hsome]
  cases hfilter : transfers.filter (·.hash = hash) with
  | nil =>
    obtain ⟨transfer, htransfer, heq⟩ := List.mem_map.mp hhash
    exact absurd (decide_eq_true heq) (List.filter_eq_nil_iff.mp hfilter transfer htransfer)
  | cons first rest =>
    have hfirst : first ∈ transfers.filter (·.hash = hash) := hfilter ▸ List.mem_cons_self
    exact ⟨_, rfl, of_decide_eq_true (List.mem_filter.mp hfirst).2, rfl⟩

/-- The transactions of an address: one for each hash, with the values at 18 decimals. -/
theorem transactionsOf_eq (h : PricesAvailable prices transfers) (address : Address) :
    ∃ transactions, transactionsOf chainId transfers prices address = .ok transactions ∧
      transactions.map (·.hash) = unique ((userTransfers transfers address).map (·.hash)) ∧
      ∀ transaction ∈ transactions, transaction.erc20Transfers =
        ((userTransfers transfers address).filter (·.hash = transaction.hash)).map fun transfer =>
          transferDto transfer (priceOf prices transfer) 18 := by
  have huser : PricesAvailable prices (userTransfers transfers address) :=
    fun transfer htransfer => h transfer (List.mem_of_mem_filter htransfer)
  have heach : ∀ hash ∈ unique ((userTransfers transfers address).map (·.hash)),
      ∃ transaction, transactionWithTransfers chainId (userTransfers transfers address) prices
          hash = .ok transaction ∧ transaction.hash = hash ∧ transaction.erc20Transfers =
        ((userTransfers transfers address).filter (·.hash = hash)).map fun transfer =>
          transferDto transfer (priceOf prices transfer) 18 :=
    fun hash hhash => transactionWithTransfers_eq huser (mem_unique.mp hhash)
  obtain ⟨transactions, htransactions⟩ :=
    succeeds_mapM.mpr fun hash hhash => (heach hash hhash).imp fun _ h => h.1
  refine ⟨transactions, htransactions, ?_, ?_⟩
  · rw [← List.map_id (unique _)]
    apply map_of_mapM htransactions
    intro hash hhash transaction htransaction
    obtain ⟨_, hok, heq, -⟩ := heach hash hhash
    cases htransaction.symm.trans hok
    exact heq
  · intro transaction htransaction
    obtain ⟨hash, hhash, hok⟩ := (mem_of_mapM_ok htransactions).mp htransaction
    obtain ⟨_, hok', rfl, htransfers⟩ := heach hash hhash
    cases hok.symm.trans hok'
    exact htransfers

/-- Such transactions are right exactly when the decimals make no difference. -/
theorem isGrouped_iff {transactions : List ScanTransaction}
    (hhashes : transactions.map (·.hash) = unique (transfers.map (·.hash)))
    (htransfers : ∀ transaction ∈ transactions, transaction.erc20Transfers =
      (transfers.filter (·.hash = transaction.hash)).map fun transfer =>
        transferDto transfer (priceOf prices transfer) 18) :
    IsGrouped prices transfers transactions ↔
      ∀ transfer ∈ transfers, SameAtOwnDecimals prices transfer := by
  constructor
  · intro H transfer htransfer
    have hhash : transfer.hash ∈ transactions.map (·.hash) := by
      rw [hhashes, mem_unique]
      exact List.mem_map_of_mem htransfer
    obtain ⟨transaction, htransaction, heq⟩ := List.mem_map.mp hhash
    have hperm := H.transfers transaction htransaction
    rw [htransfers transaction htransaction] at hperm
    have hmem : transferDto transfer (priceOf prices transfer) 18 ∈
        (transfers.filter (·.hash = transaction.hash)).map (ownDto prices) := by
      apply hperm.subset
      exact List.mem_map_of_mem (List.mem_filter.mpr ⟨htransfer, decide_eq_true heq.symm⟩)
    -- the response tells the amount, the decimals and the price of a transfer
    obtain ⟨other, -, hother⟩ := List.mem_map.mp hmem
    have hvalue : other.value = transfer.value := congrArg Erc20Transfer.amount hother
    have hdecimals : other.tokenDecimal = transfer.tokenDecimal :=
      congrArg (fun dto : Erc20Transfer => dto.token.decimals) hother
    have hprice : priceOf prices other = priceOf prices transfer :=
      congrArg Erc20Transfer.tokenPriceUSD hother
    have htotal : totalPrice other.value (priceOf prices other) other.tokenDecimal =
        totalPrice transfer.value (priceOf prices transfer) 18 :=
      congrArg Erc20Transfer.totalPriceUSD hother
    rw [hvalue, hprice, hdecimals] at htotal
    exact htotal.symm
  · intro H
    refine ⟨?_, ?_, ?_⟩
    · rw [hhashes]
      exact nodup_unique _
    · intro hash
      rw [hhashes, mem_unique]
    · intro transaction htransaction
      rw [htransfers transaction htransaction]
      apply List.Perm.of_eq
      apply List.map_congr_left
      intro transfer htransfer
      rw [ownDto, transferDto, transferDto, H transfer (List.mem_of_mem_filter htransfer)]

/-- The transfers of all addresses are grouped exactly when the decimals of none of them make a
difference to its value. -/
theorem grouped_iff (addresses : List Address) (h : PricesAvailable prices transfers) :
    Grouped chainId transfers addresses prices ↔ ∀ address ∈ addresses,
      ∀ transfer ∈ userTransfers transfers address, SameAtOwnDecimals prices transfer := by
  choose transactions hok hhashes htransfers using @transactionsOf_eq chainId _ _ h
  have hfold : ∀ response : TransfersResponse, addresses.foldlM (fun response address => do
      let transactions ← transactionsOf chainId transfers prices address
      pure (response.set address transactions)) response =
        .ok (addresses.foldl (fun response address =>
          response.set address (transactions address)) response) := by
    induction addresses with
    | nil => exact fun _ => rfl
    | cons address addresses ih =>
      intro response
      rw [List.foldlM_cons, List.foldl_cons, ← ih, hok]
      rfl
  have hget : ∀ address ∈ addresses, JsMap.get (addresses.foldl (fun response address =>
      response.set address (transactions address)) ([] : TransfersResponse)) address =
        some (transactions address) := by
    intro address haddress
    have hentries := JsMap.get_ofEntries_graph transactions haddress
    rw [JsMap.ofEntries, List.foldl_map] at hentries
    exact hentries
  have heach := fun address => isGrouped_iff (hhashes address) (htransfers address)
  rw [Grouped, groupTransfers, hfold]
  constructor
  · rintro ⟨response, hresponse, hgrouped⟩ address haddress
    cases hresponse
    obtain ⟨_, hsome, hgrouped⟩ := hgrouped address haddress
    rw [hget address haddress] at hsome
    cases hsome
    exact (heach address).mp hgrouped
  · intro H
    exact ⟨_, rfl, fun address haddress =>
      ⟨_, hget address haddress, (heach address).mpr (H address haddress)⟩⟩

end

/-! ## Retries -/

/-- `MAX_RETRY`. -/
def maxRetry : ℕ := 2

/-- What a request for prices is settled with: prices, or a failure with the status of its response,
if it has one. -/
inductive Answer
  | prices (contractTimestampPrices : Prices)
  | failure (status : Option ℕ)

/-- Where a call stands: it waits for prices, it has returned a response, or it has thrown, with the
status of the failure. -/
inductive Stage
  | waiting
  | returned (response : TransfersResponse)
  | thrown (status : Option ℕ)

/-- A call of `toTransfersResponse` with the number of its retries. -/
structure Call where
  transfers : List TokenTransfer
  addresses : List Address
  retried : ℕ
  stage : Stage

/-- The field `retries`, which has no value at first, and the calls. -/
structure State where
  retries : Option ℕ
  calls : Store ℕ Call

inductive Action
  | call (id : ℕ) (transfers : List TokenTransfer) (addresses : List Address)
  | settle (id : ℕ) (answer : Answer)

/-- `this.retries < MAX_RETRY`. -/
def State.mayRetry (s : State) : Bool := s.retries.any (· < maxRetry)

/-- The steps of the calls on one instance. -/
def step (chainId : ℕ) (s : State) : Action → Option State
  | .call id transfers addresses =>
    match s.calls id with
    | some _ => none
    | none => some { s with calls := s.calls.set id ⟨transfers, addresses, 0, .waiting⟩ }
  | .settle id answer =>
    match s.calls id with
    | some ⟨transfers, addresses, retried, .waiting⟩ =>
      match answer with
      | .prices contractTimestampPrices =>
        match groupTransfers chainId transfers addresses contractTimestampPrices with
        | .ok response =>
          some ⟨some 0, s.calls.set id ⟨transfers, addresses, retried, .returned response⟩⟩
        -- the handler reads the status of an error that has no response, and throws itself
        | .error _ =>
          some { s with calls := s.calls.set id ⟨transfers, addresses, retried, .thrown none⟩ }
      | .failure none =>
        some { s with calls := s.calls.set id ⟨transfers, addresses, retried, .thrown none⟩ }
      | .failure (some status) =>
        if status = 403 ∧ s.mayRetry then
          some ⟨s.retries.map (· + 1),
            s.calls.set id ⟨transfers, addresses, retried + 1, .waiting⟩⟩
        else
          some ⟨some 0, s.calls.set id ⟨transfers, addresses, retried, .thrown (some status)⟩⟩
    | _ => none

/-- A new instance. -/
def fresh : State := ⟨none, Store.empty⟩

/-- A call is retried at most as often as it may be, and as often if it has thrown with the status
403, so with that status at each failure. -/
def Call.Lawful (call : Call) : Prop :=
  call.retried ≤ maxRetry ∧ (call.stage = .thrown (some 403) → call.retried = maxRetry)

def Lawful (s : State) : Prop := ∀ id call, s.calls id = some call → call.Lawful

/-- When a call fails with the status 403, the field says whether the call itself may be retried. -/
def OwnRetries (s : State) : Action → Prop
  | .settle id (.failure (some 403)) => ∀ transfers addresses retried,
    s.calls id = some ⟨transfers, addresses, retried, .waiting⟩ →
      (s.mayRetry ↔ retried < maxRetry)
  | _ => True

section
variable {chainId : ℕ} {s s' : State} {a : Action}

theorem Lawful.set (H : Lawful s) {id : ℕ} {call : Call} (hcall : call.Lawful)
    (hcalls : s'.calls = s.calls.set id call) : Lawful s' := by
  intro id' call' h
  rw [hcalls] at h
  rcases Store.of_set h with ⟨rfl, rfl⟩ | ⟨-, h⟩
  · exact hcall
  · exact H id' call' h

/-- What a step whose failure meets the condition preserves. -/
theorem Lawful.step (H : Lawful s) (hC : OwnRetries s a) (h : step chainId s a = some s') :
    Lawful s' := by
  cases a with
  | call id transfers addresses =>
    simp only [ScanService.step] at h
    split at h
    · cases h
    · cases h
      have hlaw : Call.Lawful ⟨transfers, addresses, 0, .waiting⟩ :=
        ⟨Nat.zero_le _, fun h => by cases h⟩
      exact H.set hlaw rfl
  | settle id answer =>
    simp only [ScanService.step] at h
    split at h
    next transfers addresses retried hcall =>
      have hretried : retried ≤ maxRetry := (H id _ hcall).1
      cases answer with
      | prices contractTimestampPrices =>
        dsimp only at h
        split at h
        · cases h
          exact H.set ⟨hretried, fun h => by cases h⟩ rfl
        · cases h
          exact H.set ⟨hretried, fun h => by cases h⟩ rfl
      | failure status =>
        cases status with
        | none =>
          cases h
          exact H.set ⟨hretried, fun h => by cases h⟩ rfl
        | some status =>
          dsimp only at h
          split at h
          next hretry =>
            cases h
            obtain ⟨rfl, hretry⟩ := hretry
            have hlt := (hC transfers addresses retried hcall).mp hretry
            have hlaw : Call.Lawful ⟨transfers, addresses, retried + 1, .waiting⟩ :=
              ⟨hlt, fun h => by cases h⟩
            exact H.set hlaw rfl
          next hstop =>
            cases h
            refine H.set ⟨hretried, fun h => ?_⟩ rfl
            cases h
            have hnot : ¬ retried < maxRetry := by
              intro hlt
              exact hstop ⟨rfl, (hC transfers addresses retried hcall).mpr hlt⟩
            exact le_antisymm hretried (not_lt.mp hnot)
    · cases h

/-- A failure that does not meet the condition breaks the law. -/
theorem ownRetries_of_lawful (H : Lawful s) (h : step chainId s a = some s') (H' : Lawful s') :
    OwnRetries s a := by
  unfold OwnRetries
  split
  · next id =>
    intro transfers addresses retried hcall
    have hretried : retried ≤ maxRetry := (H id _ hcall).1
    simp only [ScanService.step, hcall] at h
    split at h
    · next hretry =>
      cases h
      have hlaw := H' id _ Store.set_self
      exact iff_of_true hretry.2 hlaw.1
    · next hstop =>
      cases h
      have hlaw := H' id _ Store.set_self
      have hmax : retried = maxRetry := hlaw.2 rfl
      exact iff_of_false (fun hmay => hstop ⟨trivial, hmay⟩) (hmax ▸ lt_irrefl _)
  · trivial

end

/-- The transfers are grouped exactly when the decimals of none make a difference to its value; and
the states that a run reaches are all lawful exactly when at each failure with the status 403 the
field says whether the call itself may be retried. -/
theorem toTransfersResponse_correct (chainId : ℕ) :
    (∀ transfers addresses prices, PricesAvailable prices transfers →
      (Grouped chainId transfers addresses prices ↔ ∀ address ∈ addresses,
        ∀ transfer ∈ userTransfers transfers address, SameAtOwnDecimals prices transfer)) ∧
    ∀ actions t, run (step chainId) fresh actions = some t →
      (RunsUnder (step chainId) OwnRetries fresh actions t ↔
        ∀ pre u, pre <+: actions → run (step chainId) fresh pre = some u → Lawful u) := by
  constructor
  · exact fun transfers addresses prices h => grouped_iff addresses h
  · intro actions t hrun
    have hfresh : Lawful fresh := fun id call h => by cases h
    exact runsUnder_iff (I := Lawful) (V := Lawful) id (fun H hC h => H.step hC h)
      (fun H h H' => ownRetries_of_lawful H h H') hfresh hrun

/-- A transfer of a token of 18 decimals. -/
def eighteenDecimals : TokenTransfer :=
  ⟨"0x1", "0xa", "0xb", "0xc", 0, 10 ^ 18, "Token", "T", 18, "0", "1", 0, 0⟩

theorem pricesAvailable_one {transfer : TokenTransfer} (hcontract : transfer.contractAddress = "0xc")
    (htime : transfer.timeStamp = 0) : PricesAvailable [("0xc", [(0, 1)])] [transfer] := by
  intro transfer' h
  rw [List.mem_singleton.mp h, hcontract, htime]
  exact ⟨_, rfl, 1, rfl⟩

/-- A call that is answered, and then one that fails as often as it may be tried. -/
def retriedCalls : List Action :=
  [.call 0 [] [], .settle 0 (.prices []), .call 1 [] [], .settle 1 (.failure (some 403)),
    .settle 1 (.failure (some 403)), .settle 1 (.failure (some 403))]

/-- The transfer is grouped, and the run is lawful. -/
theorem eighteenDecimals_grouped :
    Grouped 1 [eighteenDecimals] ["0xa"] [("0xc", [(0, 1)])] ∧
      ∀ pre u, pre <+: retriedCalls → run (step 1) fresh pre = some u → Lawful u := by
  constructor
  · apply ((toTransfersResponse_correct 1).1 _ _ _ (pricesAvailable_one rfl rfl)).mpr
    intro address _ transfer htransfer
    have htransfer := List.mem_singleton.mp (List.mem_of_mem_filter htransfer)
    rw [htransfer, SameAtOwnDecimals]
    rfl
  · refine ((toTransfersResponse_correct 1).2 retriedCalls _ rfl).mp (.cons trivial rfl (.cons
      trivial rfl (.cons trivial rfl (.cons ?_ rfl (.cons ?_ rfl (.cons ?_ rfl .nil))))))
    all_goals
      rintro _ _ _ ⟨⟩
      decide

/-! ## A token of six decimals, and a first failure -/

/-- A transfer of a token of six decimals. -/
def sixDecimals : TokenTransfer :=
  ⟨"0x1", "0xa", "0xb", "0xc", 0, 1000000, "USD Coin", "USDC", 6, "0", "1", 0, 0⟩

/-- The transfer is valued at a millionth of a millionth, and the first call is not retried. -/
theorem first_fails : ¬ Grouped 1 [sixDecimals] ["0xa"] [("0xc", [(0, 1)])] ∧
    ∃ t, run (step 1) fresh [.call 0 [] [], .settle 0 (.failure (some 403))] = some t ∧
      ¬ Lawful t := by
  constructor
  · rw [grouped_iff _ (pricesAvailable_one rfl rfl)]
    intro H
    have hmem : sixDecimals ∈ userTransfers [sixDecimals] "0xa" :=
      List.mem_filter.mpr ⟨List.mem_cons_self, by decide⟩
    have hsame := H "0xa" List.mem_cons_self sixDecimals hmem
    rw [SameAtOwnDecimals] at hsame
    exact absurd hsame (by decide +kernel)
  · refine ⟨_, rfl, fun H => ?_⟩
    have hretried := (H 0 ⟨[], [], 0, .thrown (some 403)⟩ rfl).2 rfl
    exact absurd hretried (by decide)

end ScanService
end Gateway
end DefiBackend
