import DefiBackend.Account.Transactions

/-! # Transactions from Covalent

`TransactionsService.getTransactionsFromCovalent` of `apps/account`: one request for each address
and chain, whose transactions are labelled with the chain at the place of the request among all of
them.

* `KeepsChains`: the transactions of each fulfilled request are returned once, with its chain.
* `keepsChains_iff`: they are exactly when no request for an address after the first is fulfilled
  with transactions, on a chain that is known. -/

namespace DefiBackend
namespace Account
namespace CovalentTransactions

/-- The id of a chain with its network. -/
inductive AbsoluteChainId
  | number (n : ℕ)
  | text (s : String)
  deriving DecidableEq

/-- `AbsoluteChainIds`, from the first internal id on. -/
def absoluteChainIds : List AbsoluteChainId :=
  [.number 1, .number 56, .number 137, .number 250, .number 42161, .number 43114, .number 100,
    .number 42220, .number 1285, .number 1666600000, .number 128, .number 101, .number 66,
    .number 25, .number 288, .number 321, .number 10, .number 1313161554, .text "columbus-5",
    .number 8217, .number 122, .number 1003, .number 1088, .number 1002, .number 2004,
    .number 2005, .number 2006, .number 2007, .number 1099, .number 2001]

/-- `getAbsoluteChainId`: `undefined` for an id that is not known. -/
def getAbsoluteChainId : ℕ → Option AbsoluteChainId
  | 0 => none
  | chainId + 1 => absoluteChainIds[chainId]?

def getAbsoluteChainIds (chainIds : List ℕ) : List (Option AbsoluteChainId) :=
  chainIds.map getAbsoluteChainId

/-- A transaction of an answer, with the values of its properties. -/
structure CovalentItem (ν : Type) where
  property : String → ν
  successful : Bool

/-- An answer. -/
structure CovalentTransaction (ν : Type) where
  quote_currency : ν
  items : List (CovalentItem ν)

structure TransactionsDto (ν : Type) where
  chainId : Option AbsoluteChainId
  blockNumber : ν
  blockHash : ν
  hash : ν
  timeStamp : ν
  «from» : ν
  «to» : ν
  value : ν
  valueInCurrency : ν
  currency : ν
  gasPrice : ν
  gasUsed : ν
  isError : String

inductive ResultStatus
  | ok
  | error
  deriving DecidableEq

structure DetailedResponse (ν : Type) where
  status : ResultStatus
  errors : List String
  data : List (TransactionsDto ν)

/-- A request for the transactions of an address on a chain. -/
abbrev Request := Address × Option AbsoluteChainId

/-- What a request is settled with. -/
abbrev Settled (ν : Type) := Except String (CovalentTransaction ν)

section
variable {ν : Type}

def transformCovalentToInternal (data : CovalentTransaction ν) (chainId : Option AbsoluteChainId) :
    List (TransactionsDto ν) :=
  data.items.map fun tsx => {
    chainId := chainId
    blockNumber := tsx.property "block_height"
    blockHash := tsx.property "tx_hash"
    hash := tsx.property "tx_hash"
    timeStamp := tsx.property "block_signed_at"
    «from» := tsx.property "from_adress"
    «to» := tsx.property "to_adress"
    value := tsx.property "value"
    valueInCurrency := tsx.property "value_quote"
    currency := data.quote_currency
    gasPrice := tsx.property "gas_price"
    gasUsed := tsx.property "gas_spent"
    isError := if tsx.successful then "0" else "1" }

/-- A result at its place among all of them. -/
def addResult (chainsToHandle : List (Option AbsoluteChainId)) (response : DetailedResponse ν) :
    Settled ν × ℕ → DetailedResponse ν
  | (.ok value, index) =>
    { response with
      data := response.data ++ transformCovalentToInternal value chainsToHandle[index]?.join }
  | (.error reason, _) => { response with errors := response.errors ++ [reason] }

/-- The requests, in the order in which they are sent. -/
def requests (addressesToHandle : List Address) (chainsToHandle : List (Option AbsoluteChainId)) :
    List Request :=
  addressesToHandle.flatMap fun address => chainsToHandle.map fun chain => (address, chain)

/-- `settle` is what the request at a place is settled with. -/
def getTransactionsFromCovalent (settle : Request → ℕ → Settled ν) (addresses : List Address)
    (chains : List ℕ) : DetailedResponse ν :=
  let chainsToHandle := getAbsoluteChainIds (unique chains)
  let addressesToHandle := getUniqueAndToLowerCaseArrayData addresses
  let results := (requests addressesToHandle chainsToHandle).zipIdx.map fun (request, index) =>
    settle request index
  let response := results.zipIdx.foldl (addResult chainsToHandle) ⟨.ok, [], []⟩
  if response.errors.length ≠ 0 then { response with status := .error } else response

/-- The transactions of a request with a chain. -/
def transactionsWith (settle : Request → ℕ → Settled ν) (request : Request) (index : ℕ)
    (chainId : Option AbsoluteChainId) : List (TransactionsDto ν) :=
  match settle request index with
  | .ok value => transformCovalentToInternal value chainId
  | .error _ => []

/-- The requests of a call. -/
def sentRequests (addresses : List Address) (chains : List ℕ) : List Request :=
  requests (getUniqueAndToLowerCaseArrayData addresses) (getAbsoluteChainIds (unique chains))

/-- The transactions that are returned are those of the fulfilled requests, each once and with the
chain of its request. -/
def KeepsChains (settle : Request → ℕ → Settled ν) (addresses : List Address) (chains : List ℕ) :
    Prop :=
  (getTransactionsFromCovalent settle addresses chains).data.Perm
    ((sentRequests addresses chains).zipIdx.flatMap fun (request, index) =>
      transactionsWith settle request index request.2)

/-! ## Places -/

/-- At a place among the first chains stands a request for that chain. -/
theorem chain_of_requests {addressesToHandle : List Address}
    {chainsToHandle : List (Option AbsoluteChainId)} {request : Request} {index : ℕ}
    (h : (requests addressesToHandle chainsToHandle)[index]? = some request)
    (hindex : index < chainsToHandle.length) : chainsToHandle[index]? = some request.2 := by
  cases addressesToHandle with
  | nil => cases h
  | cons address rest =>
    rw [requests, List.flatMap_cons, List.getElem?_append_left (by simpa using hindex),
      List.getElem?_map] at h
    obtain ⟨chain, hchain, rfl⟩ := Option.map_eq_some_iff.mp h
    exact hchain

theorem foldl_addResult_data (chainsToHandle : List (Option AbsoluteChainId))
    (results : List (Settled ν × ℕ)) (response : DetailedResponse ν) :
    (results.foldl (addResult chainsToHandle) response).data =
      response.data ++ results.flatMap fun (result, index) =>
        match result with
        | .ok value => transformCovalentToInternal value chainsToHandle[index]?.join
        | .error _ => [] := by
  induction results generalizing response with
  | nil => exact (List.append_nil _).symm
  | cons result results ih =>
    obtain ⟨settled, index⟩ := result
    rw [List.foldl_cons, ih, List.flatMap_cons, ← List.append_assoc]
    cases settled with
    | ok value => rfl
    | error reason => exact congrArg (· ++ _) (List.append_nil _).symm

theorem zipIdx_map_zipIdx {α β : Type} (f : α → ℕ → β) (list : List α) (k : ℕ) :
    ((list.zipIdx k).map fun (a, index) => f a index).zipIdx k =
      (list.zipIdx k).map fun (a, index) => (f a index, index) := by
  induction list generalizing k with
  | nil => rfl
  | cons a list ih =>
    rw [List.zipIdx_cons, List.map_cons, List.zipIdx_cons, ih, List.map_cons]

/-- The transactions that are returned have the chains at the places of their requests. -/
theorem data_eq (settle : Request → ℕ → Settled ν) (addresses : List Address) (chains : List ℕ) :
    (getTransactionsFromCovalent settle addresses chains).data =
      (sentRequests addresses chains).zipIdx.flatMap fun (request, index) =>
        transactionsWith settle request index
          (getAbsoluteChainIds (unique chains))[index]?.join := by
  have hstatus : ∀ response : DetailedResponse ν,
      (if response.errors.length ≠ 0 then { response with status := .error } else response).data =
        response.data := fun response => by split <;> rfl
  rw [getTransactionsFromCovalent, hstatus, foldl_addResult_data, List.nil_append,
    zipIdx_map_zipIdx, List.flatMap_map]
  rfl

/-! ## Labels -/

variable {settle : Request → ℕ → Settled ν} {request : Request} {index : ℕ}

/-- Of the transactions of a request, all or none have no chain. -/
theorem countP_transactionsWith (chainId : Option AbsoluteChainId) :
    (transactionsWith settle request index chainId).countP (·.chainId = none) =
      if chainId = none then (transactionsWith settle request index chainId).length else 0 := by
  have hchain : ∀ tsx ∈ transactionsWith settle request index chainId, tsx.chainId = chainId := by
    intro tsx htsx
    rw [transactionsWith] at htsx
    split at htsx
    · obtain ⟨item, -, rfl⟩ := List.mem_map.mp htsx
      rfl
    · cases htsx
  split
  · next hnone =>
    apply List.countP_eq_length.mpr
    intro tsx htsx
    exact decide_eq_true ((hchain tsx htsx).trans hnone)
  · next hsome =>
    apply List.countP_eq_zero.mpr
    intro tsx htsx hnone
    exact hsome ((hchain tsx htsx).symm.trans (of_decide_eq_true hnone))

theorem length_transactionsWith (chainId chainId' : Option AbsoluteChainId) :
    (transactionsWith settle request index chainId).length =
      (transactionsWith settle request index chainId').length := by
  rw [transactionsWith, transactionsWith]
  cases settle request index with
  | ok value => exact (List.length_map _).trans (List.length_map _).symm
  | error reason => rfl

/-- No request for an address after the first, on a known chain, is fulfilled with transactions. -/
def OnlyFirstAddress (settle : Request → ℕ → Settled ν) (addresses : List Address)
    (chains : List ℕ) : Prop :=
  ∀ request index, (sentRequests addresses chains)[index]? = some request →
    (unique chains).length ≤ index → request.2 ≠ none →
    ∀ value, settle request index = .ok value → value.items = []

/-- At a place the chain of the request stands, or it is one after the first address. -/
theorem label_of_request {addresses : List Address} {chains : List ℕ}
    (h : (sentRequests addresses chains)[index]? = some request) :
    (getAbsoluteChainIds (unique chains))[index]?.join = request.2 ∨
      (unique chains).length ≤ index ∧
        (getAbsoluteChainIds (unique chains))[index]?.join = none := by
  have hlength : (getAbsoluteChainIds (unique chains)).length = (unique chains).length :=
    List.length_map _
  rcases lt_or_ge index (unique chains).length with hindex | hindex
  · left
    rw [chain_of_requests h (hlength ▸ hindex)]
    rfl
  · right
    refine ⟨hindex, ?_⟩
    rw [List.getElem?_eq_none (hlength ▸ hindex)]
    rfl

/-- The transactions keep their chains exactly when all are those of the first address, or on chains
that are not known. -/
theorem keepsChains_iff (settle : Request → ℕ → Settled ν) (addresses : List Address)
    (chains : List ℕ) :
    KeepsChains settle addresses chains ↔ OnlyFirstAddress settle addresses chains := by
  rw [KeepsChains, data_eq]
  constructor
  · intro hperm request index hrequest hindex hchain value hvalue
    have hcount := hperm.countP_eq (fun tsx => decide (tsx.chainId = none))
    have hmem : (request, index) ∈ (sentRequests addresses chains).zipIdx :=
      List.mk_mem_zipIdx_iff_getElem?.mpr hrequest
    have heach := countP_eq_of_flatMap ?_ hcount (request, index) hmem
    · have hlabel : (getAbsoluteChainIds (unique chains))[index]?.join = none := by
        rcases label_of_request hrequest with hlabel | ⟨-, hlabel⟩
        · rw [List.getElem?_eq_none (by simpa [getAbsoluteChainIds] using hindex)]
          rfl
        · exact hlabel
      dsimp only at heach
      rw [countP_transactionsWith, countP_transactionsWith, if_pos hlabel, if_neg hchain,
        transactionsWith, hvalue] at heach
      exact List.map_eq_nil_iff.mp (List.eq_nil_of_length_eq_zero heach)
    · rintro ⟨request, index⟩ hmem
      have hrequest := List.mk_mem_zipIdx_iff_getElem?.mp hmem
      dsimp only
      rw [countP_transactionsWith, countP_transactionsWith]
      rcases label_of_request hrequest with hlabel | ⟨-, hlabel⟩
      · rw [hlabel]
      · rw [if_pos hlabel]
        split
        · exact (length_transactionsWith _ _).le
        · exact Nat.zero_le _
  · intro H
    apply List.Perm.of_eq
    apply List.flatMap_congr
    rintro ⟨request, index⟩ hmem
    have hrequest := List.mk_mem_zipIdx_iff_getElem?.mp hmem
    rcases label_of_request hrequest with hlabel | ⟨hindex, hlabel⟩
    · exact congrArg (transactionsWith settle request index) hlabel
    · by_cases hchain : request.2 = none
      · exact congrArg (transactionsWith settle request index) (hlabel.trans hchain.symm)
      · dsimp only
        rw [transactionsWith, transactionsWith]
        cases hvalue : settle request index with
        | error reason => rfl
        | ok value =>
          have hnil := H request index hrequest hindex hchain value hvalue
          simp only [transformCovalentToInternal, hnil, List.map_nil]

end

/-- An answer with one transaction. -/
def oneTransaction : CovalentTransaction String := ⟨"usd", [⟨fun name => name, true⟩]⟩

/-- The transaction of a second address has no chain. -/
theorem secondAddress_loses :
    ¬ KeepsChains (fun _ _ => .ok oneTransaction) ["0xa", "0xb"] [1] := by
  intro H
  have hfirst := (keepsChains_iff _ _ _).mp H ("0xb", some (.number 1)) 1 (by decide) (by decide)
    (by decide) oneTransaction rfl
  cases hfirst

end CovalentTransactions
end Account
end DefiBackend
