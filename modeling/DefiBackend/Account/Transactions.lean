import DefiBackend.Common.Address
import DefiBackend.Common.JsMap
import DefiBackend.Theory.KeyValue
import DefiBackend.Theory.Run
import Mathlib.Algebra.Ring.Rat
import Mathlib.Algebra.Field.Rat

/-! # Transactions of an account

`TransactionsService.getTransactions` of `apps/account`. The one service instance keeps the
addresses of a request in its fields, which each call writes once and reads at each of its queries
and when it groups what they have given.

* `step` is the system: any number of calls, each awaited operation being one step.
* A response is that of its call alone exactly when the fields are the call's own where they matter
  (`toTransactionsResponse_eq_iff`), so all responses are in runs in which they always are
  (`ownResponse_of_undisturbed`).

Numbers are exact. -/

namespace DefiBackend
namespace Account
open Theory

/-- A row of `transactionseth` or `bsc_transactions`, as it is selected. -/
structure TransactionRow where
  hash : String
  blocknumber : String
  fromaddress : Address
  toaddress : Address
  blocktimestamp : String
  gasprice : ℚ
  gasused : ℚ
  amount : ℚ
  price : ℚ

structure Amount where
  eth : ℚ
  usd : ℚ

structure GasSimple where
  price : ℚ
  eth : ℚ
  usd : ℚ

structure Transaction where
  chainId : Nat
  hash : String
  blockNumber : String
  «from» : Address
  «to» : Address
  blockTimestamp : String
  amount : Amount
  gas : GasSimple

abbrev TransactionsResponse := JsMap Address (List Transaction)

structure TransactionDb where
  transactionseth : List TransactionRow
  bscTransactions : List TransactionRow

/-! ## The functions of the service -/

/-- `getUniqueAndToLowerCaseArrayData`. -/
def getUniqueAndToLowerCaseArrayData (input : List Address) : List Address :=
  unique (input.map lowerCase)

/-- The condition of the queries: a transaction is from or to one of the addresses. -/
def TransactionRow.Touches (row : TransactionRow) (addresses : List Address) : Prop :=
  row.fromaddress ∈ addresses ∨ row.toaddress ∈ addresses

instance : Decidable (TransactionRow.Touches row addresses) :=
  inferInstanceAs (Decidable (_ ∨ _))

/-- The rows that a query for the addresses selects. -/
def select (table : List TransactionRow) (addresses : List Address) : List TransactionRow :=
  table.filter fun row => row.Touches addresses

def defaultMultiplier : ℚ := 1 / 10 ^ 18

/-- `calculateFields`. -/
def calculateFields (transactions : List TransactionRow) (chainId : Nat) : List Transaction :=
  transactions.map fun transaction =>
    { chainId
      hash := transaction.hash
      blockNumber := transaction.blocknumber
      «from» := transaction.fromaddress
      «to» := transaction.toaddress
      blockTimestamp := transaction.blocktimestamp
      amount :=
        { eth := transaction.amount * defaultMultiplier
          usd := transaction.amount * defaultMultiplier * transaction.price }
      gas :=
        { price := transaction.gasprice * defaultMultiplier
          eth := transaction.gasused * defaultMultiplier * transaction.gasprice
          usd := transaction.gasused * defaultMultiplier * transaction.price *
            transaction.gasprice } }

/-- `toTransactionsResponse`. -/
def toTransactionsResponse (addressesArray : List Address) (transactions : List Transaction) :
    TransactionsResponse :=
  .ofEntries (addressesArray.map fun address =>
    (address, transactions.filter fun transaction =>
      transaction.«to» = address ∨ transaction.«from» = address))

/-- All transactions of a call, from what its queries have given. -/
def allTransactions (ethTransactions bscTransactions : List TransactionRow) : List Transaction :=
  calculateFields ethTransactions 1 ++ calculateFields bscTransactions 2

/-! ## The system -/

/-- Where a call stands: before its addresses have been checked, with a query under way for the
addresses of its text, or at its end. A request that is not correct gives no response but `[]`. -/
inductive Stage
  | checking
  | loadingEth (sql : List Address)
  | loadingBsc (ethTransactions : List TransactionRow) (sql : List Address)
  | done (response : Option TransactionsResponse)
  | rejected

structure Call where
  addresses : List Address
  stage : Stage

/-- The fields of the service, `addresses` as the list in the text of the queries, and the calls. -/
structure State where
  addresses : List Address
  addressesArray : List Address
  calls : Store Nat Call

inductive Action
  | request (id : Nat) (addresses : List Address)
  | checked (id : Nat)
  | ethLoaded (id : Nat)
  | bscLoaded (id : Nat)
  | fail (id : Nat)

section
variable (db : TransactionDb) (isAddress : Address → Bool)

/-- `isAddressesNotCorrect`. -/
def isAddressesNotCorrect (addresses : List Address) : Bool :=
  addresses.length = 0 || !addresses.all isAddress

/-- The steps of `getTransactions`. Any awaited operation may fail. -/
def step (s : State) : Action → Option State
  | .request id addresses =>
    match s.calls id with
    | some _ => none
    | none => some { s with calls := s.calls.set id ⟨addresses, .checking⟩ }
  | .checked id =>
    match s.calls id with
    | some ⟨addresses, .checking⟩ =>
      if isAddressesNotCorrect isAddress addresses then
        some { s with calls := s.calls.set id ⟨addresses, .done none⟩ }
      else
        let uniqAddresses := getUniqueAndToLowerCaseArrayData addresses
        some {
          addresses := uniqAddresses
          addressesArray := uniqAddresses
          calls := s.calls.set id ⟨addresses, .loadingEth uniqAddresses⟩ }
    | _ => none
  | .ethLoaded id =>
    match s.calls id with
    | some ⟨addresses, .loadingEth sql⟩ =>
      let ethTransactions := select db.transactionseth sql
      some { s with calls := s.calls.set id ⟨addresses, .loadingBsc ethTransactions s.addresses⟩ }
    | _ => none
  | .bscLoaded id =>
    match s.calls id with
    | some ⟨addresses, .loadingBsc ethTransactions sql⟩ =>
      let bscTransactions := select db.bscTransactions sql
      let response :=
        toTransactionsResponse s.addressesArray (allTransactions ethTransactions bscTransactions)
      some { s with calls := s.calls.set id ⟨addresses, .done (some response)⟩ }
    | _ => none
  | .fail id =>
    match s.calls id with
    | some ⟨addresses, .checking⟩ | some ⟨addresses, .loadingEth _⟩
    | some ⟨addresses, .loadingBsc _ _⟩ =>
      some { s with calls := s.calls.set id ⟨addresses, .rejected⟩ }
    | _ => none

/-- The response of a call that runs alone. -/
def aloneResponse (addresses : List Address) : Option TransactionsResponse :=
  if isAddressesNotCorrect isAddress addresses then none
  else
    let uniqAddresses := getUniqueAndToLowerCaseArrayData addresses
    some (toTransactionsResponse uniqAddresses
      (allTransactions (select db.transactionseth uniqAddresses)
        (select db.bscTransactions uniqAddresses)))

end

/-! ## Responses -/

variable {db : TransactionDb} {isAddress : Address → Bool} {s s' : State} {id : Nat}
  {addresses : List Address}

@[simp] theorem unique_own : unique (getUniqueAndToLowerCaseArrayData addresses) =
    getUniqueAndToLowerCaseArrayData addresses := unique_unique _

theorem keys_toTransactionsResponse (transactions : List Transaction) :
    (toTransactionsResponse addresses transactions).keys = unique addresses := by
  rw [toTransactionsResponse, JsMap.keys_ofEntries, List.map_map]
  exact congrArg unique (List.map_id _)

/-- Each address has its transactions. -/
theorem get_toTransactionsResponse {address : Address} (h : address ∈ addresses)
    (transactions : List Transaction) :
    (toTransactionsResponse addresses transactions).get address =
      some (transactions.filter fun transaction =>
        transaction.«to» = address ∨ transaction.«from» = address) := by
  rw [toTransactionsResponse, JsMap.ofEntries_graph]
  exact JsMap.get_graph _ (mem_unique.mpr h)

/-- A response is told by its addresses and by the transactions of each. -/
theorem toTransactionsResponse_congr {own : List Address} (h : unique addresses = unique own)
    {transactions transactions' : List Transaction}
    (hfilter : ∀ address ∈ own,
      (transactions.filter fun transaction =>
        transaction.«to» = address ∨ transaction.«from» = address) =
      transactions'.filter fun transaction =>
        transaction.«to» = address ∨ transaction.«from» = address) :
    toTransactionsResponse addresses transactions = toTransactionsResponse own transactions' := by
  rw [toTransactionsResponse, toTransactionsResponse, JsMap.ofEntries_graph, JsMap.ofEntries_graph,
    h]
  refine List.map_congr_left fun address haddress => ?_
  rw [hfilter address (mem_unique.mp haddress)]

/-- The transactions of an address among those of the rows that have been selected. -/
theorem filter_calculateFields (table : List TransactionRow) (sql : List Address) (chainId : Nat)
    (address : Address) :
    (calculateFields (select table sql) chainId).filter (fun transaction =>
        transaction.«to» = address ∨ transaction.«from» = address) =
      calculateFields (table.filter fun row => row.Touches [address] ∧ row.Touches sql)
        chainId := by
  rw [calculateFields, calculateFields, List.filter_map, select, List.filter_filter]
  congr 2
  funext row
  have htouches : row.Touches [address] ↔ row.toaddress = address ∨ row.fromaddress = address := by
    rw [TransactionRow.Touches, List.mem_singleton, List.mem_singleton, or_comm]
  simp [htouches]

theorem touches_of_mem {row : TransactionRow} {address : Address} (haddress : address ∈ addresses)
    (h : row.Touches [address]) : row.Touches addresses := by
  refine h.imp (fun h => ?_) fun h => ?_
  · exact List.mem_singleton.mp h ▸ haddress
  · exact List.mem_singleton.mp h ▸ haddress

/-- A query gives as many transactions of an address as the query of the call itself only when it
gives all of them. -/
theorem filter_calculateFields_eq_iff (table : List TransactionRow) {own sql : List Address}
    (chainId : Nat) {address : Address} (haddress : address ∈ own) :
    (calculateFields (select table sql) chainId).filter (fun transaction =>
        transaction.«to» = address ∨ transaction.«from» = address) =
      (calculateFields (select table own) chainId).filter (fun transaction =>
        transaction.«to» = address ∨ transaction.«from» = address) ↔
    ∀ row ∈ table, row.Touches [address] → row.Touches sql := by
  have hown : (table.filter fun row => row.Touches [address] ∧ row.Touches own) =
      table.filter fun row => row.Touches [address] := by
    refine List.filter_congr fun row _ => decide_eq_decide.mpr ?_
    exact and_iff_left_of_imp (touches_of_mem haddress)
  rw [filter_calculateFields, filter_calculateFields, hown]
  constructor
  · intro h row hrow htouches
    have hlength := congrArg List.length h
    rw [calculateFields, calculateFields, List.length_map, List.length_map] at hlength
    have hboth : (table.filter fun row => row.Touches [address] ∧ row.Touches sql) =
        (table.filter fun row => row.Touches [address]).filter fun row => row.Touches sql := by
      rw [List.filter_filter]
      refine List.filter_congr fun row _ => ?_
      rw [Bool.decide_and, Bool.and_comm]
    rw [hboth, List.length_filter_eq_length_iff] at hlength
    exact of_decide_eq_true
      (hlength row (List.mem_filter.mpr ⟨hrow, decide_eq_true htouches⟩))
  · intro h
    congr 1
    refine List.filter_congr fun row hrow => decide_eq_decide.mpr ?_
    exact and_iff_left_of_imp (h row hrow)

/-- The response of a call is the one it gives alone exactly when the addresses it is grouped by are
its own, and its second query gives every transaction of these. -/
theorem toTransactionsResponse_eq_iff {own sql : List Address} (h : unique addresses = addresses)
    (hown : unique own = own) :
    toTransactionsResponse addresses
        (allTransactions (select db.transactionseth own) (select db.bscTransactions sql)) =
      toTransactionsResponse own
        (allTransactions (select db.transactionseth own) (select db.bscTransactions own)) ↔
    addresses = own ∧ ∀ row ∈ db.bscTransactions, row.Touches own → row.Touches sql := by
  have hrows : (∀ row ∈ db.bscTransactions, row.Touches own → row.Touches sql) ↔
      ∀ address ∈ own, ∀ row ∈ db.bscTransactions, row.Touches [address] → row.Touches sql := by
    constructor
    · exact fun h address haddress row hrow htouches =>
        h row hrow (touches_of_mem haddress htouches)
    · intro h row hrow htouches
      rcases htouches with hfrom | hto
      · exact h _ hfrom row hrow (.inl (List.mem_singleton_self _))
      · exact h _ hto row hrow (.inr (List.mem_singleton_self _))
  rw [hrows]
  constructor
  · intro heq
    have hkeys := congrArg JsMap.keys heq
    rw [keys_toTransactionsResponse, keys_toTransactionsResponse, h, hown] at hkeys
    subst hkeys
    refine ⟨rfl, fun address haddress => ?_⟩
    have hget := congrArg (JsMap.get · address) heq
    rw [get_toTransactionsResponse haddress, get_toTransactionsResponse haddress,
      Option.some.injEq, allTransactions, allTransactions, List.filter_append, List.filter_append,
      List.append_cancel_left_eq] at hget
    exact (filter_calculateFields_eq_iff _ _ haddress).mp hget
  · rintro ⟨rfl, hall⟩
    refine toTransactionsResponse_congr rfl fun address haddress => ?_
    rw [allTransactions, allTransactions, List.filter_append, List.filter_append,
      (filter_calculateFields_eq_iff _ _ haddress).mpr (hall address haddress)]

/-- A call that runs alone, from any fields of the service, gives its response. -/
theorem run_alone (hid : s.calls id = none) (addresses : List Address) :
    ∃ actions t, run (step db isAddress) s (.request id addresses :: actions) = some t ∧
      t.calls id = some ⟨addresses, .done (aloneResponse db isAddress addresses)⟩ := by
  have hrequest : step db isAddress s (.request id addresses) =
      some { s with calls := s.calls.set id ⟨addresses, .checking⟩ } := by
    simp only [step, hid]
  by_cases hcorrect : isAddressesNotCorrect isAddress addresses
  · refine ⟨[.checked id], ?_⟩
    rw [run_cons, hrequest, aloneResponse, if_pos hcorrect]
    simp [step, hcorrect]
  · refine ⟨[.checked id, .ethLoaded id, .bscLoaded id], ?_⟩
    rw [run_cons, hrequest, aloneResponse, if_neg hcorrect]
    simp [step, hcorrect]

/-! ## Runs -/

/-- The fields are the call's own where it reads them. When its first query has answered, every
transaction that the second one is to give is from or to an address in the text of the queries; when
the second one has answered, the addresses are its own. -/
def Undisturbed (db : TransactionDb) (s : State) : Action → Prop
  | .ethLoaded id => ∀ addresses sql, s.calls id = some ⟨addresses, .loadingEth sql⟩ →
      ∀ row ∈ db.bscTransactions,
        row.Touches (getUniqueAndToLowerCaseArrayData addresses) → row.Touches s.addresses
  | .bscLoaded id => ∀ addresses ethTransactions sql,
      s.calls id = some ⟨addresses, .loadingBsc ethTransactions sql⟩ →
        s.addressesArray = getUniqueAndToLowerCaseArrayData addresses
  | _ => True

/-- A query for the call's own addresses disturbs nothing. -/
theorem undisturbed_ethLoaded {sql : List Address}
    (hcall : s.calls id = some ⟨addresses, .loadingEth sql⟩)
    (hfield : s.addresses = getUniqueAndToLowerCaseArrayData addresses) :
    Undisturbed db s (.ethLoaded id) := by
  intro addresses' sql' hcall' row _ htouches
  rw [hcall] at hcall'
  cases hcall'
  rwa [hfield]

theorem undisturbed_bscLoaded {ethTransactions : List TransactionRow} {sql : List Address}
    (hcall : s.calls id = some ⟨addresses, .loadingBsc ethTransactions sql⟩)
    (hfield : s.addressesArray = getUniqueAndToLowerCaseArrayData addresses) :
    Undisturbed db s (.bscLoaded id) := by
  intro addresses' ethTransactions' sql' hcall'
  rw [hcall] at hcall'
  cases hcall'
  exact hfield

/-- A response is that of its call alone: it has the addresses of the call, each once and in lower
case, and only transactions from or to them. -/
structure OwnResponse (db : TransactionDb) (isAddress : Address → Bool) (addresses : List Address)
    (response : Option TransactionsResponse) : Prop where
  alone : response = aloneResponse db isAddress addresses
  keys : ∀ m, response = some m → m.keys = getUniqueAndToLowerCaseArrayData addresses
  own : ∀ m, response = some m → ∀ address transactions, m.get address = some transactions →
    ∀ transaction ∈ transactions, transaction.«to» = address ∨ transaction.«from» = address

theorem ownResponse_alone :
    OwnResponse db isAddress addresses (aloneResponse db isAddress addresses) where
  alone := rfl
  keys := by
    intro m hm
    rw [aloneResponse] at hm
    split at hm
    · cases hm
    · cases hm
      rw [keys_toTransactionsResponse, unique_own]
  own := by
    intro m hm address transactions hget transaction hmem
    rw [aloneResponse] at hm
    split at hm
    · cases hm
    · cases hm
      have haddress : address ∈ getUniqueAndToLowerCaseArrayData addresses := by
        by_contra hnot
        rw [JsMap.get_eq_none.mpr] at hget
        · cases hget
        · rwa [keys_toTransactionsResponse, unique_own]
      rw [get_toTransactionsResponse haddress] at hget
      cases hget
      exact of_decide_eq_true (List.mem_filter.mp hmem).2

/-- What a call has is what it would have alone, as far as its response depends on it. -/
def Call.Own (db : TransactionDb) (isAddress : Address → Bool) : Call → Prop
  | ⟨addresses, .loadingEth sql⟩ => ¬ isAddressesNotCorrect isAddress addresses ∧
      sql = getUniqueAndToLowerCaseArrayData addresses
  | ⟨addresses, .loadingBsc ethTransactions sql⟩ => ¬ isAddressesNotCorrect isAddress addresses ∧
      ethTransactions =
        select db.transactionseth (getUniqueAndToLowerCaseArrayData addresses) ∧
      ∀ row ∈ db.bscTransactions,
        row.Touches (getUniqueAndToLowerCaseArrayData addresses) → row.Touches sql
  | ⟨addresses, .done response⟩ => response = aloneResponse db isAddress addresses
  | _ => True

/-- All calls have what they would have alone. -/
def Inv (db : TransactionDb) (isAddress : Address → Bool) (s : State) : Prop :=
  ∀ id call, s.calls id = some call → call.Own db isAddress

theorem Inv.set (H : Inv db isAddress s) (call : Call) (hcall : call.Own db isAddress)
    (hcalls : s'.calls = s.calls.set id call) : Inv db isAddress s' := by
  intro id' call' h
  rw [hcalls] at h
  rcases Store.of_set h with ⟨rfl, rfl⟩ | ⟨-, h⟩
  · exact hcall
  · exact H id' call' h

/-- What an undisturbed step preserves. -/
theorem Inv.step {a : Action} (H : Inv db isAddress s) (hC : Undisturbed db s a)
    (h : step db isAddress s a = some s') : Inv db isAddress s' := by
  cases a with
  | request id addresses =>
    simp only [Account.step] at h
    split at h
    · cases h
    · cases h
      exact H.set ⟨addresses, .checking⟩ trivial rfl
  | checked id =>
    simp only [Account.step] at h
    split at h
    next addresses hcall =>
      split at h
      next hnot =>
        cases h
        refine H.set ⟨addresses, .done none⟩ ?_ rfl
        change none = aloneResponse db isAddress addresses
        rw [aloneResponse, if_pos hnot]
      next hcorrect =>
        cases h
        exact H.set ⟨addresses, .loadingEth _⟩ ⟨hcorrect, rfl⟩ rfl
    · cases h
  | ethLoaded id =>
    simp only [Account.step] at h
    split at h
    next addresses sql hcall =>
      cases h
      obtain ⟨hcorrect, rfl⟩ := H id _ hcall
      exact H.set ⟨addresses, .loadingBsc _ _⟩
        ⟨hcorrect, rfl, hC addresses _ hcall⟩ rfl
    · cases h
  | bscLoaded id =>
    simp only [Account.step] at h
    split at h
    next addresses ethTransactions sql hcall =>
      cases h
      obtain ⟨hcorrect, rfl, hrows⟩ := H id _ hcall
      refine H.set ⟨addresses, .done (some _)⟩ ?_ rfl
      change some _ = aloneResponse db isAddress addresses
      rw [aloneResponse, if_neg hcorrect, hC addresses _ sql hcall]
      exact congrArg some
        ((toTransactionsResponse_eq_iff unique_own unique_own).mpr ⟨rfl, hrows⟩)
    · cases h
  | fail id =>
    simp only [Account.step] at h
    split at h
    all_goals cases h
    all_goals exact H.set ⟨_, .rejected⟩ trivial rfl

/-- In every state that an undisturbed run of any number of calls reaches, whatever the fields were
at its start, each response is that of its call alone. -/
theorem ownResponse_of_undisturbed {actions : List Action} {t : State}
    (hcalls : s.calls = Store.empty)
    (hrun : RunsUnder (step db isAddress) (Undisturbed db) s actions t) {id : Nat}
    {addresses : List Address} {response : Option TransactionsResponse}
    (hdone : t.calls id = some ⟨addresses, .done response⟩) :
    OwnResponse db isAddress addresses response := by
  have hstart : Inv db isAddress s := by
    intro id call h
    rw [hcalls] at h
    cases h
  have hinv : Inv db isAddress t := hrun.invariant (fun H hC h => H.step hC h) hstart
  obtain rfl := hinv id _ hdone
  exact ownResponse_alone

/-! ### Two wallets -/

def walletA : Address := "0x07471d0262b17529a489d0c696eef988f89464ac"

def walletB : Address := "0xcff17036c5ae141f2244f480fc16ba244ffab33b"

/-- A transaction of the second wallet. -/
def walletBDb : TransactionDb where
  transactionseth := []
  bscTransactions :=
    [{ hash := "0x1"
       blocknumber := "1"
       fromaddress := walletB
       toaddress := walletB
       blocktimestamp := "1"
       gasprice := 1
       gasused := 1
       amount := 1
       price := 1 }]

def hasAddressLength (address : Address) : Bool := address.length = 42

def freshService : State := ⟨[], [], Store.empty⟩

/-- The second request is checked while the first query of the first one is under way. -/
def crossingRequests : List Action :=
  [.request 1 [walletA], .checked 1, .request 2 [walletB], .checked 2, .ethLoaded 1, .bscLoaded 1]

/-- The first request gets the transactions of the second wallet. -/
theorem crossingRequests_not_ownResponse : ∃ t response,
    run (step walletBDb hasAddressLength) freshService crossingRequests = some t ∧
      t.calls 1 = some ⟨[walletA], .done (some response)⟩ ∧
        ¬ OwnResponse walletBDb hasAddressLength [walletA] (some response) := by
  refine ⟨_, _, rfl, rfl, fun H => ?_⟩
  exact absurd (H.keys _ rfl) (by decide)

/-- The first request comes to its end before the second is checked. -/
def serialRequests : List Action :=
  [.request 1 [walletA], .checked 1, .request 2 [walletB], .ethLoaded 1, .bscLoaded 1, .checked 2]

theorem serialRequests_ownResponse : ∃ t response,
    run (step walletBDb hasAddressLength) freshService serialRequests = some t ∧
      t.calls 1 = some ⟨[walletA], .done (some response)⟩ ∧
        OwnResponse walletBDb hasAddressLength [walletA] (some response) := by
  refine ⟨_, _, rfl, rfl, ?_⟩
  refine ownResponse_of_undisturbed rfl (show RunsUnder (step walletBDb hasAddressLength)
    (Undisturbed walletBDb) freshService serialRequests _ from
      .cons trivial rfl <| .cons trivial rfl <| .cons trivial rfl <| .cons ?_ rfl <|
        .cons ?_ rfl <| .cons trivial rfl .nil) (rfl : State.calls _ 1 = _)
  · exact undisturbed_ethLoaded rfl rfl
  · exact undisturbed_bscLoaded rfl rfl

end Account
end DefiBackend
