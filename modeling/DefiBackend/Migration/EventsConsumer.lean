import DefiBackend.Common.Address
import DefiBackend.Common.Collections
import DefiBackend.Theory.KeyValue

/-! # Consumption of migrated events

`jobs/migration_events_consumer`: a queue delivers the events that a crawler has published, in any
order and each at least once, and every delivery runs one or two insert statements.

* `consume` is a run of deliveries; `transferOf` and `approvalOf` are the templates.
* What stands in the tables after a run is told key by key: the first transfer
  (`consume_transfers`), all approvals (`consume_approvals`), and the first approval with a last
  update by the first one of the greatest block time (`consume_approvalsNew`).
* `Deliveries.insensitive_iff`: when two sequences of deliveries of the same events leave the same
  tables, and these say what the events say.

An asset stands for its id, which the table of assets gives out. -/

namespace DefiBackend
namespace Migration
open Theory

/-- `MigrationEvent`. -/
structure MigrationEvent where
  chainId : Nat
  transactionHash : String
  address : Address
  topic1 : String
  topic2 : Option String
  topic3 : Option String
  data : String
  blockNumber : Nat
  blockTimestamp : Nat
  logIndex : Nat
  deriving DecidableEq

/-- What the id of an asset is looked up or created for. -/
structure AssetKey where
  address : Address
  chainId : Nat
  deriving DecidableEq

/-- A row of `asset_transfers_new`. -/
structure TransferRow where
  asset : AssetKey
  «from» : Option Address
  «to» : Option Address
  value : String
  timestamp : Nat
  txHash : String
  blockNumber : Nat
  logIndex : Nat

/-- A row of `approvals`, and of `approvals_new`. -/
structure ApprovalRow where
  userAddress : Address
  tokenAddress : Address
  contractAddress : Address
  amount : String
  blockNumber : Nat
  blockTimestamp : Nat
  hash : String
  asset : AssetKey

/-! ## Templates -/

def erc20TransferEventHash : String :=
  "0xddf252ad1be2c89b69c2b068fc378daa952ba7f163c4a11628f55a4df523b3ef"

def erc20ApprovalEventHash : String :=
  "0x8c5be1e5ebec7d5bd14f71427d1e84f3dd0314c0f7b2291e5b200ac8c7c3b925"

def zeroData : String := "0x"

/-- `eth.abi.decodeParameter`, for an address and for a number. -/
structure Decoder where
  address : String → Address
  uint256 : String → String

section
variable (D : Decoder)

/-- The asset of an event. -/
def MigrationEvent.asset (event : MigrationEvent) : AssetKey :=
  ⟨lowerCase event.address, event.chainId⟩

/-- `from` and `to` in the text of the statement. -/
def nonEmpty (address : Address) : Option Address := if address = "" then none else some address

/-- A topic that is there and is not empty. -/
def truthy (topic : Option String) : Option String := topic.filter (· ≠ "")

/-- `fromERC20Transfer`, with the asset that `migrateEvent` adds. -/
def fromERC20Transfer (event : MigrationEvent) : Option TransferRow :=
  match truthy event.topic2, truthy event.topic3 with
  | some topic2, some topic3 =>
    if event.data ≠ zeroData then
      some {
        asset := event.asset
        txHash := event.transactionHash
        «from» := nonEmpty (lowerCase (D.address topic2))
        «to» := nonEmpty (lowerCase (D.address topic3))
        value := D.uint256 event.data
        blockNumber := event.blockNumber
        timestamp := event.blockTimestamp
        logIndex := event.logIndex }
    else none
  | _, _ => none

/-- `fromERC20Approval`, with the asset that `migrateEvent` adds. -/
def fromERC20Approval (event : MigrationEvent) : Option ApprovalRow :=
  match truthy event.topic2, truthy event.topic3 with
  | some topic2, some topic3 =>
    if event.data ≠ zeroData then
      some {
        asset := event.asset
        userAddress := lowerCase (D.address topic2)
        tokenAddress := lowerCase event.address
        contractAddress := lowerCase (D.address topic3)
        amount := event.data
        blockNumber := event.blockNumber
        blockTimestamp := event.blockTimestamp
        hash := event.transactionHash }
    else none
  | _, _ => none

/-- The transfer of an event, if it is one. -/
def transferOf (event : MigrationEvent) : Option TransferRow :=
  if event.topic1 = erc20TransferEventHash then fromERC20Transfer D event else none

/-- The approval of an event, if it is one. -/
def approvalOf (event : MigrationEvent) : Option ApprovalRow :=
  if event.topic1 = erc20TransferEventHash then none
  else if event.topic1 = erc20ApprovalEventHash then fromERC20Approval D event
  else none

end

/-! ## Tables -/

/-- The key of `asset_transfers_new`. -/
structure TransferKey where
  txHash : String
  logIndex : Nat
  deriving DecidableEq

/-- The key of `approvals_new`. -/
structure ApprovalKey where
  userAddress : Address
  tokenAddress : Address
  contractAddress : Address
  deriving DecidableEq

def TransferRow.key (row : TransferRow) : TransferKey := ⟨row.txHash, row.logIndex⟩

def ApprovalRow.key (row : ApprovalRow) : ApprovalKey :=
  ⟨row.userAddress, row.tokenAddress, row.contractAddress⟩

structure Tables where
  assetTransfersNew : Store TransferKey TransferRow
  approvals : List ApprovalRow
  approvalsNew : Store ApprovalKey ApprovalRow

namespace Tables

def empty : Tables := ⟨Store.empty, [], Store.empty⟩

variable (t : Tables)

/-- `AssetsTransfersStore.save`. -/
def saveTransfer (transfer : TransferRow) : Tables :=
  match t.assetTransfersNew transfer.key with
  | some _ => t
  | none => { t with assetTransfersNew := t.assetTransfersNew.set transfer.key transfer }

/-- `on conflict … do update` of the statement for `approvals_new`. -/
def updated (old excluded : ApprovalRow) : ApprovalRow :=
  { old with
    blockNumber := if excluded.blockTimestamp > old.blockTimestamp then excluded.blockNumber
      else old.blockNumber
    blockTimestamp := if excluded.blockTimestamp > old.blockTimestamp then excluded.blockTimestamp
      else old.blockTimestamp
    hash := if excluded.blockTimestamp > old.blockTimestamp then excluded.hash else old.hash
    amount := if excluded.blockTimestamp > old.blockTimestamp then excluded.amount
      else old.amount }

/-- `ApprovalsStore.save`. -/
def saveApproval (approval : ApprovalRow) : Tables :=
  { t with
    approvals := t.approvals ++ [approval]
    approvalsNew := t.approvalsNew.set approval.key
      (match t.approvalsNew approval.key with
        | some old => updated old approval
        | none => approval) }

end Tables

section
variable (D : Decoder)

/-- `migrateEvent`. An event of another kind throws, and leaves the tables as they are. -/
def migrateEvent (t : Tables) (event : MigrationEvent) : Tables :=
  match transferOf D event with
  | some transfer => t.saveTransfer transfer
  | none =>
    match approvalOf D event with
    | some approval => t.saveApproval approval
    | none => t

/-- A run of deliveries. -/
def consume (events : List MigrationEvent) : Tables := events.foldl (migrateEvent D) .empty

/-- The approvals for a key, in the order of their deliveries. -/
def approvalsFor (key : ApprovalKey) (events : List MigrationEvent) : List ApprovalRow :=
  (events.filterMap (approvalOf D)).filter (·.key = key)

end

/-! ## What a run leaves -/

/-- A transfer is no approval. -/
theorem approvalOf_of_transferOf (h : transferOf D e = some transfer) : approvalOf D e = none := by
  unfold transferOf at h
  split at h
  · next topic => simp [approvalOf, topic]
  · cases h

theorem migrateEvent_transfers : (migrateEvent D t e).assetTransfersNew key =
    (t.assetTransfersNew key).or ((transferOf D e).filter (·.key = key)) := by
  unfold migrateEvent
  cases he : transferOf D e with
  | none => cases approvalOf D e <;> simp [Tables.saveApproval]
  | some transfer =>
    simp only [Tables.saveTransfer]
    by_cases hk : transfer.key = key
    · subst hk
      cases hold : t.assetTransfersNew transfer.key <;> simp [hold, Option.filter]
    · cases t.assetTransfersNew transfer.key <;>
        simp [hk, Store.set_of_ne (Ne.symm hk), Option.filter]

theorem migrateEvent_approvals :
    (migrateEvent D t e).approvals = t.approvals ++ (approvalOf D e).toList := by
  unfold migrateEvent
  cases he : transferOf D e with
  | none => cases approvalOf D e <;> simp [Tables.saveApproval]
  | some transfer =>
    rw [approvalOf_of_transferOf he]
    simp only [Tables.saveTransfer]
    cases t.assetTransfersNew transfer.key <;> simp

/-- What a row for its key becomes with one more approval. -/
def upsert (old : Option ApprovalRow) (approval : ApprovalRow) : ApprovalRow :=
  match old with
  | some old => Tables.updated old approval
  | none => approval

theorem migrateEvent_approvalsNew : (migrateEvent D t e).approvalsNew key =
    ((approvalOf D e).toList.filter (·.key = key)).foldl (fun old a => some (upsert old a))
      (t.approvalsNew key) := by
  unfold migrateEvent
  cases he : transferOf D e with
  | none =>
    cases approvalOf D e with
    | none => rfl
    | some approval =>
      by_cases hk : approval.key = key
      · subst hk
        simp only [Tables.saveApproval, Store.set_self]
        cases t.approvalsNew approval.key <;> simp [upsert]
      · simp [Tables.saveApproval, Store.set_of_ne (Ne.symm hk), hk]
  | some transfer =>
    rw [approvalOf_of_transferOf he]
    simp only [Tables.saveTransfer]
    cases t.assetTransfersNew transfer.key <;> rfl

theorem foldl_transfers (events : List MigrationEvent) (t : Tables) :
    (events.foldl (migrateEvent D) t).assetTransfersNew key =
      (t.assetTransfersNew key).or ((events.filterMap (transferOf D)).find? (·.key = key)) := by
  induction events generalizing t with
  | nil => simp
  | cons e events ih =>
    rw [List.foldl_cons, ih, migrateEvent_transfers, Option.or_assoc]
    congr 1
    cases he : transferOf D e with
    | none => simp [he]
    | some transfer =>
      rw [List.filterMap_cons_some he, List.find?_cons]
      by_cases hk : transfer.key = key <;> simp [hk, Option.filter]

theorem foldl_approvals (events : List MigrationEvent) (t : Tables) :
    (events.foldl (migrateEvent D) t).approvals =
      t.approvals ++ events.filterMap (approvalOf D) := by
  induction events generalizing t with
  | nil => simp
  | cons e events ih =>
    rw [List.foldl_cons, ih, migrateEvent_approvals]
    cases he : approvalOf D e <;> simp [he]

theorem foldl_approvalsNew (events : List MigrationEvent) (t : Tables) :
    (events.foldl (migrateEvent D) t).approvalsNew key =
      (approvalsFor D key events).foldl (fun old a => some (upsert old a)) (t.approvalsNew key) := by
  induction events generalizing t with
  | nil => rfl
  | cons e events ih =>
    rw [List.foldl_cons, ih, migrateEvent_approvalsNew, ← List.foldl_append]
    cases he : approvalOf D e <;> simp [approvalsFor, he, List.filter_cons]
    split <;> rfl

/-- Of the transfers with one key the first one stays. -/
theorem consume_transfers (events : List MigrationEvent) :
    (consume D events).assetTransfersNew key =
      (events.filterMap (transferOf D)).find? (·.key = key) := by
  rw [consume, foldl_transfers]
  rfl

/-- Every delivery of an approval is a row. -/
theorem consume_approvals (events : List MigrationEvent) :
    (consume D events).approvals = events.filterMap (approvalOf D) := by
  rw [consume, foldl_approvals]
  rfl

/-! ## The row for a key -/

/-- Equal amount, hash and block. -/
structure ApprovalRow.Agrees (row approval : ApprovalRow) : Prop where
  amount : row.amount = approval.amount
  hash : row.hash = approval.hash
  blockNumber : row.blockNumber = approval.blockNumber
  blockTimestamp : row.blockTimestamp = approval.blockTimestamp

theorem ApprovalRow.Agrees.refl (row : ApprovalRow) : row.Agrees row := ⟨rfl, rfl, rfl, rfl⟩

theorem ApprovalRow.Agrees.trans {a b c : ApprovalRow} (h : a.Agrees b) (h' : b.Agrees c) :
    a.Agrees c where
  amount := h.amount.trans h'.amount
  hash := h.hash.trans h'.hash
  blockNumber := h.blockNumber.trans h'.blockNumber
  blockTimestamp := h.blockTimestamp.trans h'.blockTimestamp

theorem ApprovalRow.Agrees.symm {a b : ApprovalRow} (h : a.Agrees b) : b.Agrees a :=
  ⟨h.amount.symm, h.hash.symm, h.blockNumber.symm, h.blockTimestamp.symm⟩

/-- The first of the rows with the greatest block time. -/
def firstLatest (rows : List ApprovalRow) : Option ApprovalRow :=
  rows.find? fun row => rows.all fun r => r.blockTimestamp ≤ row.blockTimestamp

/-- The row of `approvals_new` that a delivery lets win. -/
def later (row approval : ApprovalRow) : ApprovalRow :=
  if approval.blockTimestamp > row.blockTimestamp then approval else row

theorem foldl_later (rows : List ApprovalRow) (row : ApprovalRow) :
    ∃ pre post, row :: rows = pre ++ rows.foldl later row :: post ∧
      (∀ r ∈ pre, r.blockTimestamp < (rows.foldl later row).blockTimestamp) ∧
      ∀ r ∈ post, r.blockTimestamp ≤ (rows.foldl later row).blockTimestamp := by
  induction rows generalizing row with
  | nil => exact ⟨[], [], rfl, by simp, by simp⟩
  | cons approval rows ih =>
    rw [List.foldl_cons]
    obtain ⟨pre, post, split, lt, le⟩ := ih (later row approval)
    revert split lt le
    generalize rows.foldl later (later row approval) = winner
    intro split lt le
    by_cases h : approval.blockTimestamp > row.blockTimestamp
    · -- the new approval stands where the walk goes on, and the old row is before it
      rw [later, if_pos h] at split
      refine ⟨row :: pre, post, by rw [split, List.cons_append], fun r hr => ?_, le⟩
      rcases List.mem_cons.mp hr with rfl | hr
      · have hwin : approval.blockTimestamp ≤ winner.blockTimestamp := by
          have mem : approval ∈ pre ++ winner :: post := split ▸ List.mem_cons_self
          rcases List.mem_append.mp mem with mem | mem
          · exact Nat.le_of_lt (lt _ mem)
          · rcases List.mem_cons.mp mem with rfl | mem
            · exact Nat.le_refl _
            · exact le _ mem
        omega
      · exact lt r hr
    · -- the old row goes on, and the new approval is put right after it
      rw [later, if_neg h] at split
      cases pre with
      | nil =>
        obtain ⟨rfl, rfl⟩ := List.cons.inj split
        refine ⟨[], approval :: rows, rfl, by simp, fun r hr => ?_⟩
        rcases List.mem_cons.mp hr with rfl | hr
        · omega
        · exact le r hr
      | cons first pre =>
        obtain ⟨rfl, rfl⟩ := List.cons.inj split
        refine ⟨row :: approval :: pre, post, by simp, fun r hr => ?_, le⟩
        have hrow := lt row List.mem_cons_self
        rcases List.mem_cons.mp hr with rfl | hr
        · exact hrow
        · rcases List.mem_cons.mp hr with rfl | hr
          · omega
          · exact lt r (List.mem_cons_of_mem _ hr)

theorem firstLatest_cons (row : ApprovalRow) (rows : List ApprovalRow) :
    firstLatest (row :: rows) = some (rows.foldl later row) := by
  obtain ⟨pre, post, split, lt, le⟩ := foldl_later rows row
  refine List.find?_eq_some_iff_append.mpr ⟨?_, pre, post, split, fun r hr => ?_⟩
  · rw [List.all_eq_true]
    intro r hr
    rw [split] at hr
    rw [decide_eq_true_eq]
    rcases List.mem_append.mp hr with hr | hr
    · exact Nat.le_of_lt (lt r hr)
    · rcases List.mem_cons.mp hr with rfl | hr
      · exact Nat.le_refl _
      · exact le r hr
  · have mem : rows.foldl later row ∈ row :: rows := by rw [split]; simp
    have := lt r hr
    simp only [Bool.not_eq_true', List.all_eq_false, decide_eq_true_eq]
    exact ⟨_, mem, by omega⟩

theorem updated_agrees {old old' approval : ApprovalRow} (h : old.Agrees old') :
    (Tables.updated old approval).Agrees (later old' approval) := by
  have hts := h.blockTimestamp
  unfold Tables.updated later
  by_cases newer : approval.blockTimestamp > old.blockTimestamp
  · simp only [if_pos newer, if_pos (hts ▸ newer : approval.blockTimestamp > old'.blockTimestamp)]
    exact ⟨rfl, rfl, rfl, rfl⟩
  · simp only [if_neg newer, if_neg (hts ▸ newer : ¬approval.blockTimestamp > old'.blockTimestamp)]
    exact ⟨h.amount, h.hash, h.blockNumber, h.blockTimestamp⟩

/-- The columns that an update leaves alone. -/
theorem foldl_updated (rows : List ApprovalRow) {row row' : ApprovalRow} (h : row.Agrees row') :
    (rows.foldl Tables.updated row).key = row.key ∧
      (rows.foldl Tables.updated row).asset = row.asset ∧
      (rows.foldl Tables.updated row).Agrees (rows.foldl later row') := by
  induction rows generalizing row row' with
  | nil => exact ⟨rfl, rfl, h⟩
  | cons approval rows ih => exact ih (updated_agrees h)

theorem foldl_upsert (rows : List ApprovalRow) (row : ApprovalRow) :
    rows.foldl (fun old a => some (upsert old a)) (some row) =
      some (rows.foldl Tables.updated row) := by
  induction rows generalizing row with
  | nil => rfl
  | cons approval rows ih => exact ih _

theorem key_of_mem_approvalsFor (h : approval ∈ approvalsFor D key events) :
    approval.key = key := by
  simpa using (List.mem_filter.mp h).2

/-- The row for a key has the asset of the first approval for it, and else tells of the first one
with the greatest block time. -/
theorem consume_approvalsNew (events : List MigrationEvent) (key : ApprovalKey) :
    (consume D events).approvalsNew key = none ∧ approvalsFor D key events = [] ∨
      ∃ row first winner, (consume D events).approvalsNew key = some row ∧ row.key = key ∧
        (approvalsFor D key events).head? = some first ∧ row.asset = first.asset ∧
        firstLatest (approvalsFor D key events) = some winner ∧ row.Agrees winner := by
  have h : (consume D events).approvalsNew key =
      (approvalsFor D key events).foldl (fun old a => some (upsert old a)) none :=
    foldl_approvalsNew events .empty
  cases hrows : approvalsFor D key events with
  | nil => exact .inl ⟨by rw [h, hrows]; rfl, rfl⟩
  | cons first rows =>
    obtain ⟨hkey, hasset, agrees⟩ := foldl_updated rows (.refl first)
    have hmem : first ∈ approvalsFor D key events := hrows ▸ List.mem_cons_self
    have hfirst : first.key = key := key_of_mem_approvalsFor hmem
    refine .inr ⟨_, first, _, ?_, hkey.trans hfirst, rfl, hasset, firstLatest_cons first rows, agrees⟩
    rw [h, hrows]
    exact foldl_upsert rows first

/-! ## Deliveries -/

/-- Two sequences of deliveries of the same events, in any order and each event once or more. -/
structure Deliveries where
  events : List MigrationEvent
  nodup : events.Nodup
  identified : ∀ e ∈ events, ∀ e' ∈ events,
    e.transactionHash = e'.transactionHash → e.logIndex = e'.logIndex → e = e'
  first : List MigrationEvent
  mem_first : ∀ e, e ∈ first ↔ e ∈ events
  second : List MigrationEvent
  mem_second : ∀ e, e ∈ second ↔ e ∈ events

/-- An event is not after another in the chain. -/
def MigrationEvent.NotAfter (e e' : MigrationEvent) : Prop :=
  e.blockNumber < e'.blockNumber ∨ e.blockNumber = e'.blockNumber ∧ e.logIndex ≤ e'.logIndex

/-- An approval for a key with the greatest block number and log index. -/
def Greatest (D : Decoder) (events : List MigrationEvent) (key : ApprovalKey)
    (approval : ApprovalRow) : Prop :=
  ∃ e ∈ events, approvalOf D e = some approval ∧ approval.key = key ∧
    ∀ e' ∈ events, ∀ approval', approvalOf D e' = some approval' → approval'.key = key →
      e'.NotAfter e

/-- The tables hold each transfer once, each approval once, and the latest approval for each
key. -/
structure Tells (D : Decoder) (events : List MigrationEvent) (t : Tables) : Prop where
  transfers : ∀ key transfer, t.assetTransfersNew key = some transfer ↔
    ∃ e ∈ events, transferOf D e = some transfer ∧ transfer.key = key
  approvals : t.approvals.Perm (events.filterMap (approvalOf D))
  latest_isSome : ∀ e ∈ events, ∀ approval, approvalOf D e = some approval →
    (t.approvalsNew approval.key).isSome
  latest : ∀ key row, t.approvalsNew key = some row →
    row.key = key ∧ ∃ approval, Greatest D events key approval ∧ row.Agrees approval

/-- Equal contents; the rows of `approvals` have no order. -/
structure Tables.Same (t t' : Tables) : Prop where
  transfers : t.assetTransfersNew = t'.assetTransfersNew
  approvals : t.approvals.Perm t'.approvals
  approvalsNew : t.approvalsNew = t'.approvalsNew

/-- The two sequences leave the same tables, which tell what the events say. -/
structure Deliveries.Insensitive (D : Decoder) (d : Deliveries) : Prop where
  same : (consume D d.first).Same (consume D d.second)
  first : Tells D d.events (consume D d.first)
  second : Tells D d.events (consume D d.second)

/-- A sequence delivers each approval exactly once, and for each key the first approval with the
greatest block time is as good as the last one in the chain. -/
structure Settled (D : Decoder) (events sequence : List MigrationEvent) : Prop where
  once : ∀ e ∈ events, (approvalOf D e).isSome → sequence.count e = 1
  latest : ∀ key winner, firstLatest (approvalsFor D key sequence) = some winner →
    ∃ approval, Greatest D events key approval ∧ winner.Agrees approval

/-- For each key the first approvals of both sequences are of one asset, and the first ones with the
greatest block time agree. -/
structure Deliveries.SameRows (D : Decoder) (d : Deliveries) : Prop where
  asset : ∀ key a b, (approvalsFor D key d.first).head? = some a →
    (approvalsFor D key d.second).head? = some b → a.asset = b.asset
  latest : ∀ key a b, firstLatest (approvalsFor D key d.first) = some a →
    firstLatest (approvalsFor D key d.second) = some b → a.Agrees b

theorem mem_approvalsFor : approval ∈ approvalsFor D key events ↔
    ∃ e ∈ events, approvalOf D e = some approval ∧ approval.key = key := by
  constructor
  · intro h
    obtain ⟨mem, hkey⟩ := List.mem_filter.mp h
    obtain ⟨e, he, happroval⟩ := List.mem_filterMap.mp mem
    exact ⟨e, he, happroval, by simpa using hkey⟩
  · rintro ⟨e, he, happroval, hkey⟩
    exact List.mem_filter.mpr
      ⟨List.mem_filterMap.mpr ⟨e, he, happroval⟩, decide_eq_true hkey⟩

theorem transferOf_key (h : transferOf D e = some transfer) :
    transfer.key = ⟨e.transactionHash, e.logIndex⟩ := by
  unfold transferOf at h
  split at h
  · unfold fromERC20Transfer at h
    split at h
    · split at h
      · cases h
        rfl
      · cases h
    · cases h
  · cases h

section
variable {events sequence : List MigrationEvent}
  (identified : ∀ e ∈ events, ∀ e' ∈ events,
    e.transactionHash = e'.transactionHash → e.logIndex = e'.logIndex → e = e')
  (mem : ∀ e, e ∈ sequence ↔ e ∈ events)
include mem

include identified in
theorem consume_transfers_iff : (consume D sequence).assetTransfersNew key = some transfer ↔
    ∃ e ∈ events, transferOf D e = some transfer ∧ transfer.key = key := by
  rw [consume_transfers]
  constructor
  · intro h
    obtain ⟨e, he, htransfer⟩ := List.mem_filterMap.mp (List.mem_of_find?_eq_some h)
    exact ⟨e, (mem e).mp he, htransfer, by simpa using List.find?_some h⟩
  · rintro ⟨e, he, htransfer, hkey⟩
    cases h : (sequence.filterMap (transferOf D)).find? (·.key = key) with
    | none =>
      have := List.find?_eq_none.mp h transfer (List.mem_filterMap.mpr ⟨e, (mem e).mpr he, htransfer⟩)
      exact absurd (decide_eq_true hkey) this
    | some other =>
      obtain ⟨e', he', hother⟩ := List.mem_filterMap.mp (List.mem_of_find?_eq_some h)
      have hkey' : other.key = key := by simpa using List.find?_some h
      -- one key, so one event
      have keys := (transferOf_key hother).symm.trans (hkey'.trans (hkey.symm.trans
        (transferOf_key htransfer)))
      rw [TransferKey.mk.injEq] at keys
      have := identified e' ((mem e').mp he') e he keys.1 keys.2
      subst this
      exact hother.symm.trans htransfer

/-- When the tables tell what the events say. -/
theorem tells_iff (nodup : events.Nodup) (identified : ∀ e ∈ events, ∀ e' ∈ events,
    e.transactionHash = e'.transactionHash → e.logIndex = e'.logIndex → e = e') :
    Tells D events (consume D sequence) ↔ Settled D events sequence := by
  have perm_iff := filterMap_perm_iff (f := approvalOf D) nodup mem
  constructor
  · intro h
    refine ⟨perm_iff.mp (consume_approvals (D := D) sequence ▸ h.approvals), fun key winner hw => ?_⟩
    rcases consume_approvalsNew (D := D) sequence key with ⟨-, nil⟩ |
      ⟨row, -, winner', hrow, -, -, -, hw', agrees⟩
    · rw [nil] at hw
      cases hw
    · obtain rfl := Option.some.inj (hw.symm.trans hw')
      obtain ⟨-, approval, greatest, agrees'⟩ := h.latest key row hrow
      exact ⟨approval, greatest, agrees.symm.trans agrees'⟩
  · intro h
    refine ⟨fun key transfer => consume_transfers_iff identified mem,
      consume_approvals (D := D) sequence ▸ perm_iff.mpr h.once, fun e he approval happroval => ?_,
      fun key row hrow => ?_⟩
    · rcases consume_approvalsNew (D := D) sequence approval.key with ⟨-, nil⟩ | ⟨row, -, -, hrow, -⟩
      · have := mem_approvalsFor.mpr ⟨e, (mem e).mpr he, happroval, rfl⟩
        rw [nil] at this
        cases this
      · rw [hrow]
        rfl
    · rcases consume_approvalsNew (D := D) sequence key with ⟨none, -⟩ |
        ⟨row', -, winner, hrow', hkey, -, -, hw, agrees⟩
      · rw [none] at hrow
        cases hrow
      · obtain rfl := Option.some.inj (hrow.symm.trans hrow')
        obtain ⟨approval, greatest, agrees'⟩ := h.latest key winner hw
        exact ⟨hkey, approval, greatest, agrees.trans agrees'⟩

end

theorem ApprovalRow.eq_of_agrees {a b : ApprovalRow} (key : a.key = b.key)
    (asset : a.asset = b.asset) (agrees : a.Agrees b) : a = b := by
  rw [ApprovalRow.key, ApprovalRow.key, ApprovalKey.mk.injEq] at key
  obtain ⟨user, token, contract⟩ := key
  cases a
  cases b
  simp only [ApprovalRow.mk.injEq]
  exact ⟨user, token, contract, agrees.amount, agrees.blockNumber, agrees.blockTimestamp,
    agrees.hash, asset⟩

namespace Deliveries
variable {D : Decoder} (d : Deliveries)

/-- Both sequences deliver approvals for the same keys. -/
theorem approvalsFor_eq_nil_iff :
    approvalsFor D key d.first = [] ↔ approvalsFor D key d.second = [] := by
  simp only [List.eq_nil_iff_forall_not_mem, mem_approvalsFor, d.mem_first, d.mem_second]

theorem same_of_settled (first : Settled D d.events d.first) (second : Settled D d.events d.second)
    (rows : d.SameRows D) : (consume D d.first).Same (consume D d.second) where
  transfers := by
    funext key
    refine Option.ext fun transfer => ?_
    rw [consume_transfers_iff d.identified d.mem_first,
      consume_transfers_iff d.identified d.mem_second]
  approvals := ((tells_iff d.mem_first d.nodup d.identified).mpr first).approvals.trans
    ((tells_iff d.mem_second d.nodup d.identified).mpr second).approvals.symm
  approvalsNew := by
    funext key
    rcases consume_approvalsNew (D := D) d.first key with ⟨none, nil⟩ |
      ⟨row, a, winner, hrow, hkey, ha, asset, hwinner, agrees⟩
    · rcases consume_approvalsNew (D := D) d.second key with ⟨none', -⟩ | ⟨-, b, -, -, -, hb, -⟩
      · rw [none, none']
      · rw [d.approvalsFor_eq_nil_iff.mp nil] at hb
        cases hb
    · rcases consume_approvalsNew (D := D) d.second key with ⟨-, nil⟩ |
        ⟨row', b, winner', hrow', hkey', hb, asset', hwinner', agrees'⟩
      · rw [d.approvalsFor_eq_nil_iff.mpr nil] at ha
        cases ha
      · have hasset : row.asset = row'.asset :=
          asset.trans ((rows.asset key a b ha hb).trans asset'.symm)
        have hagrees : row.Agrees row' :=
          agrees.trans ((rows.latest key winner winner' hwinner hwinner').trans agrees'.symm)
        rw [hrow, hrow', ApprovalRow.eq_of_agrees (hkey.trans hkey'.symm) hasset hagrees]

theorem sameRows_of_same (same : (consume D d.first).Same (consume D d.second)) : d.SameRows D := by
  have h : ∀ key a b, (approvalsFor D key d.first).head? = some a →
      (approvalsFor D key d.second).head? = some b →
      ∃ row winner winner' : ApprovalRow, row.asset = a.asset ∧ row.asset = b.asset ∧
        firstLatest (approvalsFor D key d.first) = some winner ∧ row.Agrees winner ∧
        firstLatest (approvalsFor D key d.second) = some winner' ∧ row.Agrees winner' := by
    intro key a b ha hb
    rcases consume_approvalsNew (D := D) d.first key with ⟨-, nil⟩ |
      ⟨row, a', winner, hrow, -, ha', asset, hwinner, agrees⟩
    · rw [nil] at ha
      cases ha
    · rcases consume_approvalsNew (D := D) d.second key with ⟨-, nil⟩ |
        ⟨row', b', winner', hrow', -, hb', asset', hwinner', agrees'⟩
      · rw [nil] at hb
        cases hb
      · obtain rfl := Option.some.inj (ha.symm.trans ha')
        obtain rfl := Option.some.inj (hb.symm.trans hb')
        rw [same.approvalsNew] at hrow
        obtain rfl := Option.some.inj (hrow.symm.trans hrow')
        exact ⟨row, winner, winner', asset, asset', hwinner, agrees, hwinner', agrees'⟩
  refine ⟨fun key a b ha hb => ?_, fun key winner winner' hw hw' => ?_⟩
  · obtain ⟨row, -, -, asset, asset', -⟩ := h key a b ha hb
    exact asset.symm.trans asset'
  · have hne : ∀ {rows : List ApprovalRow} {winner}, firstLatest rows = some winner →
        ∃ a, rows.head? = some a := by
      intro rows winner hw
      cases rows with
      | nil => cases hw
      | cons a rows => exact ⟨a, rfl⟩
    obtain ⟨a, ha⟩ := hne hw
    obtain ⟨b, hb⟩ := hne hw'
    obtain ⟨row, w, w', -, -, hw₁, agrees, hw₂, agrees'⟩ := h key a b ha hb
    obtain rfl := Option.some.inj (hw.symm.trans hw₁)
    obtain rfl := Option.some.inj (hw'.symm.trans hw₂)
    exact agrees.symm.trans agrees'

/-- Order and redelivery do not matter exactly when no approval is delivered twice and block times
tell the approvals for a key apart. -/
theorem insensitive_iff : d.Insensitive D ↔
    Settled D d.events d.first ∧ Settled D d.events d.second ∧ d.SameRows D := by
  have first_iff := tells_iff (D := D) d.mem_first d.nodup d.identified
  have second_iff := tells_iff (D := D) d.mem_second d.nodup d.identified
  constructor
  · intro h
    exact ⟨first_iff.mp h.first, second_iff.mp h.second, d.sameRows_of_same h.same⟩
  · rintro ⟨first, second, rows⟩
    exact ⟨d.same_of_settled first second rows, first_iff.mpr first, second_iff.mpr second⟩

end Deliveries

/-! ### Two approvals in one block -/

/-- Topics of two accounts and of a number. -/
def decoder : Decoder where
  address topic :=
    if topic = "0x000000000000000000000000f39fd6e51aad88f6f4ce6ab8827279cfffb92266" then
      "0xf39Fd6e51aad88F6F4ce6aB8827279cffFb92266"
    else "0x70997970C51812dc3A010C7d01b50e0d17dc79C8"
  uint256 _ := "0"

/-- An approval of the first account for the second one. -/
def approvalEvent (data hash : String) (logIndex : Nat) : MigrationEvent where
  chainId := 1
  transactionHash := hash
  address := "0x6b175474e89094c44da98b954eedeac495271d0f"
  topic1 := erc20ApprovalEventHash
  topic2 := some "0x000000000000000000000000f39fd6e51aad88f6f4ce6ab8827279cfffb92266"
  topic3 := some "0x00000000000000000000000070997970c51812dc3a010c7d01b50e0d17dc79c8"
  data := data
  blockNumber := 17000000
  blockTimestamp := 1680911891
  logIndex := logIndex

def granted : MigrationEvent :=
  approvalEvent "0x00000000000000000000000000000000000000000000000000000000000003e8" "0xa1" 7

def revoked : MigrationEvent :=
  approvalEvent "0x0000000000000000000000000000000000000000000000000000000000000000" "0xb2" 8

/-- The two events in the order of the chain, and the other way round. -/
def reordered : Deliveries where
  events := [granted, revoked]
  nodup := by decide
  identified := by decide
  first := [granted, revoked]
  mem_first _ := .rfl
  second := [revoked, granted]
  mem_second _ := by simp [or_comm]

/-- One event, once and twice. -/
def redelivered : Deliveries where
  events := [granted]
  nodup := by decide
  identified := by decide
  first := [granted]
  mem_first _ := .rfl
  second := [granted, granted]
  mem_second _ := by simp

/-- Of two approvals in one block the one delivered first stays, and a second delivery makes a
second row. -/
theorem sameBlockApprovals_not_insensitive :
    ¬ reordered.Insensitive decoder ∧ ¬ redelivered.Insensitive decoder := by
  constructor
  · intro h
    have := congrArg (Option.map ApprovalRow.amount) (congrFun h.same.approvalsNew
      ⟨"0xf39fd6e51aad88f6f4ce6ab8827279cfffb92266", "0x6b175474e89094c44da98b954eedeac495271d0f",
        "0x70997970c51812dc3a010c7d01b50e0d17dc79c8"⟩)
    revert this
    decide
  · intro h
    have := h.second.approvals.length_eq
    revert this
    decide

end Migration
end DefiBackend
