import DefiBackend.Theory.Awaiting
import DefiBackend.Theory.KeyValue
import Mathlib.Data.Int.Order.Basic
import Mathlib.Data.List.Dedup
import Mathlib.Data.List.Induction

/-! # The chain crawler

`jobs/migration_chain_crawler`: a scheduled run reads the greatest block of the block-info table,
asks the node for the logs and the blocks after it, publishes events and transactions, and saves
blocks and a block-info row in one transaction. Any awaited call may fail, and a failed run is
logged and forgotten.

* `ethWeb3Migration` and `bscWeb3Migration` are the runs; what is awaited is written to a trace.
* `getEventsPromisesArray_covers`: the log queries cover the range of the run.
* `crawl_covered`: whatever fails, all blocks up to the greatest one of the table were stored by
  runs that had published everything before.
* `neverSkips_of_quiet`: when nothing is published after it either.

Dates of the rows are left out, and the numbers that go through hexadecimal texts. -/

namespace DefiBackend
namespace Migration
namespace ChainCrawler
open Theory

/-! ## Data -/

inductive Network
  | eth
  | bsc
  deriving DecidableEq

def Network.chainId : Network → Nat
  | .eth => 1
  | .bsc => 2

/-- `ETH_LAST_BLOCKS` and `BSC_LAST_BLOCKS`. -/
def Network.lastBlocks : Network → Int
  | .eth => 3
  | .bsc => 10

def ethBscMigrationStep : Int := 1

structure Transaction where
  hash : String
  «from» : String
  «to» : Option String
  input : String
  value : String
  gas : Nat
  gasPrice : String
  transactionIndex : Nat
  deriving DecidableEq

/-- `BlockTransactionObject`. -/
structure Block where
  number : Int
  timestamp : Nat
  hash : String
  transactions : List Transaction
  deriving DecidableEq

structure Log where
  blockNumber : Int
  transactionHash : String
  address : String
  topics : List String
  data : String
  logIndex : Nat
  deriving DecidableEq

structure MigrationEvent where
  chainId : Nat
  transactionHash : String
  address : String
  topic1 : String
  topic2 : Option String
  topic3 : Option String
  topics : Option String
  data : String
  blockNumber : Int
  blockTimestamp : Nat
  logIndex : Nat
  deriving DecidableEq

structure MigrationTransaction where
  hash : String
  blockNumber : Int
  «from» : String
  «to» : Option String
  input : String
  value : String
  gas : Nat
  gasPrice : String
  index : String
  timestamp : String
  chainId : Nat
  events : List MigrationEvent
  deriving DecidableEq

/-- `BlocksInfoEntity`. -/
structure BlocksInfo where
  fromBlock : Int
  toBlock : Int
  information : String
  deriving DecidableEq

/-- The tables of blocks and of block infos of one network. -/
structure Database where
  blocksInfo : List BlocksInfo
  blocks : Store Int (Nat × String)

/-- What is awaited. -/
inductive Call
  | selectToBlock
  | blockNumber
  | pastLogs (fromBlock toBlock : Int)
  | block (blockNumber : Int)
  | settings
  | publishTrackedAssetEvent (event : MigrationEvent)
  | publishTransactionWithEvents (transaction : MigrationTransaction)
  | save
  deriving DecidableEq

/-- A step of a run: an awaited call has returned or failed, or a block-info row is written along
with blocks. -/
inductive Step
  | answered (call : Call) (returned : Bool)
  | wrote (row : BlocksInfo) (blocks : List Block)
  deriving DecidableEq

structure World where
  db : Database
  trace : List Step

/-- What a run meets: the head of the network, at least the safety margin; the answers of the node,
each for the block it was asked for; the setting `tracked_events`; which awaited calls fail, by
their places in the trace; and whether a save that fails was committed all the same. -/
structure Environment (network : Network) where
  head : Int
  lastBlocks_le_head : network.lastBlocks ≤ head
  logs : Int → Int → List Log
  block : Int → Block
  block_number : ∀ n, (block n).number = n
  trackedEvents : Option (List String)
  fails : Nat → Bool
  committed : Bool

/-! ## Blocks and events -/

def range (start stop step : Int) : List Int :=
  (List.range ((stop - start) / step + 1).toNat).map fun i : Nat => start + (i : Int) * step

/-- The pairs that `getEventsPromisesArray` asks for, one for each element of an array. -/
def eventsRanges (toBlock : Int) : List Int → Int → List (Int × Int)
  | [], _ => []
  | _ :: array, firstElement =>
    let toNum :=
      if firstElement + ethBscMigrationStep - 1 > toBlock then toBlock
      else firstElement + ethBscMigrationStep - 1
    (firstElement, toNum) :: eventsRanges toBlock array
      (if firstElement + ethBscMigrationStep > toBlock then toBlock
        else firstElement + ethBscMigrationStep)

def getEventsPromisesArray (fromBlock toBlock : Int) : List (Int × Int) :=
  let loopCount := -((-(toBlock - (fromBlock - 1))) / ethBscMigrationStep)
  let array := if loopCount = 0 then [1] else range 1 loopCount 1
  eventsRanges toBlock array fromBlock

/-- The outcome of `getFromBlockAndToBlockValues`, by the last block of the table. -/
def fromBlockAndToBlock (network : Network) (step head : Int) (dbEventLastBlock : Option Int) :
    Except String (Int × Int) :=
  let actualNetworkLastBlockNum := head - network.lastBlocks
  if dbEventLastBlock = some actualNetworkLastBlockNum then
    .error "Db and network are synchronized!!!"
  else
    let fromBlock := match dbEventLastBlock with
      | some to_block => to_block + 1
      | none => 0
    let toBlock := fromBlock + step
    if toBlock > actualNetworkLastBlockNum then .ok (fromBlock, actualNetworkLastBlockNum)
    else .ok (fromBlock, toBlock)

def getMigrationTransactions (blocks : List Block) (chainId : Nat) : List MigrationTransaction :=
  blocks.flatMap fun block => block.transactions.map fun transaction => {
    hash := transaction.hash
    blockNumber := block.number
    «from» := transaction.from
    «to» := transaction.to
    input := transaction.input
    value := transaction.value
    gas := transaction.gas
    gasPrice := transaction.gasPrice
    index := toString transaction.transactionIndex
    timestamp := toString block.timestamp
    chainId := chainId
    events := [] }

/-- `getAssetEventsArray`, with the setting there. -/
def assetEvents (parsingEventSettings : List String) (eventArray : List Log)
    (blockTransactionObjects : List Block) (chainId : Nat) :
    Except String (List MigrationEvent) :=
  (parsingEventSettings.flatMap fun eventHash =>
    eventArray.filter fun event => event.topics.head? = some eventHash).mapM fun event =>
      match blockTransactionObjects.find? (·.number = event.blockNumber) with
      | some currentBlock => .ok {
          transactionHash := event.transactionHash
          address := event.address
          topic1 := event.topics.headD ""
          topic2 := event.topics[1]?
          topic3 := event.topics[2]?
          topics :=
            if event.topics.length > 3 then
              some ("'" ++ ", ".intercalate (event.topics.drop 3) ++ "'")
            else none
          data := event.data
          blockNumber := event.blockNumber
          blockTimestamp := currentBlock.timestamp
          chainId := chainId
          logIndex := event.logIndex }
      | none => .error "Cannot read property 'timestamp' of undefined"

def emptyResult (fromNum toNum : Int) : String :=
  s!"From {fromNum} to {toNum} blocks there are no log elements"

def successfulResult (length : Nat) : String :=
  s!"Successfully saved to DB {length} log elements"

/-- The row of `getBlockInfoSqlString`. -/
def blocksInfoRow (logsArray : List Log) (fromBlock toBlock : Int) : BlocksInfo where
  fromBlock := fromBlock
  toBlock := toBlock
  information :=
    if logsArray.length ≠ 0 then successfulResult logsArray.length
    else emptyResult fromBlock toBlock

/-- `getBlockInfoSelectString`. -/
def lastToBlock (blocksInfo : List BlocksInfo) : Option Int := (blocksInfo.map (·.toBlock)).max?

/-- The block-info row and the blocks are inserted; a block of the same number is updated. -/
def Database.save (db : Database) (row : BlocksInfo) (blocks : List Block) : Database where
  blocksInfo := db.blocksInfo ++ [row]
  blocks := db.blocks.mset (blocks.map fun block => (block.number, block.timestamp, block.hash))

/-- `MigrationEventServiceResponse`. -/
structure Response where
  blocksInfo : BlocksInfo
  blocks : List Block
  migrationEvents : List MigrationEvent
  migrationTransactions : List MigrationTransaction

/-! ## Runs -/

section
variable {network : Network} (E : Environment network)

/-- The steps of calls with their answers. -/
def answers (results : List (Call × Bool)) : List Step := results.map fun r => .answered r.1 r.2

/-- `await Promise.all`: all calls are made, and it throws when one of them has failed. -/
def all (calls : List Call) : Job World Unit := do
  let world ← get
  let results := calls.mapIdx fun i call => (call, !E.fails (world.trace.length + i))
  set (World.mk world.db (world.trace ++ answers results))
  if results.all (·.2) then pure () else throw "rejected"

def getFromBlockAndToBlockValues (step : Int) : Job World (Int × Int) := do
  all E [.selectToBlock]
  let world ← get
  all E [.blockNumber]
  match fromBlockAndToBlock network step E.head (lastToBlock world.db.blocksInfo) with
  | .ok values => pure values
  | .error e => throw e

def getAssetEventsArray (eventArray : List Log) (blockTransactionObjects : List Block) :
    Job World (List MigrationEvent) := do
  all E [.settings]
  match assetEvents (E.trackedEvents.getD []) eventArray blockTransactionObjects network.chainId with
  | .ok migrationEvents => pure migrationEvents
  | .error e => throw e

def getDataFromNetworkWithBlocksNum (fromBlock toBlock : Int) : Job World Response := do
  let ranges := getEventsPromisesArray fromBlock toBlock
  all E (ranges.map fun r => .pastLogs r.1 r.2)
  let logsArray := ranges.flatMap fun r => E.logs r.1 r.2
  let array := range fromBlock toBlock 1
  all E (array.map .block)
  let blockTransactionObjects := array.map E.block
  let migrationEvents ← getAssetEventsArray E logsArray blockTransactionObjects
  pure {
    blocksInfo := blocksInfoRow logsArray fromBlock toBlock
    blocks := blockTransactionObjects
    migrationEvents := migrationEvents
    migrationTransactions := getMigrationTransactions blockTransactionObjects network.chainId }

def getSqlStringsForDataFromNetwork (step : Int) : Job World Response := do
  let (fromBlock, toBlock) ← getFromBlockAndToBlockValues E step
  getDataFromNetworkWithBlocksNum E fromBlock toBlock

def toField (index length chunkSize : Nat) : Nat :=
  if index + chunkSize > length then length else index + chunkSize

def chunkSize : Nat := 100

/-- The loop by which events and transactions are published. -/
def inChunks (items : List α) (publish : α → Call) : Job World Unit :=
  (List.range ((items.length + chunkSize - 1) / chunkSize)).forM fun n =>
    let i := n * chunkSize
    all E (((items.take (toField i items.length chunkSize)).drop i).map publish)

def sendAssetEventsToQueue (migrationEvents : List MigrationEvent) : Job World Unit :=
  inChunks E migrationEvents .publishTrackedAssetEvent

def sendTransactionEventsToQueue (response : Response) : Job World Unit :=
  inChunks E response.migrationTransactions fun transaction =>
    .publishTransactionWithEvents { transaction with
      events := response.migrationEvents.filter (·.transactionHash = transaction.hash) }

def saveDataToDb (row : BlocksInfo) (blocks : List Block) : Job World Unit := do
  let world ← get
  let failed := E.fails world.trace.length
  if failed && !E.committed then
    set (World.mk world.db (world.trace ++ [.answered .save false]))
    throw "rolled back"
  else
    set (World.mk (world.db.save row blocks)
      (world.trace ++ [.wrote row blocks, .answered .save (!failed)]))
    if failed then throw "connection lost" else pure ()

end

def ethWeb3Migration (step : Int) (E : Environment .eth) : Job World Unit := do
  let ethResponse ← getSqlStringsForDataFromNetwork E step
  sendAssetEventsToQueue E ethResponse.migrationEvents
  sendTransactionEventsToQueue E ethResponse
  saveDataToDb E ethResponse.blocksInfo ethResponse.blocks

def bscWeb3Migration (step : Int) (E : Environment .bsc) : Job World Unit := do
  let bscResponse ← getSqlStringsForDataFromNetwork E step
  sendAssetEventsToQueue E bscResponse.migrationEvents
  sendTransactionEventsToQueue E bscResponse
  saveDataToDb E bscResponse.blocksInfo bscResponse.blocks
  sendAssetEventsToQueue E bscResponse.migrationEvents

/-- A crawler of a network, with its step. -/
structure Crawler where
  network : Network
  step : Int
  step_pos : 0 < step

/-- The tables, and the traces of the runs so far. -/
structure State where
  db : Database
  traces : List (List Step)

namespace Crawler
variable (C : Crawler)

/-- The scheduled job. -/
def migration (E : Environment C.network) : Job World Unit :=
  match C, E with
  | ⟨.eth, step, _⟩, E => ethWeb3Migration step E
  | ⟨.bsc, step, _⟩, E => bscWeb3Migration step E

/-- A scheduled run. What it throws is caught and logged. -/
def scheduled (s : State) (E : Environment C.network) : State :=
  let world := (C.migration E).after ⟨s.db, []⟩
  ⟨world.db, s.traces ++ [world.trace]⟩

/-- Runs one after the other, from an empty database. -/
def crawl (runs : List (Environment C.network)) : State :=
  runs.foldl C.scheduled ⟨⟨[], Store.empty⟩, []⟩

end Crawler

/-! ## Ranges of blocks -/

theorem mem_range_one {start stop n : Int} : n ∈ range start stop 1 ↔ start ≤ n ∧ n ≤ stop := by
  simp only [range, Int.ediv_one, Int.mul_one, List.mem_map, List.mem_range]
  constructor
  · rintro ⟨i, hi, rfl⟩
    omega
  · rintro ⟨hstart, hstop⟩
    exact ⟨(n - start).toNat, by omega, by omega⟩

theorem nodup_range_one (start stop : Int) : (range start stop 1).Nodup := by
  simp only [range, Int.ediv_one, Int.mul_one]
  exact List.Nodup.map (fun i j (h : start + (i : Int) = start + j) => by omega) List.nodup_range

theorem length_range_one (start stop : Int) :
    (range start stop 1).length = (stop - start + 1).toNat := by
  simp [range]

/-- As long as there is one element for each block that is left, each query is for one block. -/
theorem eventsRanges_eq (toBlock : Int) (array : List Int) (firstElement : Int)
    (h : firstElement + array.length = toBlock + 1) :
    eventsRanges toBlock array firstElement =
      (List.range array.length).map fun i : Nat => (firstElement + (i : Int), firstElement + (i : Int)) := by
  induction array generalizing firstElement with
  | nil => rfl
  | cons a array ih =>
    rw [List.length_cons] at h
    push_cast at h
    have hto : ¬ firstElement + ethBscMigrationStep - 1 > toBlock := by
      unfold ethBscMigrationStep; omega
    simp only [eventsRanges, if_neg hto]
    rw [List.length_cons, List.range_succ_eq_map, List.map_cons, List.map_map]
    have hnum : firstElement + ethBscMigrationStep - 1 = firstElement := by
      unfold ethBscMigrationStep; omega
    rw [hnum]
    refine congrArg₂ _ (by simp) ?_
    cases array with
    | nil => rfl
    | cons b array =>
      rw [List.length_cons] at h
      push_cast at h
      have hnext : ¬ firstElement + ethBscMigrationStep > toBlock := by
        unfold ethBscMigrationStep; omega
      rw [if_neg hnext, ih _ (by rw [List.length_cons]; push_cast; unfold ethBscMigrationStep; omega)]
      refine List.map_congr_left fun i _ => ?_
      simp only [Function.comp, ethBscMigrationStep]
      rw [Prod.mk.injEq]
      push_cast
      omega

theorem getEventsPromisesArray_eq {fromBlock toBlock : Int} (h : fromBlock ≤ toBlock) :
    getEventsPromisesArray fromBlock toBlock =
      (range fromBlock toBlock 1).map fun n => (n, n) := by
  have count : -((-(toBlock - (fromBlock - 1))) / ethBscMigrationStep) = toBlock - (fromBlock - 1) := by
    unfold ethBscMigrationStep; omega
  simp only [getEventsPromisesArray, count]
  rw [if_neg (by omega), eventsRanges_eq, length_range_one]
  · simp only [range, Int.ediv_one, Int.mul_one, List.map_map]
    have hlen : toBlock - (fromBlock - 1) - 1 + 1 = toBlock - fromBlock + 1 := by omega
    rw [hlen]
    rfl
  · rw [length_range_one]
    omega

/-- The log queries of a range cover each of its blocks once, and no other. -/
theorem getEventsPromisesArray_covers {fromBlock toBlock : Int} (h : fromBlock ≤ toBlock) (n : Int) :
    ((getEventsPromisesArray fromBlock toBlock).flatMap fun r => range r.1 r.2 1).count n =
      if fromBlock ≤ n ∧ n ≤ toBlock then 1 else 0 := by
  have hone : ∀ n, range n n 1 = [n] := fun n => by simp [range]
  rw [getEventsPromisesArray_eq h, List.flatMap_map]
  simp only [hone, List.flatMap_singleton']
  split
  · next hn => exact List.count_eq_one_of_mem (nodup_range_one ..) (mem_range_one.mpr hn)
  · next hn => exact List.count_eq_zero_of_not_mem fun hmem => hn (mem_range_one.mp hmem)

/-- A range starts after the last block, or at 0. -/
theorem fromBlockAndToBlock_ok {network : Network} {step head : Int} {last : Option Int}
    {values : Int × Int} (hstep : 0 < step) (hhead : network.lastBlocks ≤ head)
    (h : fromBlockAndToBlock network step head last = .ok values) :
    (∃ to_block, last = some to_block ∧ values.1 = to_block + 1 ∧ values.2 ≠ to_block) ∨
      last = none ∧ values.1 = 0 ∧ 0 ≤ values.2 := by
  unfold fromBlockAndToBlock at h
  simp only at h
  split at h
  · cases h
  · next unsynchronized =>
    cases last with
    | none =>
      refine .inr ⟨rfl, ?_⟩
      simp only at h
      split at h <;> obtain rfl := Except.ok.inj h
      · exact ⟨rfl, by simp only; omega⟩
      · exact ⟨rfl, by simp only; omega⟩
    | some to_block =>
      refine .inl ⟨to_block, rfl, ?_⟩
      simp only at h
      split at h <;> obtain rfl := Except.ok.inj h
      · exact ⟨rfl, fun heq => unsynchronized (congrArg some heq.symm)⟩
      · exact ⟨rfl, by simp only; omega⟩

/-! ## What a run does -/

/-- The range of a log query. -/
def Call.range? : Call → Option (Int × Int)
  | .pastLogs fromBlock toBlock => some (fromBlock, toBlock)
  | _ => none

/-- The ranges of the log queries of a trace. -/
def asked (trace : List Step) : List (Int × Int) :=
  trace.filterMap fun
    | .answered call _ => call.range?
    | .wrote _ _ => none

theorem asked_append : asked (trace ++ trace') = asked trace ++ asked trace' := List.filterMap_append

theorem asked_answers (results : List (Call × Bool)) :
    asked (answers results) = (results.map Prod.fst).filterMap Call.range? := by
  rw [asked, answers, List.filterMap_map, List.filterMap_map]
  rfl

theorem not_wrote_answers {results : List (Call × Bool)} : .wrote row blocks ∉ answers results := by
  intro hmem
  obtain ⟨r, -, heq⟩ := List.mem_map.mp hmem
  cases heq

section
variable {network : Network} {E : Environment network} {db : Database} {trace : List Step}

/-- All calls are made; when one fails the job throws. -/
theorem all_ends (calls : List Call) :
    Ends (all E calls) ⟨db, trace⟩
      (fun _ w => w = ⟨db, trace ++ answers (calls.map (·, true))⟩)
      (fun w => ∃ results, results.map Prod.fst = calls ∧ (∃ r ∈ results, r.2 = false) ∧
        w = ⟨db, trace ++ answers results⟩) := by
  unfold all
  refine .get ?_
  generalize hresults :
    calls.mapIdx (fun i call => (call, !E.fails (trace.length + i))) = results
  have hcalls : results.map Prod.fst = calls := by
    rw [← hresults]
    exact List.ext_getElem (by simp) fun i _ _ => by simp
  refine .set (.ite (fun hall => .pure ?_) fun hfailed => .throw ⟨results, hcalls, ?_, rfl⟩)
  · have hreturned : results = calls.map (·, true) := by
      rw [← hcalls, List.map_map]
      exact (List.map_id results).symm.trans <| List.map_congr_left fun r hr =>
        Prod.ext rfl (List.all_eq_true.mp hall r hr)
    rw [hreturned]
  · simpa using hfailed

theorem call_ends (call : Call) :
    Ends (all E [call]) ⟨db, trace⟩ (fun _ w => w = ⟨db, trace ++ answers [(call, true)]⟩)
      (fun w => w = ⟨db, trace ++ answers [(call, false)]⟩) := by
  refine (all_ends [call]).mono (fun _ _ => id) ?_
  rintro w ⟨results, hcalls, ⟨r, hr, hfailed⟩, rfl⟩
  cases results with
  | nil => cases hr
  | cons r' results =>
    obtain ⟨rfl, hnil⟩ := List.cons.inj hcalls
    rw [List.map_eq_nil_iff] at hnil
    subst hnil
    rw [List.mem_singleton.mp hr] at hfailed
    rw [← hfailed]

/-- The calls that gather a range, up to the blocks. -/
def rangeCalls (values : Int × Int) : List Call :=
  [.selectToBlock, .blockNumber] ++
    (getEventsPromisesArray values.1 values.2).map (fun r => .pastLogs r.1 r.2)

/-- The calls that gather a range. -/
def gatherCalls (values : Int × Int) : List Call :=
  rangeCalls values ++ (range values.1 values.2 1).map .block ++ [.settings]

/-- The answer of the node to the log queries of a range. -/
def rangeLogs (E : Environment network) (values : Int × Int) : List Log :=
  (getEventsPromisesArray values.1 values.2).flatMap fun r => E.logs r.1 r.2

/-- The response of a run for a range. -/
structure Gathers (E : Environment network) (values : Int × Int) (response : Response) : Prop where
  blocksInfo : response.blocksInfo = blocksInfoRow (rangeLogs E values) values.1 values.2
  blocks : response.blocks = (range values.1 values.2 1).map E.block
  migrationEvents : assetEvents (E.trackedEvents.getD []) (rangeLogs E values)
    response.blocks network.chainId = .ok response.migrationEvents

/-- The log queries are those of the range, as soon as it is known. -/
def AsksRange (E : Environment network) (step : Int) (last : Option Int) (trace : List Step) :
    Prop :=
  ∀ values, fromBlockAndToBlock network step E.head last = .ok values →
    .answered .blockNumber true ∈ trace → asked trace = getEventsPromisesArray values.1 values.2

/-- A run that fails before it saves has written nothing. -/
structure Abandoned (E : Environment network) (step : Int) (db : Database) (w : World) : Prop where
  db_eq : w.db = db
  not_wrote : ∀ row blocks, .wrote row blocks ∉ w.trace
  asks : AsksRange E step (lastToBlock db.blocksInfo) w.trace

theorem asked_rangeCalls (values : Int × Int) :
    (rangeCalls values).filterMap Call.range? = getEventsPromisesArray values.1 values.2 := by
  rw [rangeCalls, List.filterMap_append, List.filterMap_map]
  exact List.filterMap_some

/-- Answers to the calls for a range and then to others that do not ask for logs. -/
theorem abandoned_of_results {step : Int} {values : Int × Int}
    (hvalues : fromBlockAndToBlock network step E.head (lastToBlock db.blocksInfo) = .ok values)
    (later : List Call) {results : List (Call × Bool)}
    (hresults : results.map Prod.fst = rangeCalls values ++ later)
    (hlater : ∀ call ∈ later, call.range? = none) :
    Abandoned E step db ⟨db, answers results⟩ := by
  refine ⟨rfl, fun _ _ => not_wrote_answers, fun values' hvalues' _ => ?_⟩
  rw [hvalues] at hvalues'
  cases hvalues'
  rw [asked_answers, hresults, List.filterMap_append, asked_rangeCalls,
    List.filterMap_eq_nil_iff.mpr hlater, List.append_nil]

theorem getFromBlockAndToBlockValues_ends (step : Int) :
    Ends (getFromBlockAndToBlockValues E step) ⟨db, []⟩
      (fun values w => fromBlockAndToBlock network step E.head (lastToBlock db.blocksInfo) =
          .ok values ∧ w = ⟨db, answers [(.selectToBlock, true), (.blockNumber, true)]⟩)
      (Abandoned E step db) := by
  refine ((call_ends .selectToBlock).mono (fun _ _ => id) ?_).bind ?_
  · rintro w rfl
    exact ⟨rfl, fun _ _ => not_wrote_answers, fun _ _ hmem => by simp [answers] at hmem⟩
  · rintro - w rfl
    refine .get (((call_ends .blockNumber).mono (fun _ _ => id) ?_).bind ?_)
    · rintro w rfl
      exact ⟨rfl, fun _ _ => by simp [answers], fun _ _ hmem => by simp [answers] at hmem⟩
    · rintro - w rfl
      simp only
      cases h : fromBlockAndToBlock network step E.head (lastToBlock db.blocksInfo) with
      | ok values => exact .pure ⟨rfl, rfl⟩
      | error e =>
        refine .throw ⟨rfl, fun _ _ => by simp [answers], fun values hvalues => ?_⟩
        rw [h] at hvalues
        cases hvalues

/-- The calls after the log queries do not ask for logs. -/
theorem range?_of_later (h : call ∈ (range start stop 1).map Call.block ∨ call = .settings) :
    call.range? = none := by
  rcases h with h | rfl
  · obtain ⟨n, -, rfl⟩ := List.mem_map.mp h
    rfl
  · rfl

theorem returned_fst (calls : List Call) : (calls.map (·, true)).map Prod.fst = calls := by
  rw [List.map_map]
  exact List.map_id _

theorem answers_append (results results' : List (Call × Bool)) :
    answers results ++ answers results' = answers (results ++ results') := List.map_append.symm

theorem getAssetEventsArray_ends (eventArray : List Log) (blocks : List Block) :
    Ends (getAssetEventsArray E eventArray blocks) ⟨db, trace⟩
      (fun migrationEvents w =>
        assetEvents (E.trackedEvents.getD []) eventArray blocks network.chainId =
          .ok migrationEvents ∧ w = ⟨db, trace ++ answers [(.settings, true)]⟩)
      (fun w => ∃ returned, w = ⟨db, trace ++ answers [(.settings, returned)]⟩) := by
  refine ((call_ends .settings).mono (fun _ _ => id) fun w hw => ⟨false, hw⟩).bind ?_
  rintro - w rfl
  cases assetEvents (E.trackedEvents.getD []) eventArray blocks network.chainId with
  | ok migrationEvents => exact .pure ⟨rfl, rfl⟩
  | error e => exact .throw ⟨true, rfl⟩

theorem getDataFromNetworkWithBlocksNum_ends {step : Int} {values : Int × Int}
    (hvalues : fromBlockAndToBlock network step E.head (lastToBlock db.blocksInfo) = .ok values) :
    Ends (getDataFromNetworkWithBlocksNum E values.1 values.2)
      ⟨db, answers [(.selectToBlock, true), (.blockNumber, true)]⟩
      (fun response w => Gathers E values response ∧
        w = ⟨db, answers ((gatherCalls values).map (·, true))⟩)
      (Abandoned E step db) := by
  unfold getDataFromNetworkWithBlocksNum
  refine ((all_ends _).mono (fun _ _ => id) ?_).bind ?_
  · rintro w ⟨results, hresults, -, rfl⟩
    rw [answers_append]
    refine abandoned_of_results hvalues [] ?_ (fun _ hcall => by cases hcall)
    rw [List.map_append, hresults, List.append_nil]
    rfl
  rintro - w rfl
  refine ((all_ends _).mono (fun _ _ => id) ?_).bind ?_
  · rintro w ⟨results, hresults, -, rfl⟩
    rw [answers_append, answers_append]
    refine abandoned_of_results hvalues ((range values.1 values.2 1).map .block) ?_
      fun call hcall => range?_of_later (.inl hcall)
    rw [List.map_append, List.map_append, hresults, returned_fst]
    rfl
  rintro - w rfl
  refine ((getAssetEventsArray_ends _ _).mono (fun _ _ => id) ?_).bind ?_
  · rintro w ⟨returned, rfl⟩
    rw [answers_append, answers_append, answers_append]
    refine abandoned_of_results hvalues ((range values.1 values.2 1).map .block ++ [.settings])
      ?_ fun call hcall =>
        range?_of_later ((List.mem_append.mp hcall).imp id List.mem_singleton.mp)
    rw [List.map_append, List.map_append, List.map_append, returned_fst, returned_fst,
      ← List.append_assoc]
    rfl
  · rintro migrationEvents w ⟨hevents, rfl⟩
    refine .pure ⟨⟨rfl, rfl, hevents⟩, ?_⟩
    rw [answers_append, answers_append, answers_append, gatherCalls, rangeCalls, List.map_append,
      List.map_append, List.map_append]
    rfl

theorem getSqlStringsForDataFromNetwork_ends (step : Int) :
    Ends (getSqlStringsForDataFromNetwork E step) ⟨db, []⟩
      (fun response w => ∃ values,
        fromBlockAndToBlock network step E.head (lastToBlock db.blocksInfo) = .ok values ∧
        Gathers E values response ∧ w = ⟨db, answers ((gatherCalls values).map (·, true))⟩)
      (Abandoned E step db) := by
  refine (getFromBlockAndToBlockValues_ends step).bind ?_
  rintro values w ⟨hvalues, rfl⟩
  exact (getDataFromNetworkWithBlocksNum_ends hvalues).mono
    (fun _ _ h => ⟨values, hvalues, h⟩) fun _ => id

theorem take_append_chunk (items : List α) (i : Nat) :
    items.take i ++ (items.take (toField i items.length chunkSize)).drop i =
      items.take (i + chunkSize) := by
  have htake : items.take (toField i items.length chunkSize) = items.take (i + chunkSize) := by
    unfold toField
    split
    · rw [List.take_length, List.take_of_length_le (by omega)]
    · rfl
  have hi : items.take i = (items.take (i + chunkSize)).take i := by
    rw [List.take_take, Nat.min_eq_left (by omega)]
  rw [htake, hi, List.take_append_drop]

/-- The loop publishes all items in order, or throws after answers to some. -/
theorem inChunks_ends (items : List α) (publish : α → Call) :
    Ends (inChunks E items publish) ⟨db, trace⟩
      (fun _ w => w = ⟨db, trace ++ answers ((items.map publish).map (·, true))⟩)
      (fun w => ∃ results, (∀ r ∈ results, ∃ a ∈ items, r.1 = publish a) ∧
        w = ⟨db, trace ++ answers results⟩) := by
  have h := Ends.forM (E := fun w => ∃ results, (∀ r ∈ results, ∃ a ∈ items, r.1 = publish a) ∧
      w = ⟨db, trace ++ answers results⟩)
    (l := List.range ((items.length + chunkSize - 1) / chunkSize))
    (f := fun n => all E (((items.take (toField (n * chunkSize) items.length chunkSize)).drop
      (n * chunkSize)).map publish))
    (I := fun done w => w = ⟨db, trace ++
      answers (((items.take (done.length * chunkSize)).map publish).map (·, true))⟩)
    (s := ⟨db, trace⟩) (by simp [answers]) ?_
  · refine h.mono (fun _ w hw => ?_) fun _ => id
    rw [hw, List.length_range, List.take_of_length_le]
    unfold chunkSize
    omega
  · rintro done n rest w hl rfl
    have hn : n = done.length := by
      have hget := congrArg (·[done.length]?) hl
      simp only [List.getElem?_append_right (Nat.le_refl _), Nat.sub_self,
        List.getElem?_cons_zero] at hget
      obtain ⟨hlt, heq⟩ := List.getElem?_eq_some_iff.mp hget
      rw [← heq, List.getElem_range]
    subst hn
    refine (all_ends _).mono (fun _ w hw => ?_) ?_
    · rw [hw, List.append_assoc, answers_append, ← List.map_append, ← List.map_append,
        take_append_chunk, List.length_append, List.length_singleton, Nat.succ_mul]
    · rintro w ⟨results, hresults, -, rfl⟩
      refine ⟨_, fun r hr => ?_, by rw [List.append_assoc, answers_append]⟩
      rcases List.mem_append.mp hr with hr | hr
      · obtain ⟨call, hcall, rfl⟩ := List.mem_map.mp hr
        obtain ⟨a, ha, rfl⟩ := List.mem_map.mp hcall
        exact ⟨a, List.mem_of_mem_take ha, rfl⟩
      · have hcall : r.1 ∈ results.map Prod.fst := List.mem_map_of_mem hr
        rw [hresults] at hcall
        obtain ⟨a, ha, heq⟩ := List.mem_map.mp hcall
        exact ⟨a, List.mem_of_mem_take (List.mem_of_mem_drop ha), heq.symm⟩

theorem saveDataToDb_ends (row : BlocksInfo) (blocks : List Block) :
    Ends (saveDataToDb E row blocks) ⟨db, trace⟩
      (fun _ w => w = ⟨db.save row blocks, trace ++ [.wrote row blocks, .answered .save true]⟩)
      (fun w => w = ⟨db, trace ++ [.answered .save false]⟩ ∨
        w = ⟨db.save row blocks, trace ++ [.wrote row blocks, .answered .save false]⟩) := by
  unfold saveDataToDb
  refine .get (.ite (fun _ => .set (.throw (.inl rfl))) fun _ => .set (.ite (fun h => ?_) fun h => ?_))
  · exact .throw (.inr (by rw [h]; rfl))
  · exact .pure (by rw [Bool.eq_false_iff.mpr h]; rfl)

/-- What a run publishes before it saves. -/
def publishCalls (response : Response) : List Call :=
  response.migrationEvents.map .publishTrackedAssetEvent ++
    response.migrationTransactions.map fun transaction => .publishTransactionWithEvents {
      transaction with
      events := response.migrationEvents.filter (·.transactionHash = transaction.hash) }

/-- What a run does before it saves. -/
def callsBefore (values : Int × Int) (response : Response) : List Call :=
  gatherCalls values ++ publishCalls response

theorem range?_publishCalls : ∀ call ∈ publishCalls response, call.range? = none := by
  intro call hcall
  rcases List.mem_append.mp hcall with hcall | hcall
  · obtain ⟨e, -, rfl⟩ := List.mem_map.mp hcall
    rfl
  · obtain ⟨t, -, rfl⟩ := List.mem_map.mp hcall
    rfl

/-- A run that is given up after it has gathered its range. -/
theorem abandoned_of_gathered {step : Int} {values : Int × Int}
    (hvalues : fromBlockAndToBlock network step E.head (lastToBlock db.blocksInfo) = .ok values)
    {results : List (Call × Bool)} (hresults : ∀ r ∈ results, r.1.range? = none) :
    Abandoned E step db ⟨db, answers ((gatherCalls values).map (·, true)) ++ answers results⟩ := by
  rw [answers_append]
  refine abandoned_of_results hvalues ((range values.1 values.2 1).map .block ++
    ([.settings] ++ results.map Prod.fst)) ?_ fun call hcall => ?_
  · rw [List.map_append, returned_fst, gatherCalls]
    simp only [List.append_assoc]
  · rcases List.mem_append.mp hcall with hcall | hcall
    · exact range?_of_later (.inl hcall)
    · rcases List.mem_append.mp hcall with hcall | hcall
      · rw [List.mem_singleton.mp hcall]
        rfl
      · obtain ⟨r, hr, rfl⟩ := List.mem_map.mp hcall
        exact hresults r hr

/-- Events, transactions and the save, and what comes after them. -/
theorem publish_ends {step : Int} {values : Int × Int} {Q : World → Prop}
    (response : Response) (rest : Job World Unit)
    (hvalues : fromBlockAndToBlock network step E.head (lastToBlock db.blocksInfo) = .ok values)
    (abandoned : ∀ w, Abandoned E step db w → Q w)
    (lost : Q ⟨db.save response.blocksInfo response.blocks,
      answers ((callsBefore values response).map (·, true)) ++
        [.wrote response.blocksInfo response.blocks, .answered .save false]⟩)
    (hrest : Ends rest ⟨db.save response.blocksInfo response.blocks,
      answers ((callsBefore values response).map (·, true)) ++
        [.wrote response.blocksInfo response.blocks, .answered .save true]⟩ (fun _ => Q) Q) :
    Ends (do
      sendAssetEventsToQueue E response.migrationEvents
      sendTransactionEventsToQueue E response
      saveDataToDb E response.blocksInfo response.blocks
      rest) ⟨db, answers ((gatherCalls values).map (·, true))⟩ (fun _ => Q) Q := by
  refine ((inChunks_ends _ _).mono (fun _ _ => id) ?_).bind ?_
  · rintro w ⟨results, hresults, rfl⟩
    refine abandoned _ (abandoned_of_gathered hvalues fun r hr => ?_)
    obtain ⟨e, -, he⟩ := hresults r hr
    rw [he]
    rfl
  rintro - w rfl
  refine ((inChunks_ends _ _).mono (fun _ _ => id) ?_).bind ?_
  · rintro w ⟨results, hresults, rfl⟩
    rw [List.append_assoc, answers_append]
    refine abandoned _ (abandoned_of_gathered hvalues fun r hr => ?_)
    rcases List.mem_append.mp hr with hr | hr
    · obtain ⟨call, hcall, rfl⟩ := List.mem_map.mp hr
      exact @range?_publishCalls response call (List.mem_append_left _ hcall)
    · obtain ⟨t, -, ht⟩ := hresults r hr
      rw [ht]
      rfl
  rintro - w rfl
  have hbefore : answers ((gatherCalls values).map (·, true)) ++
      answers ((response.migrationEvents.map Call.publishTrackedAssetEvent).map (·, true)) ++
      answers ((response.migrationTransactions.map fun transaction =>
        Call.publishTransactionWithEvents { transaction with
          events := response.migrationEvents.filter (·.transactionHash = transaction.hash) }).map
            (·, true)) = answers ((callsBefore values response).map (·, true)) := by
    rw [answers_append, answers_append, callsBefore, publishCalls, List.map_append, List.map_append,
      List.append_assoc]
  rw [hbefore]
  refine ((saveDataToDb_ends _ _).mono (fun _ _ => id) ?_).bind ?_
  · rintro w (rfl | rfl)
    · rw [callsBefore, List.map_append, ← answers_append, List.append_assoc]
      change Q ⟨db, _ ++ (_ ++ answers [(.save, false)])⟩
      rw [answers_append]
      refine abandoned _ (abandoned_of_gathered hvalues fun r hr => ?_)
      rcases List.mem_append.mp hr with hr | hr
      · obtain ⟨call, hcall, rfl⟩ := List.mem_map.mp hr
        exact range?_publishCalls call hcall
      · rw [List.mem_singleton.mp hr]
        rfl
    · exact lost
  · rintro - w rfl
    exact hrest

/-- A run that saves its range. `results` are the answers to what it publishes after that: nothing
for Ethereum, the events again for BSC. -/
structure Saves (E : Environment network) (step : Int) (db : Database) (values : Int × Int)
    (response : Response) (results : List (Call × Bool)) : Prop where
  values_eq : fromBlockAndToBlock network step E.head (lastToBlock db.blocksInfo) = .ok values
  gathers : Gathers E values response
  again : ∀ r ∈ results, ∃ e ∈ response.migrationEvents, r.1 = .publishTrackedAssetEvent e
  eth : network = .eth → results = []

/-- How a run ends: given up with nothing written, or saved with everything published before. -/
inductive Outcome (E : Environment network) (step : Int) (db : Database) : World → Prop
  | abandoned : Abandoned E step db w → Outcome E step db w
  | saved (values : Int × Int) (response : Response) (returned : Bool)
      (results : List (Call × Bool)) :
    Saves E step db values response results →
    Outcome E step db ⟨db.save response.blocksInfo response.blocks,
      answers ((callsBefore values response).map (·, true)) ++
        .wrote response.blocksInfo response.blocks :: .answered .save returned :: answers results⟩

end

theorem ethWeb3Migration_ends (step : Int) (E : Environment .eth) (db : Database) :
    Ends (ethWeb3Migration step E) ⟨db, []⟩ (fun _ => Outcome E step db) (Outcome E step db) := by
  refine (getSqlStringsForDataFromNetwork_ends step).mono (fun _ _ => id) (fun _ => .abandoned)
    |>.bind ?_
  rintro response w ⟨values, hvalues, gathers, rfl⟩
  have saved : ∀ returned, Outcome E step db _ := fun returned =>
    .saved values response returned [] ⟨hvalues, gathers, (fun r hr => by cases hr), fun _ => rfl⟩
  have h := publish_ends response (pure ()) hvalues
    (fun w => Outcome.abandoned (w := w)) (saved false) (.pure (saved true))
  rwa [bind_pure] at h

theorem bscWeb3Migration_ends (step : Int) (E : Environment .bsc) (db : Database) :
    Ends (bscWeb3Migration step E) ⟨db, []⟩ (fun _ => Outcome E step db) (Outcome E step db) := by
  refine (getSqlStringsForDataFromNetwork_ends step).mono (fun _ _ => id) (fun _ => .abandoned)
    |>.bind ?_
  rintro response w ⟨values, hvalues, gathers, rfl⟩
  have saved : ∀ returned (results : List (Call × Bool)), (∀ r ∈ results,
      ∃ e ∈ response.migrationEvents, r.1 = .publishTrackedAssetEvent e) →
      Outcome E step db _ := fun returned results hresults =>
    .saved values response returned results ⟨hvalues, gathers, hresults, fun h => nomatch h⟩
  refine publish_ends response _ hvalues (fun w => Outcome.abandoned (w := w))
    (saved false [] fun r hr => by cases hr) ?_
  -- the events are published once more, after the save
  refine (inChunks_ends response.migrationEvents .publishTrackedAssetEvent).mono ?_ ?_
  · rintro - w rfl
    rw [List.append_assoc]
    refine saved true _ fun r hr => ?_
    obtain ⟨call, hcall, rfl⟩ := List.mem_map.mp hr
    obtain ⟨e, he, rfl⟩ := List.mem_map.mp hcall
    exact ⟨e, he, rfl⟩
  · rintro w ⟨results, hresults, rfl⟩
    rw [List.append_assoc]
    exact saved true results hresults

theorem Crawler.migration_ends (C : Crawler) (E : Environment C.network) (db : Database) :
    Outcome E C.step db ((C.migration E).after ⟨db, []⟩) := by
  obtain ⟨network, step, step_pos⟩ := C
  cases network with
  | eth => exact (ethWeb3Migration_ends step E db).after
  | bsc => exact (bscWeb3Migration_ends step E db).after

/-! ## No block is skipped -/

/-- A call that publishes. -/
def Call.publishes : Call → Bool
  | .publishTrackedAssetEvent _ => true
  | .publishTransactionWithEvents _ => true
  | _ => false

/-- A block was stored by a run, with the row for its range: before that, the logs of the range had
been queried and all that was published had returned. `post` is the rest of the run. -/
def StoredBy (trace : List Step) (n : Int) (post : List Step) : Prop :=
  ∃ pre row blocks, trace = pre ++ .wrote row blocks :: post ∧
    row.fromBlock ≤ n ∧ n ≤ row.toBlock ∧ (∃ block ∈ blocks, block.number = n) ∧
    (∀ m, row.fromBlock ≤ m → m ≤ row.toBlock →
      ∃ r : Int × Int, .answered (.pastLogs r.1 r.2) true ∈ pre ∧ r.1 ≤ m ∧ m ≤ r.2) ∧
    ∀ call returned, .answered call returned ∈ pre → call.publishes → returned = true

/-- Each block up to the last one of the table is there, and was stored by a run whose rest has the
property `K`. -/
def Covered (K : List Step → Prop) (s : State) : Prop :=
  ∀ last, lastToBlock s.db.blocksInfo = some last → ∀ n, 0 ≤ n → n ≤ last →
    (s.db.blocks n).isSome ∧ ∃ trace ∈ s.traces, ∃ post, StoredBy trace n post ∧ K post

theorem lastToBlock_append {rows : List BlocksInfo} {row : BlocksInfo} {last : Int}
    (h : lastToBlock (rows ++ [row]) = some last) :
    last = row.toBlock ∨ lastToBlock rows = some last := by
  unfold lastToBlock at h ⊢
  rw [List.map_append, List.max?_eq_some_iff] at h
  obtain ⟨hmem, hle⟩ := h
  rcases List.mem_append.mp hmem with hmem | hmem
  · exact .inr (List.max?_eq_some_iff.mpr
      ⟨hmem, fun b hb => hle b (List.mem_append_left _ hb)⟩)
  · exact .inl (List.mem_singleton.mp hmem)

theorem storedBy_of_saves {network : Network} {E : Environment network} {step : Int} {db : Database}
    {values : Int × Int} {response : Response} (h : Saves E step db values response results) {n : Int}
    (hfrom : values.1 ≤ n) (hto : n ≤ values.2) (post : List Step) :
    StoredBy (answers ((callsBefore values response).map (·, true)) ++
      .wrote response.blocksInfo response.blocks :: post) n post := by
  refine ⟨_, _, _, rfl, ?_, ?_, ?_, ?_, ?_⟩
  · rw [h.gathers.blocksInfo]
    exact hfrom
  · rw [h.gathers.blocksInfo]
    exact hto
  · rw [h.gathers.blocks]
    exact ⟨E.block n, List.mem_map_of_mem (mem_range_one.mpr ⟨hfrom, hto⟩), E.block_number n⟩
  · rw [h.gathers.blocksInfo]
    intro m (hfrom : values.1 ≤ m) (hto : m ≤ values.2)
    refine ⟨(m, m), ?_, Int.le_refl m, Int.le_refl m⟩
    have hmem : Call.pastLogs m m ∈ callsBefore values response := by
      refine List.mem_append_left _ (List.mem_append_left _ (List.mem_append_left _
        (List.mem_append_right _ (List.mem_map.mpr ⟨(m, m), ?_, rfl⟩))))
      rw [getEventsPromisesArray_eq (Int.le_trans hfrom hto)]
      exact List.mem_map_of_mem (mem_range_one.mpr ⟨hfrom, hto⟩)
    exact List.mem_map_of_mem (List.mem_map_of_mem hmem)
  · intro call returned hmem _
    obtain ⟨r, hr, heq⟩ := List.mem_map.mp hmem
    obtain ⟨call', -, rfl⟩ := List.mem_map.mp hr
    cases heq
    rfl

/-- What a run does for the coverage. -/
theorem covered_scheduled {C : Crawler} {s : State} {E : Environment C.network}
    {K : List Step → Prop} (h : Covered K s)
    (hK : ∀ values response returned results, Saves E C.step s.db values response results →
      K (.answered .save returned :: answers results)) : Covered K (C.scheduled s E) := by
  have outcome := C.migration_ends E s.db
  unfold Crawler.scheduled
  generalize (C.migration E).after ⟨s.db, []⟩ = w at outcome
  have old : ∀ {n}, (∃ trace ∈ s.traces, ∃ post, StoredBy trace n post ∧ K post) →
      ∃ trace ∈ s.traces ++ [w.trace], ∃ post, StoredBy trace n post ∧ K post :=
    fun ⟨trace, htrace, hpost⟩ => ⟨trace, List.mem_append_left _ htrace, hpost⟩
  intro last hlast n hn hle
  cases outcome with
  | abandoned abandoned =>
    simp only [abandoned.db_eq] at hlast ⊢
    exact ⟨(h last hlast n hn hle).1, old (h last hlast n hn hle).2⟩
  | saved values response returned results saves =>
    simp only [Database.save] at hlast ⊢
    have new : values.1 ≤ n → n ≤ values.2 →
        ((s.db.blocks.mset (response.blocks.map
            fun block => (block.number, block.timestamp, block.hash))) n).isSome ∧
          ∃ trace ∈ s.traces ++ [answers ((callsBefore values response).map (·, true)) ++
              .wrote response.blocksInfo response.blocks ::
                .answered .save returned :: answers results],
            ∃ post, StoredBy trace n post ∧ K post := by
      intro hfrom hto
      refine ⟨?_, _, List.mem_append_right _ List.mem_cons_self, _,
        storedBy_of_saves saves hfrom hto _, hK values response returned results saves⟩
      have hmem : E.block n ∈ response.blocks := by
        rw [saves.gathers.blocks]
        exact List.mem_map_of_mem (mem_range_one.mpr ⟨hfrom, hto⟩)
      obtain ⟨v, hv, -⟩ := s.db.blocks.mset_of_mem (List.mem_map_of_mem
        (f := fun block : Block => (block.number, block.timestamp, block.hash)) hmem)
      rw [E.block_number n] at hv
      rw [hv]
      rfl
    have kept : ∀ last, lastToBlock s.db.blocksInfo = some last → n ≤ last →
        ((s.db.blocks.mset (response.blocks.map
            fun block => (block.number, block.timestamp, block.hash))) n).isSome ∧ _ :=
      fun last hlast hle => ⟨Store.isSome_mset (h last hlast n hn hle).1, old (h last hlast n hn hle).2⟩
    have hrow : response.blocksInfo.toBlock = values.2 := by rw [saves.gathers.blocksInfo]; rfl
    rcases fromBlockAndToBlock_ok C.step_pos E.lastBlocks_le_head saves.values_eq with
      ⟨to_block, hdb, hfrom, -⟩ | ⟨hdb, hfrom, -⟩
    · by_cases hnew : n ≤ to_block
      · exact kept to_block hdb hnew
      · rcases lastToBlock_append hlast with rfl | hold
        · exact new (by omega) (by omega)
        · rw [hdb] at hold
          obtain rfl := Option.some.inj hold
          exact absurd hle hnew
    · rcases lastToBlock_append hlast with rfl | hold
      · exact new (by omega) (by omega)
      · rw [hdb] at hold
        cases hold

/-- The log queries of a run are those of its range. -/
theorem asksRange_of_outcome {network : Network} {E : Environment network} {step : Int}
    {db : Database} {w : World} (h : Outcome E step db w) :
    AsksRange E step (lastToBlock db.blocksInfo) w.trace := by
  cases h with
  | abandoned abandoned => exact abandoned.asks
  | saved values response returned results saves =>
    intro values' hvalues' _
    rw [saves.values_eq] at hvalues'
    cases hvalues'
    have hlater : asked (.wrote response.blocksInfo response.blocks ::
        .answered .save returned :: answers results) = [] := by
      change asked (answers results) = []
      rw [asked_answers]
      refine List.filterMap_eq_nil_iff.mpr fun call hcall => ?_
      obtain ⟨r, hr, rfl⟩ := List.mem_map.mp hcall
      obtain ⟨e, -, he⟩ := saves.again r hr
      rw [he]
      rfl
    rw [asked_append, hlater, List.append_nil, asked_answers, returned_fst, callsBefore,
      List.filterMap_append, List.filterMap_eq_nil_iff.mpr range?_publishCalls, gatherCalls,
      List.filterMap_append, List.filterMap_append, asked_rangeCalls,
      List.filterMap_eq_nil_iff.mpr fun call hcall => range?_of_later (.inl hcall)]
    simp [Call.range?]

namespace Crawler
variable (C : Crawler)

theorem crawl_append (runs : List (Environment C.network)) (E : Environment C.network) :
    C.crawl (runs ++ [E]) = C.scheduled (C.crawl runs) E := by
  rw [crawl, List.foldl_append]
  rfl

/-- Runs that do for the coverage what their condition says keep it. -/
theorem covered_crawl {K : List Step → Prop} (runs : List (Environment C.network))
    (hK : ∀ done E, done ++ [E] <+: runs → ∀ values response returned results,
      Saves E C.step (C.crawl done).db values response results →
        K (.answered .save returned :: answers results)) : Covered K (C.crawl runs) := by
  induction runs using List.reverseRecOn with
  | nil => exact fun last hlast => by cases hlast
  | append_singleton runs E ih =>
    rw [crawl_append]
    exact covered_scheduled
      (ih fun done E' h => hK done E' (h.trans (List.prefix_append runs [E])))
      (hK runs E List.prefix_rfl)

/-- After any runs each block up to the last one of the table is there, and was stored by a run for
whose range all logs were queried, and which had published everything before. -/
theorem crawl_covered (runs : List (Environment C.network)) :
    Covered (fun _ => True) (C.crawl runs) :=
  C.covered_crawl runs fun _ _ _ _ _ _ _ _ => trivial

/-- Nothing is published in the rest of a run. -/
def PublishesNothing (post : List Step) : Prop :=
  ∀ call returned, .answered call returned ∈ post → call.publishes = false

/-- As soon as a run knows its range, and the range is not empty, its log queries cover each block
of the range once, and no other. -/
def AsksExactly (s : State) (E : Environment C.network) : Prop :=
  let trace := ((C.migration E).after ⟨s.db, []⟩).trace
  ∀ values, fromBlockAndToBlock C.network C.step E.head (lastToBlock s.db.blocksInfo) = .ok values →
    values.1 ≤ values.2 → .answered .blockNumber true ∈ trace →
      ∀ n, ((asked trace).flatMap fun r => range r.1 r.2 1).count n =
        if values.1 ≤ n ∧ n ≤ values.2 then 1 else 0

/-- After every prefix of the runs no block was skipped: each one up to the last one of the table
was stored by a run that had queried the logs of its range and published all that it ever
published. -/
structure NeverSkips (runs : List (Environment C.network)) : Prop where
  covered : ∀ done, done <+: runs → Covered PublishesNothing (C.crawl done)
  asksExactly : ∀ done E, done ++ [E] <+: runs → C.AsksExactly (C.crawl done) E

/-- A run of Ethereum, or one with no tracked event among the logs of its range. -/
def Quiet (s : State) (E : Environment C.network) : Prop :=
  C.network = .eth ∨
    ∀ values, fromBlockAndToBlock C.network C.step E.head (lastToBlock s.db.blocksInfo) = .ok values →
      ∀ log ∈ rangeLogs E values, ∀ eventHash ∈ E.trackedEvents.getD [],
        log.topics.head? ≠ some eventHash

theorem asksExactly (s : State) (E : Environment C.network) : C.AsksExactly s E := by
  intro values hvalues hle hmem n
  rw [asksRange_of_outcome (C.migration_ends E s.db) values hvalues hmem]
  exact getEventsPromisesArray_covers hle n

theorem assetEvents_of_untracked {settings : List String} {logs : List Log}
    (h : ∀ log ∈ logs, ∀ eventHash ∈ settings, log.topics.head? ≠ some eventHash) :
    assetEvents settings logs blocks chainId = .ok [] := by
  have hnil : (settings.flatMap fun eventHash =>
      logs.filter fun event => event.topics.head? = some eventHash) = [] := by
    refine List.flatMap_eq_nil_iff.mpr fun eventHash hhash => List.filter_eq_nil_iff.mpr
      fun log hlog => ?_
    simpa using h log hlog eventHash hhash
  rw [assetEvents, hnil]
  rfl

/-- A quiet run publishes nothing after its save. -/
theorem publishesNothing_of_quiet {s : State} {E : Environment C.network} (quiet : C.Quiet s E)
    (saves : Saves E C.step s.db values response results) :
    PublishesNothing (.answered .save returned :: answers results) := by
  have hresults : results = [] := by
    rcases quiet with eth | untracked
    · exact saves.eth eth
    · have hevents := saves.gathers.migrationEvents
      rw [assetEvents_of_untracked (untracked values saves.values_eq)] at hevents
      have hnil : response.migrationEvents = [] := (Except.ok.inj hevents).symm
      refine List.eq_nil_iff_forall_not_mem.mpr fun r hr => ?_
      obtain ⟨e, he, -⟩ := saves.again r hr
      rw [hnil] at he
      cases he
  subst hresults
  intro call returned' hmem
  cases List.mem_singleton.mp hmem
  rfl

/-- The crawler never skips a block when all its runs are quiet. -/
theorem neverSkips_of_quiet (runs : List (Environment C.network))
    (quiet : ∀ done E, done ++ [E] <+: runs → C.Quiet (C.crawl done) E) : C.NeverSkips runs where
  covered done hdone := C.covered_crawl done fun done' E h _ _ _ _ =>
    C.publishesNothing_of_quiet (quiet done' E (h.trans hdone))
  asksExactly done E _ := C.asksExactly (C.crawl done) E

/-! ### One block of the Binance chain -/

/-- A step of 5 blocks, the default. -/
def bscCrawler : Crawler := ⟨.bsc, 5, by decide⟩

/-- The head is block 10; each block has one log of a transfer. -/
def oneBlock (trackedEvents : Option (List String)) : Environment .bsc where
  head := 10
  lastBlocks_le_head := by decide
  logs fromBlock _ := [{
    blockNumber := fromBlock
    transactionHash := "0xa1"
    address := "0x55d398326f99059ff775485246999027b3197955"
    topics := ["0xddf252ad1be2c89b69c2b068fc378daa952ba7f163c4a11628f55a4df523b3ef"]
    data := "0x01"
    logIndex := 0 }]
  block n := { number := n, timestamp := 1598671449, hash := "0x0d", transactions := [] }
  block_number _ := rfl
  trackedEvents := trackedEvents
  fails _ := false
  committed := false

/-- Without a setting nothing is tracked. -/
theorem bscCrawler_neverSkips : bscCrawler.NeverSkips [oneBlock none, oneBlock none] := by
  refine bscCrawler.neverSkips_of_quiet _ fun done E h => .inr fun _ _ _ _ eventHash hhash => ?_
  have hmem := h.subset (List.mem_append_right done List.mem_cons_self)
  rcases List.mem_pair.mp hmem with rfl | rfl <;> cases hhash

/-- A trace that ends with a publication. -/
def endsPublishing (trace : List Step) : Bool :=
  trace.getLast?.any fun
    | .answered call _ => call.publishes
    | .wrote _ _ => false

theorem not_publishesNothing {trace : List Step} (h : trace = pre ++ .wrote row blocks :: post)
    (hlast : endsPublishing trace) : ¬ PublishesNothing post := by
  intro nothing
  rw [endsPublishing, h, List.getLast?_append, List.getLast?_cons] at hlast
  cases hpost : post.getLast? with
  | none => simp [hpost] at hlast
  | some step =>
    rw [hpost] at hlast
    cases step with
    | wrote row blocks => cases hlast
    | answered call returned =>
      have hcall := nothing call returned (List.mem_of_getLast? hpost)
      exact Bool.false_ne_true (hcall.symm.trans hlast)

/-- With a tracked event the run publishes it after the save. -/
theorem publishedAfterSave_not_neverSkips : ¬ bscCrawler.NeverSkips [oneBlock
    (some ["0xddf252ad1be2c89b69c2b068fc378daa952ba7f163c4a11628f55a4df523b3ef"])] := by
  intro h
  obtain ⟨-, trace, htrace, post, ⟨pre, row, blocks, heq, -⟩, nothing⟩ :=
    h.covered _ List.prefix_rfl 0 (by decide) 0 (Int.le_refl 0) (Int.le_refl 0)
  have hends : ∀ trace ∈ (bscCrawler.crawl [oneBlock
      (some ["0xddf252ad1be2c89b69c2b068fc378daa952ba7f163c4a11628f55a4df523b3ef"])]).traces,
      endsPublishing trace := by
    decide
  exact not_publishesNothing heq (hends trace htrace) nothing

end Crawler

end ChainCrawler
end Migration
end DefiBackend
