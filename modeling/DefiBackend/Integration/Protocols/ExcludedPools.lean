import DefiBackend.Common.MulticallAggregator
import DefiBackend.Integration.Protocols.MasterChef
import DefiBackend.Theory.Splice
import Mathlib.Data.List.Sort
import Mathlib.Data.Nat.Log

/-! # The pools of a masterchef

`MasterChef.fetchOpportunityData`: the bad pools are spliced out of the queue of pool ids, the pools
that are left are asked for their staked tokens and for what is staked of them, and the answers are
put together by their places. The feature of an opportunity is always staking.

* `fetchOpportunityData_eq`: the pools that are left have their own answers;
* `excludesExactly_iff`: when exactly the good pools are left;
* `badPools_repeated`: a bad pool that is given twice takes a good one with it. -/

namespace DefiBackend
namespace Integration
namespace MasterChefPools
open MulticallAggregator Theory JsNumber

/-- The address in the metadata, the function found by the predicate and the one to claim with. -/
structure MasterChef where
  address : Address
  chain : ChainId
  poolInfo : AbiItem
  claim : Option AbiItem

/-- The context after `formatContext`. -/
structure Context where
  poolLength : Nat
  badPools : Option (List Int)
  rewardToken : Address
  totalAllocPoint : JsNumber
  rewardPerSecond : JsNumber

structure IMasterChefPoolInfo where
  poolId : Nat
  stakedToken : Address
  allocPoint : JsNumber

structure InteractiveInterface where
  action : String
  input : JsMap String Nat
  abi : AbiItem

/-- A text of a number is the number. -/
structure IStakingFeatureMinimal extends Integration.MasterChef.OpportunityMinimal where
  chain : ChainId
  totalSupplied : JsNumber
  rewardToken : Address
  rewardPerSecond : JsNumber
  interactive : List InteractiveInterface

/-- `ERC20.balanceOf`. -/
def balanceOf : AbiItem := ⟨"balanceOf", [⟨"", "address"⟩], [⟨"", "uint256"⟩]⟩

/-! ## The queue of pool ids -/

/-- `badPools.sort((a, b) => (a > b ? -1 : 1))`. Equal numbers are not told apart. -/
def sortDescending (badPools : List Int) : List Int := badPools.insertionSort (· ≥ ·)

/-- `poolIds` when the pools are asked for. `Array` takes no length from `2^32` on. -/
def queue (context : Context) : Except String (List Nat) :=
  if context.poolLength < 2 ^ 32 then
    let poolIds := List.range context.poolLength
    match context.badPools with
    | some badPools => pure ((sortDescending badPools).foldl splice poolIds)
    | none => pure poolIds
  else throw "RangeError"

/-! ## What a pool has -/

namespace OutputData

/-- An address. Of other values none is the address of a contract that can be called. -/
def address : OutputData → Except String Address
  | .value (.text s _) => pure s
  | _ => throw typeError

/-- `parseInt(n.toString(), 10)` of an integer. From `1e21` on it is printed with an exponent and
its first digit is read. -/
def parseIntNumber : JsNumber → JsNumber
  | finite q =>
    let n := ⌊|q|⌋₊
    let digits : ℚ := if n < 10 ^ 21 then n else (n / 10 ^ Nat.log 10 n : ℕ)
    finite (if q < 0 then -digits else digits)
  | infinity _ | nan => nan

/-- `parseInt(value, 10)`, of an array by its first item. -/
def parseIntValue : AbiValue → JsNumber
  | .text s _ => match (JsValue.str s).parseInt with
    | .num n => finite n
    | _ => nan
  | .array (item :: _) => parseIntValue item
  | .array [] | .undefined | .flag _ => nan

def parseIntData : OutputData → JsNumber
  | .bigNumber n => parseIntNumber n
  | .value v => parseIntValue v
  | .array (item :: _) => parseIntData item
  | .array [] | .object _ => nan

/-- `parseInt(value.toString(), 10)`. -/
def parseInt : OutputData → Except String JsNumber
  | .value .undefined => throw typeError
  | data => pure (parseIntData data)

/-- `value.toString()` of the single output of `balanceOf`. -/
def toStringNumber : Option OutputData → Except String JsNumber
  | some (.bigNumber n) => pure n
  | _ => throw typeError

end OutputData

namespace MasterChef
variable (chef : MasterChef)

def poolInfoCall (poolId : Nat) : CallData := createCall chef.address chef.poolInfo [.num poolId]

def balanceOfCall (stakedToken : Address) : CallData :=
  createCall stakedToken balanceOf [.str chef.address]

/-- The callback of `formatPoolInfo`, on an answer to which the pool id has been assigned. The keys
of an object that are places come first among its values. -/
def formatPoolInfo : Option OutputData × Nat → Except String IMasterChefPoolInfo
  | (some (.object pool), poolId) => do
    let poolInfoOutputs := chef.poolInfo.outputs
    let lpTokenIdx := poolInfoOutputs.findIdx? (·.type = "address")
    let allocPointIdx := poolInfoOutputs.findIdx? fun output =>
      "alloc".toList.isPrefixOf (lowerCase output.name).toList
    let value (idx : Option Nat) := idx.bind fun idx => pool.lookup (toString idx)
    let stakedToken ← match (pool.lookup "stakedToken").filter OutputData.truthy, value lpTokenIdx with
      | some stakedToken, _ => OutputData.address stakedToken
      | none, some lpToken => lowerCase <$> OutputData.address lpToken
      | none, none => throw typeError
    let allocPoint ← match value allocPointIdx with
      | some allocPoint => OutputData.parseInt allocPoint
      | none => throw typeError
    pure { poolId, stakedToken, allocPoint }
  | _ => throw typeError

def getClaimInputValues (inputs : List AbiParameter) (poolInfo : IMasterChefPoolInfo) :
    Except String (JsMap String Nat) :=
  inputs.foldlM (fun inputValues input =>
    if input.name = "_pid" then pure (inputValues.set input.name poolInfo.poolId)
    else if input.name = "_amount" then pure (inputValues.set input.name 0)
    else throw s!"Unable to build claim input {input.name}") []

def formatOpportunityInteractiveFunctions (poolInfo : IMasterChefPoolInfo) :
    Except String (List InteractiveInterface) :=
  match chef.claim with
  | some claimFunctionAbi => do
    let input ← getClaimInputValues claimFunctionAbi.inputs poolInfo
    pure [⟨"claim", input, claimFunctionAbi⟩]
  | none => pure []

/-- The share of a pool in the rewards. -/
def rewardShare (poolInfo : IMasterChefPoolInfo) (context : Context) : JsNumber :=
  poolInfo.allocPoint / context.totalAllocPoint

def formatStakingOpportunityMinimal (poolInfo : IMasterChefPoolInfo) (totalStaked : JsNumber)
    (context : Context) : Except String IStakingFeatureMinimal := do
  let interactive ← chef.formatOpportunityInteractiveFunctions poolInfo
  pure {
    toOpportunityMinimal := Integration.MasterChef.formatStakingOpportunityMinimal
      chef.address poolInfo.poolId poolInfo.stakedToken
    chain := chef.chain
    totalSupplied := totalStaked
    rewardToken := context.rewardToken
    rewardPerSecond := context.rewardPerSecond * rewardShare poolInfo context
    interactive }

variable (provider : Provider)

/-- Answers and ids are paired by their places. -/
def fetchPoolInfos (poolIds : List Nat) : Except String (List IMasterChefPoolInfo) := do
  let poolInfo ← provider.callArray (poolIds.map chef.poolInfoCall)
  (poolInfo.zip poolIds).mapM chef.formatPoolInfo

def fetchOpportunityData (context : Context) : Except String (List IStakingFeatureMinimal) := do
  let poolIds ← queue context
  let poolInfos ← chef.fetchPoolInfos provider poolIds
  let totalStakedPerPool ←
    provider.callArray (poolInfos.map fun poolInfo => chef.balanceOfCall poolInfo.stakedToken)
  poolInfos.zipIdx.mapM fun (poolInfo, poolIdx) => do
    let totalStaked ← OutputData.toStringNumber (totalStakedPerPool[poolIdx]?).join
    chef.formatStakingOpportunityMinimal poolInfo totalStaked context

/-! ## One pool -/

/-- What is reported of a pool that is asked alone. -/
def opportunity (context : Context) (poolId : Nat) : Except String IStakingFeatureMinimal := do
  let poolInfo ← provider.call (chef.poolInfoCall poolId)
  let poolInfo ← chef.formatPoolInfo (poolInfo, poolId)
  let totalStaked ← provider.call (chef.balanceOfCall poolInfo.stakedToken)
  let totalStaked ← OutputData.toStringNumber totalStaked
  chef.formatStakingOpportunityMinimal poolInfo totalStaked context

end MasterChef

/-- The pools that are not bad, in increasing order. -/
def goodPools (context : Context) : List Nat :=
  remaining context.poolLength (context.badPools.getD [])

/-- The staked token in an answer about a pool: one of this name, or what stands at the place of the
first address. -/
inductive StakesToken (chef : MasterChef) (pool : List (String × OutputData)) : Address → Prop
  | named {data : OutputData} {token : Address} (h : pool.lookup "stakedToken" = some data)
      (htruthy : data.truthy) (htoken : OutputData.address data = .ok token) :
      StakesToken chef pool token
  | placed {idx : Nat} {data : OutputData} {token : Address}
      (hidx : chef.poolInfo.outputs.findIdx? (·.type = "address") = some idx)
      (h : pool.lookup (toString idx) = some data) (htoken : OutputData.address data = .ok token) :
      StakesToken chef pool (lowerCase token)

/-- The points of a pool in an answer about it. -/
def HasPoints (chef : MasterChef) (pool : List (String × OutputData)) (points : JsNumber) : Prop :=
  ∃ idx data, chef.poolInfo.outputs.findIdx? (fun output =>
      "alloc".toList.isPrefixOf (lowerCase output.name).toList) = some idx ∧
    pool.lookup (toString idx) = some data ∧ OutputData.parseInt data = .ok points

/-- A record under the id of a pool, with its staked token, what is staked of it, and its share of
the rewards. -/
structure RecordOf (chef : MasterChef) (provider : Provider) (context : Context) (poolId : Nat)
    (record : IStakingFeatureMinimal) : Prop where
  id : record.id = chef.address ++ "::" ++ toString poolId
  pool : ∃ pool, provider.call (chef.poolInfoCall poolId) = .ok (some (.object pool)) ∧
    StakesToken chef pool record.stakedToken ∧ ∃ points, HasPoints chef pool points ∧
      record.rewardPerSecond = context.rewardPerSecond * (points / context.totalAllocPoint)
  total : provider.call (chef.balanceOfCall record.stakedToken) =
    .ok (some (.bigNumber record.totalSupplied))
  rewardToken : record.rewardToken = context.rewardToken

/-- The good pools are asked for, and where they all have answers, each is reported with its own. -/
def ExcludesExactly (chef : MasterChef) (provider : Provider) (context : Context) : Prop :=
  queue context = .ok (goodPools context) ∧
    ((∀ poolId ∈ goodPools context, Succeeds (chef.opportunity provider context poolId)) →
      ∃ records, chef.fetchOpportunityData provider context = .ok records ∧
        List.Forall₂ (fun poolId record => chef.opportunity provider context poolId = .ok record ∧
          RecordOf chef provider context poolId record) (goodPools context) records)

section
variable {chef : MasterChef} {provider : Provider} {context : Context}

theorem mem_goodPools :
    poolId ∈ goodPools context ↔
      poolId < context.poolLength ∧ (poolId : Int) ∉ context.badPools.getD [] := mem_remaining

theorem goodPools_increasing : (goodPools context).Pairwise (· < ·) :=
  List.pairwise_lt_range.filter _

theorem poolInfoCall_key_inj (h : (chef.poolInfoCall m).key = (chef.poolInfoCall n).key) :
    m = n := by
  have hlist := congrArg String.toList h
  simp only [CallData.key, MasterChef.poolInfoCall, createCall, JsValue.stringify,
    JsValue.stringifyItems, Int.toString_eq_repr, Option.getD_some, String.intercalate_singleton,
    String.toList_append, List.append_assoc, List.append_cancel_left_eq,
    List.append_cancel_right_eq] at hlist
  have hrepr : m.repr.toList = n.repr.toList := hlist
  rw [Nat.toList_repr, Nat.toList_repr] at hrepr
  exact toDigits_inj hrepr

theorem balanceOfCall_key_inj (h : (chef.balanceOfCall a).key = (chef.balanceOfCall b).key) :
    a = b := by
  have hlist := congrArg String.toList h
  simp only [CallData.key, MasterChef.balanceOfCall, createCall, String.toList_append,
    List.append_assoc, List.append_cancel_right_eq] at hlist
  exact String.toList_inj.mp hlist

/-- Pools that are asked in one batch have the answers that each has alone. -/
theorem callArray_poolInfoCall (poolIds : List Nat)
    (h : ∀ poolId ∈ poolIds, Succeeds (provider.call (chef.poolInfoCall poolId))) :
    provider.callArray (poolIds.map chef.poolInfoCall) =
      poolIds.mapM fun poolId => provider.call (chef.poolInfoCall poolId) := by
  have hkey : ∀ m n, (chef.poolInfoCall m).key = (chef.poolInfoCall n).key →
      chef.poolInfoCall m = chef.poolInfoCall n := by
    intro m n hkey
    rw [poolInfoCall_key_inj hkey]
  exact Provider.callArray_map (fun _ => rfl) hkey h

/-- Tokens that several pools have are asked for once. -/
theorem callArray_balanceOfCall (tokens : List Address)
    (h : ∀ token ∈ tokens, Succeeds (provider.call (chef.balanceOfCall token))) :
    provider.callArray (tokens.map chef.balanceOfCall) =
      tokens.mapM fun token => provider.call (chef.balanceOfCall token) := by
  have hkey : ∀ a b, (chef.balanceOfCall a).key = (chef.balanceOfCall b).key →
      chef.balanceOfCall a = chef.balanceOfCall b := by
    intro a b hkey
    rw [balanceOfCall_key_inj hkey]
  exact Provider.callArray_map (fun _ => rfl) hkey h

/-- Whatever pools are in the queue, each is reported with its own answers, if it has them. -/
theorem fetchOpportunityData_eq (hqueue : queue context = .ok poolIds)
    (h : ∀ poolId ∈ poolIds, Succeeds (chef.opportunity provider context poolId)) :
    chef.fetchOpportunityData provider context =
      poolIds.mapM (chef.opportunity provider context) := by
  have hparts : ∀ poolId ∈ poolIds, ∃ data info total staked,
      provider.call (chef.poolInfoCall poolId) = .ok data ∧
      chef.formatPoolInfo (data, poolId) = .ok info ∧
      provider.call (chef.balanceOfCall info.stakedToken) = .ok total ∧
      OutputData.toStringNumber total = .ok staked := by
    intro poolId hmem
    obtain ⟨opportunity, hopportunity⟩ := h poolId hmem
    obtain ⟨data, hdata, hrest⟩ := bind_eq_ok.mp hopportunity
    obtain ⟨info, hinfo, hrest⟩ := bind_eq_ok.mp hrest
    obtain ⟨total, htotal, hrest⟩ := bind_eq_ok.mp hrest
    obtain ⟨staked, hstaked, -⟩ := bind_eq_ok.mp hrest
    exact ⟨data, info, total, staked, hdata, hinfo, htotal, hstaked⟩
  have : Nonempty JsNumber := ⟨nan⟩
  have : Nonempty IMasterChefPoolInfo := ⟨⟨0, "", nan⟩⟩
  choose! data info total staked hdata hinfo htotal hstaked using hparts
  have hinfos : chef.fetchPoolInfos provider poolIds = .ok (poolIds.map info) := by
    have hzip : (poolIds.map data).zip poolIds = poolIds.map fun poolId => (data poolId, poolId) := by
      have hmap := List.zip_map' (f := data) (g := id) (l := poolIds)
      rwa [List.map_id] at hmap
    rw [MasterChef.fetchPoolInfos, callArray_poolInfoCall poolIds fun poolId hmem =>
      ⟨_, hdata poolId hmem⟩, mapM_eq_ok hdata, ok_bind, hzip, List.mapM_map]
    exact mapM_eq_ok hinfo
  have htotals : provider.callArray ((poolIds.map info).map fun poolInfo =>
      chef.balanceOfCall poolInfo.stakedToken) = .ok (poolIds.map total) := by
    have htokens : ((poolIds.map info).map fun poolInfo => chef.balanceOfCall poolInfo.stakedToken) =
        (poolIds.map fun poolId => (info poolId).stakedToken).map chef.balanceOfCall := by
      rw [List.map_map, List.map_map]
      rfl
    rw [htokens, callArray_balanceOfCall _ (List.forall_mem_map.mpr fun poolId hmem =>
      ⟨_, htotal poolId hmem⟩), List.mapM_map]
    exact mapM_eq_ok htotal
  rw [MasterChef.fetchOpportunityData, hqueue, ok_bind, hinfos, ok_bind, htotals, ok_bind]
  apply mapM_zipIdx_eq
  intro idx poolId hidx
  have hmem := List.mem_of_getElem? hidx
  have hplace : (poolIds.map total)[idx]? = some (total poolId) := by
    rw [List.getElem?_map, hidx]
    rfl
  rw [MasterChef.opportunity, hdata poolId hmem, ok_bind, hinfo poolId hmem, ok_bind,
    htotal poolId hmem, ok_bind]
  simp only [hplace, Option.join_some]

theorem formatPoolInfo_eq_ok {data : Option OutputData} {info : IMasterChefPoolInfo}
    (h : chef.formatPoolInfo (data, poolId) = .ok info) :
    ∃ pool, data = some (.object pool) ∧ info.poolId = poolId ∧
      StakesToken chef pool info.stakedToken ∧ HasPoints chef pool info.allocPoint := by
  unfold MasterChef.formatPoolInfo at h
  split at h
  · next pool poolId' heq =>
    cases heq
    have hrest : ∀ {token : Address}, StakesToken chef pool token →
        (match (chef.poolInfo.outputs.findIdx? fun output =>
            "alloc".toList.isPrefixOf (lowerCase output.name).toList).bind fun idx =>
              pool.lookup (toString idx) with
          | some allocPoint => OutputData.parseInt allocPoint >>= fun allocPoint =>
            pure { poolId, stakedToken := token, allocPoint }
          | none => throw typeError >>= fun allocPoint =>
            pure { poolId, stakedToken := token, allocPoint }) = Except.ok info →
        info.poolId = poolId ∧ StakesToken chef pool info.stakedToken ∧
          HasPoints chef pool info.allocPoint := by
      intro token htoken h
      split at h
      · next data hdata =>
        obtain ⟨points, hpoints, h⟩ := bind_eq_ok.mp h
        obtain ⟨idx, hidx, hlookup⟩ := Option.bind_eq_some_iff.mp hdata
        cases h
        exact ⟨rfl, htoken, idx, data, hidx, hlookup, hpoints⟩
      · cases h
    refine ⟨pool, rfl, ?_⟩
    dsimp only at h
    split at h
    · next data _ hdata =>
      obtain ⟨token, htoken, h⟩ := bind_eq_ok.mp h
      obtain ⟨hlookup, htruthy⟩ := Option.filter_eq_some_iff.mp hdata
      exact hrest (.named hlookup htruthy htoken) h
    · next lp _ hlp =>
      obtain ⟨token, htoken, h⟩ := bind_eq_ok.mp h
      obtain ⟨idx, hidx, hlookup⟩ := Option.bind_eq_some_iff.mp hlp
      rw [map_eq_pure_bind] at htoken
      obtain ⟨address, haddress, htoken⟩ := bind_eq_ok.mp htoken
      cases htoken
      exact hrest (.placed hidx hlookup haddress) h
    · cases h
  · cases h

/-- What is reported of a pool that is asked alone is its record. -/
theorem recordOf_opportunity {record : IStakingFeatureMinimal}
    (h : chef.opportunity provider context poolId = .ok record) :
    RecordOf chef provider context poolId record := by
  obtain ⟨data, hdata, h⟩ := bind_eq_ok.mp h
  obtain ⟨info, hinfo, h⟩ := bind_eq_ok.mp h
  obtain ⟨total, htotal, h⟩ := bind_eq_ok.mp h
  obtain ⟨staked, hstaked, h⟩ := bind_eq_ok.mp h
  obtain ⟨interactive, -, h⟩ := bind_eq_ok.mp h
  cases h
  obtain ⟨pool, rfl, rfl, htoken, hpoints⟩ := formatPoolInfo_eq_ok hinfo
  refine ⟨rfl, ⟨pool, hdata, htoken, info.allocPoint, hpoints, rfl⟩, ?_, rfl⟩
  unfold OutputData.toStringNumber at hstaked
  split at hstaked
  · cases hstaked
    exact htotal
  · cases hstaked

/-! ## Which pools are left -/

theorem sortDescending_perm (badPools : List Int) : (sortDescending badPools).Perm badPools :=
  List.perm_insertionSort _ _

theorem sortDescending_pairwise (badPools : List Int) :
    (sortDescending badPools).Pairwise (· ≥ ·) :=
  List.pairwise_insertionSort _ _

/-- The bad pools in the context are sorted by `fetchStart`. -/
theorem fetchStart_badPools {context : JsObject} {badPools : List Int}
    (hlength : context.get "poolLength" = .num n) (hn : 0 ≤ n ∧ n < 2 ^ 32)
    (hbad : context.get "badPools" = .arr (badPools.map .num)) :
    MasterChef.fetchStart context =
      context.assign "badPools" (.arr ((sortDescending badPools).map .num)) := by
  have hsort : (sortDescending badPools).map JsValue.num =
      (badPools.map JsValue.num).insertionSort fun a b => ¬ Integration.MasterChef.greater b a := by
    refine List.map_insertionSort _ _ _ _ fun a _ b _ => ?_
    simp [Integration.MasterChef.greater]
  rw [hsort]
  simp only [Integration.MasterChef.fetchStart, hlength, hbad, if_pos hn]

/-- Exactly the good pools are left when there are not too many pools and no bad one that is
negative or given twice has a good one above it. -/
theorem queue_eq_iff :
    queue context = .ok (goodPools context) ↔
      context.poolLength < 2 ^ 32 ∧
        ∀ id ∈ context.badPools.getD [], id < 0 ∨ 2 ≤ (context.badPools.getD []).count id →
          ∀ poolId < context.poolLength, id < poolId → (poolId : Int) ∈ context.badPools.getD [] := by
  unfold queue
  split
  · next hlength =>
    rw [and_iff_right hlength]
    cases hbad : context.badPools with
    | none =>
      have hgood : goodPools context = List.range context.poolLength := by
        rw [goodPools, hbad]
        exact List.filter_eq_self.mpr fun _ _ => rfl
      simp [hgood, pure, Except.pure]
    | some badPools =>
      have hperm := sortDescending_perm badPools
      have hgood : goodPools context = remaining context.poolLength (sortDescending badPools) := by
        rw [goodPools, hbad]
        exact List.filter_congr fun k _ => by simp [hperm.mem_iff]
      have hiff := @foldl_splice_eq_iff context.poolLength _ (sortDescending_pairwise badPools)
      simp only [hperm.mem_iff, hperm.count_eq] at hiff
      rw [hgood, Option.getD_some, ← hiff]
      exact ⟨Except.ok.inj, congrArg _⟩
  · next hlength => exact ⟨nofun, fun h => absurd h.1 hlength⟩

/-- Good pools are excluded by a bad one below them that is negative or given twice. -/
theorem excludesExactly_iff (chef : MasterChef) (provider : Provider) (context : Context) :
    ExcludesExactly chef provider context ↔
      context.poolLength < 2 ^ 32 ∧
        ∀ id ∈ context.badPools.getD [], id < 0 ∨ 2 ≤ (context.badPools.getD []).count id →
          ∀ poolId < context.poolLength, id < poolId → (poolId : Int) ∈ context.badPools.getD [] := by
  refine ⟨fun h => queue_eq_iff.mp h.1, fun h => ⟨queue_eq_iff.mpr h, fun hanswered => ?_⟩⟩
  obtain ⟨records, hrecords⟩ := succeeds_mapM.mpr hanswered
  refine ⟨records, (fetchOpportunityData_eq (queue_eq_iff.mpr h) hanswered).trans hrecords, ?_⟩
  exact (mapM_forall₂.mp hrecords).imp fun _ _ hrecord => ⟨hrecord, recordOf_opportunity hrecord⟩

end

/-! ## A bad pool that is given twice -/

def sampleChef : MasterChef where
  address := "0xa5f8c5dbd5f286960b9d90548680ae5ebff07652"
  chain := 2
  poolInfo := ⟨"poolInfo", [⟨"", "uint256"⟩], [⟨"lpToken", "address"⟩, ⟨"allocPoint", "uint256"⟩]⟩
  claim := none

/-- The third pool is good. -/
def sampleContext : Context where
  poolLength := 3
  badPools := some [1, 1]
  rewardToken := "0x0e09fabb73bd3ade0a17ecc321fd13a19e81ce82"
  totalAllocPoint := 10
  rewardPerSecond := 2

theorem badPools_repeated :
    goodPools sampleContext = [0, 2] ∧
      ¬ ExcludesExactly sampleChef sampleProvider sampleContext := by
  refine ⟨by decide, fun h => ?_⟩
  have hqueue : queue sampleContext = .ok [0] := by
    decide
  have hgood := Except.ok.inj (hqueue.symm.trans h.1)
  exact absurd hgood (by decide)

end MasterChefPools
end Integration
end DefiBackend
