import DefiBackend.Integration.UniswapV3.Positions

/-! # Which pool an NFT is valued against

The labels of the calls for pools leave out the fee, and the key that the answers of a pool stand
under leaves out the pool. So an NFT gets the pool of the last NFT with its two tokens, and is
valued against the pool that the last NFT with its two ticks got (`valuedAgainst_eq`). It is
valued against its own pool exactly when this is the same one (`valuesInOwnPools_iff`). -/

namespace DefiBackend
namespace UniswapV3
open Theory JsMap

theorem get_handleInBatches [DecidableEq ι] {answer : γ → δ} {calls : JsMap ι γ} {label : ι} :
    (handleInBatches answer calls).get label = (calls.get label).map answer := by
  induction calls with
  | nil => rfl
  | cons call calls ih =>
    rw [handleInBatches, List.map_cons, get_cons, get_cons]
    split
    · rfl
    · exact ih

section
variable {κ : Type} (K : PositionKeys κ) (C : Contracts κ) (ids : List TokenId)

/-- The two tokens of an NFT. -/
def tokenPair (id : TokenId) : Address × Address := ((C.positions id).token0, (C.positions id).token1)

/-- The two ticks of an NFT. -/
def tickRange (id : TokenId) : ℤ × ℤ := ((C.positions id).tickLower, (C.positions id).tickUpper)

/-- The pool that the factory has for the tokens and the fee of an NFT. -/
def ownPool (id : TokenId) : Address :=
  let position := C.positions id
  lowerCase (C.getPool position.token0 position.token1 position.fee)

/-- The last NFT of a request with the tokens of an NFT. -/
def lastWithTokens (id : TokenId) : TokenId :=
  (lastWith (tokenPair C) ids (tokenPair C id)).getD id

/-- The last NFT of a request with the ticks of an NFT, in the order of the records. -/
def lastWithTicks (id : TokenId) : TokenId :=
  (lastWith (tickRange C) (unique ids) (tickRange C id)).getD id

/-- The record that the request makes of an NFT. -/
def recordOf (id : TokenId) : ITokenPosition κ :=
  let last := C.positions (lastWithTokens C ids id)
  tokenPosition K C (C.positions id) (C.getPool last.token0 last.token1 last.fee)

@[simp] theorem recordOf_pool {id : TokenId} :
    (recordOf K C ids id).pool = ownPool C (lastWithTokens C ids id) := rfl

/-- The records of a request, by id. -/
def records : JsMap TokenId (ITokenPosition κ) :=
  (unique ids).map fun id => (id, recordOf K C ids id)

theorem records_values : (records K C ids).values = (unique ids).map (recordOf K C ids) := by
  rw [records, JsMap.values, List.map_map]
  rfl

/-- The pool of a record, from what the pool at an address answers. -/
def poolAt (answered : Address) (position : ITokenPosition κ) : IPool :=
  let slot0 := C.slot0 answered
  let tickLower := C.ticks answered position.tickLower
  let tickUpper := C.ticks answered position.tickUpper
  let response := C.poolPositions answered position.key
  { address := position.pool
    token0 := position.token0
    token1 := position.token1
    feeGrowthGlobal0X128 := C.feeGrowthGlobal0X128 answered
    feeGrowthGlobal1X128 := C.feeGrowthGlobal1X128 answered
    sqrtPrice := slot0.sqrtPriceX96
    tickCurrent := slot0.tick
    tickLower :=
      ⟨position.tickLower, tickLower.feeGrowthOutside0X128, tickLower.feeGrowthOutside1X128⟩
    tickUpper :=
      ⟨position.tickUpper, tickUpper.feeGrowthOutside0X128, tickUpper.feeGrowthOutside1X128⟩
    liquidity := response.liquidity
    feeGrowthInside0LastX128 := response.feeGrowthInside0LastX128
    feeGrowthInside1LastX128 := response.feeGrowthInside1LastX128
    tokensOwed0 := response.tokensOwed0
    tokensOwed1 := response.tokensOwed1 }

end

/-! ## The two rounds -/

section
variable {κ : Type} {K : PositionKeys κ} {C : Contracts κ} {ids : List TokenId} {id : TokenId}

theorem lastWithTokens_spec (h : id ∈ ids) :
    lastWith (tokenPair C) ids (tokenPair C id) = some (lastWithTokens C ids id) := by
  obtain ⟨last, hlast⟩ := exists_lastWith (tokenPair C) h
  rw [lastWithTokens, hlast, Option.getD_some]

theorem lastWithTicks_spec (h : id ∈ ids) :
    lastWith (tickRange C) (unique ids) (tickRange C id) = some (lastWithTicks C ids id) := by
  obtain ⟨last, hlast⟩ := exists_lastWith (tickRange C) (mem_unique.mpr h)
  rw [lastWithTicks, hlast, Option.getD_some]

/-- The last NFT with the tokens is one of the request, and has them. -/
theorem lastWithTokens_mem (h : id ∈ ids) :
    tokenPair C (lastWithTokens C ids id) = tokenPair C id ∧ lastWithTokens C ids id ∈ ids :=
  lastWith_eq_some (lastWithTokens_spec h)

/-- The last NFT with the ticks is one of the request, and has them. -/
theorem lastWithTicks_mem (h : id ∈ ids) :
    tickRange C (lastWithTicks C ids id) = tickRange C id ∧ lastWithTicks C ids id ∈ ids := by
  obtain ⟨hticks, hmem⟩ := lastWith_eq_some (lastWithTicks_spec h)
  exact ⟨hticks, mem_unique.mp hmem⟩

theorem lastWithTokens_congr (h : id ∈ ids) (h' : id' ∈ ids)
    (htokens : tokenPair C id = tokenPair C id') :
    lastWithTokens C ids id = lastWithTokens C ids id' := by
  have hlast := lastWithTokens_spec (C := C) h
  rw [htokens, lastWithTokens_spec h'] at hlast
  exact (Option.some.inj hlast).symm

theorem lastWithTicks_congr (h : id ∈ ids) (h' : id' ∈ ids)
    (hticks : tickRange C id = tickRange C id') :
    lastWithTicks C ids id = lastWithTicks C ids id' := by
  have hlast := lastWithTicks_spec (C := C) h
  rw [hticks, lastWithTicks_spec h'] at hlast
  exact (Option.some.inj hlast).symm

theorem output_eq_ok [DecidableEq ι] {results : JsMap ι δ} {label : ι} {answer : δ}
    (h : results.get label = some answer) : output results label = .ok answer := by
  rw [output, h]

theorem output_positions (h : id ∈ ids) :
    output (handleInBatches C.positions (ofEntries (ids.map fun id => (id, id)))) id =
      .ok (C.positions id) := by
  refine output_eq_ok ?_
  rw [get_handleInBatches, get_ofEntries_map (fun id => id) (fun id => id)]
  obtain ⟨last, hlast⟩ := exists_lastWith (fun id : TokenId => id) h
  obtain ⟨rfl, -⟩ := lastWith_eq_some hlast
  rw [hlast]
  rfl

/-- The call for the pool of an NFT, under its label. -/
private def poolCall (C : Contracts κ) (id : TokenId) :
    (Address × Address) × (Address × Address × Nat) :=
  (tokenPair C id, ((C.positions id).token0, (C.positions id).token1, (C.positions id).fee))

/-- Under the label of an NFT stands the pool of the last NFT with its tokens. -/
theorem output_pools (h : id ∈ ids) :
    output (handleInBatches (fun call => C.getPool call.1 call.2.1 call.2.2)
        (ofEntries (ids.map (poolCall C)))) (tokenPair C id) =
      .ok (let last := C.positions (lastWithTokens C ids id)
        C.getPool last.token0 last.token1 last.fee) := by
  refine output_eq_ok ?_
  have hget : (ofEntries (ids.map (poolCall C))).get (tokenPair C id) = _ :=
    get_ofEntries_map (tokenPair C) (fun id => (poolCall C id).2) ids
  rw [lastWithTokens_spec h] at hget
  rw [get_handleInBatches, hget]
  rfl

/-- Every NFT of the request has its record. -/
theorem getTokenDetails_eq [DecidableEq κ] {userTokens : JsMap Address (List TokenId)}
    (hids : userTokens.values.flatten = ids) :
    getTokenDetails K C userTokens = .ok (records K C ids) := by
  simp only [getTokenDetails, hids]
  refine bind_eq_ok.mpr ⟨ids.map (poolCall C), mapM_eq_ok fun id h => ?_, ?_⟩
  · rw [output_positions h]
    rfl
  refine bind_eq_ok.mpr ⟨ids.map fun id => (id, recordOf K C ids id), mapM_eq_ok fun id h => ?_, ?_⟩
  · refine bind_eq_ok.mpr ⟨_, output_positions h, ?_⟩
    exact bind_eq_ok.mpr ⟨_, output_pools h, rfl⟩
  · exact congrArg Except.ok (ofEntries_graph ids (recordOf K C ids))

/-- Records with one key have the same ticks. -/
def KeysTellTicks (positions : List (ITokenPosition κ)) : Prop :=
  ∀ p ∈ positions, ∀ q ∈ positions, p.key = q.key →
    p.tickLower = q.tickLower ∧ p.tickUpper = q.tickUpper

theorem poolMethods_congr {p q : ITokenPosition κ} (hkey : p.key = q.key)
    (hticks : p.tickLower = q.tickLower ∧ p.tickUpper = q.tickUpper) :
    poolMethods p = poolMethods q := by
  rw [poolMethods, poolMethods, hkey, hticks.1, hticks.2]

theorem mem_positionCalls {p : ITokenPosition κ}
    {e : (κ × PoolMethod κ) × (Address × PoolMethod κ)} :
    e ∈ positionCalls p ↔ ∃ method ∈ poolMethods p, e = ((p.key, method), (p.pool, method)) := by
  simp only [positionCalls, List.mem_map, eq_comm]

variable [DecidableEq κ] {positions : List (ITokenPosition κ)} {p last : ITokenPosition κ}

/-- Under the labels of a record stand the answers of the pool of the last record with its key. -/
theorem output_pool (hkeys : KeysTellTicks positions) (hp : p ∈ positions)
    (hlast : lastWith ITokenPosition.key positions p.key = some last) {method : PoolMethod κ}
    (hmethod : method ∈ poolMethods p) :
    output (handleInBatches (fun call => C.pool call.1 call.2)
      (ofEntries (positions.flatMap positionCalls))) (p.key, method) =
        .ok (C.pool last.pool method) := by
  obtain ⟨hkey, hmem⟩ := lastWith_eq_some hlast
  have hmethods : method ∈ poolMethods last := by
    rwa [poolMethods_congr hkey (hkeys last hmem p hp hkey)]
  have hget : (ofEntries (positions.flatMap positionCalls)).get (p.key, method) =
      some (last.pool, method) := by
    refine get_ofEntries_flatMap hlast ?_ ?_ ?_
    · exact mem_positionCalls.mpr ⟨method, hmethods, by rw [hkey]⟩
    · intro e he hlabel
      obtain ⟨method', -, rfl⟩ := mem_positionCalls.mp he
      obtain rfl : method' = method := congrArg Prod.snd hlabel
      rfl
    · intro q hq hne e he hlabel
      obtain ⟨method', -, rfl⟩ := mem_positionCalls.mp he
      exact hne (congrArg Prod.fst hlabel)
  exact output_eq_ok (by rw [get_handleInBatches, hget]; rfl)

/-- A record gets its pool from the answers to the last record with its key. -/
theorem poolDetails_eq (hkeys : KeysTellTicks positions) (hp : p ∈ positions)
    (hlast : lastWith ITokenPosition.key positions p.key = some last) :
    poolDetails (handleInBatches (fun call => C.pool call.1 call.2)
      (ofEntries (positions.flatMap positionCalls))) p = .ok (poolAt C last.pool p) := by
  have hout (method) (h : method ∈ poolMethods p) := output_pool (C := C) hkeys hp hlast h
  have hposition := hout (.positions p.key) (by simp [poolMethods])
  have hslot0 := hout .slot0 (by simp [poolMethods])
  have hlower := hout (.ticks p.tickLower) (by simp [poolMethods])
  have hupper := hout (.ticks p.tickUpper) (by simp [poolMethods])
  have hgrowth0 := hout .feeGrowthGlobal0X128 (by simp [poolMethods])
  have hgrowth1 := hout .feeGrowthGlobal1X128 (by simp [poolMethods])
  rw [poolDetails, hposition, hslot0, hlower, hupper, hgrowth0, hgrowth1]
  rfl

/-- Under a key stands the pool of the last record with it, as its own pool answers. -/
theorem getPoolDetails_get {positions : JsMap TokenId (ITokenPosition κ)}
    (hkeys : KeysTellTicks positions.values) :
    ∃ pools, getPoolDetails C positions = .ok pools ∧
      ∀ k, pools.get k =
        (lastWith ITokenPosition.key positions.values k).map fun p => poolAt C p.pool p := by
  -- the record whose pool answers to a record
  let lastOf (p : ITokenPosition κ) : ITokenPosition κ :=
    (lastWith ITokenPosition.key positions.values p.key).getD p
  have hlastOf {p} (hp : p ∈ positions.values) :
      lastWith ITokenPosition.key positions.values p.key = some (lastOf p) := by
    obtain ⟨last, hlast⟩ := exists_lastWith ITokenPosition.key hp
    simp only [lastOf, hlast, Option.getD_some]
  refine ⟨.ofEntries (positions.values.map fun p => (p.key, poolAt C (lastOf p).pool p)), ?_, ?_⟩
  · refine bind_eq_ok.mpr ⟨_, mapM_eq_ok fun p hp => ?_, rfl⟩
    exact bind_eq_ok.mpr ⟨_, poolDetails_eq hkeys hp (hlastOf hp), rfl⟩
  · intro k
    rw [get_ofEntries_map ITokenPosition.key (fun p => poolAt C (lastOf p).pool p)]
    cases hk : lastWith ITokenPosition.key positions.values k with
    | none => rfl
    | some p =>
      -- the last record is the last one with its own key
      obtain ⟨rfl, -⟩ := lastWith_eq_some hk
      simp only [lastOf, hk, Option.map_some, Option.getD_some]

/-! ## What an NFT is valued against -/

/-- An NFT is valued with its own ticks against its own pool: the one that the factory has for its
tokens and fee, with the price, the growth and the ticks that this pool answers. -/
structure ValuedInOwnPool (C : Contracts κ) (id : TokenId) (position : ITokenPosition κ)
    (pool : IPool) : Prop where
  positionTicks : (position.tickLower, position.tickUpper) = tickRange C id
  address : pool.address = ownPool C id
  sqrtPrice : pool.sqrtPrice = (C.slot0 (ownPool C id)).sqrtPriceX96
  tickCurrent : pool.tickCurrent = (C.slot0 (ownPool C id)).tick
  feeGrowthGlobal0X128 : pool.feeGrowthGlobal0X128 = C.feeGrowthGlobal0X128 (ownPool C id)
  feeGrowthGlobal1X128 : pool.feeGrowthGlobal1X128 = C.feeGrowthGlobal1X128 (ownPool C id)
  tickLower : pool.tickLower =
    let info := C.ticks (ownPool C id) (C.positions id).tickLower
    ⟨(C.positions id).tickLower, info.feeGrowthOutside0X128, info.feeGrowthOutside1X128⟩
  tickUpper : pool.tickUpper =
    let info := C.ticks (ownPool C id) (C.positions id).tickUpper
    ⟨(C.positions id).tickUpper, info.feeGrowthOutside0X128, info.feeGrowthOutside1X128⟩

/-- Every NFT of a request is valued in its own pool. -/
def ValuesInOwnPools (K : PositionKeys κ) (C : Contracts κ)
    (userTokens : JsMap Address (List TokenId)) : Prop :=
  ∀ id ∈ userTokens.values.flatten, ∃ position pool,
    valuedAgainst K C userTokens id = .ok (position, pool) ∧ ValuedInOwnPool C id position pool

omit [DecidableEq κ] in
theorem recordOf_keysTellTicks (ids ids' : List TokenId) :
    KeysTellTicks (ids'.map (recordOf K C ids)) := by
  intro p hp q hq hkey
  obtain ⟨id, -, rfl⟩ := List.mem_map.mp hp
  obtain ⟨id', -, rfl⟩ := List.mem_map.mp hq
  exact K.ticks_inj hkey

omit [DecidableEq κ] in
theorem recordOf_key_eq {id id' : TokenId} :
    (recordOf K C ids id).key = (recordOf K C ids id').key ↔ tickRange C id = tickRange C id' := by
  constructor
  · intro hkey
    obtain ⟨hlower, hupper⟩ := K.ticks_inj hkey
    exact Prod.ext hlower hupper
  · intro hticks
    exact congrArg (fun ticks => computeKey K C ticks.1 ticks.2) hticks

/-- The last record with the key of an NFT is that of the last NFT with its ticks. -/
theorem lastWith_recordOf (h : id ∈ ids) :
    lastWith ITokenPosition.key ((unique ids).map (recordOf K C ids)) (recordOf K C ids id).key =
      some (recordOf K C ids (lastWithTicks C ids id)) := by
  rw [lastWith_map, lastWith_congr fun _ _ => recordOf_key_eq, lastWithTicks_spec h]
  rfl

/-- Under the key of an NFT stands the pool that the last NFT with its ticks got. -/
theorem getPoolDetails_records :
    ∃ pools, getPoolDetails C (records K C ids) = .ok pools ∧ ∀ id ∈ ids,
      pools.get (recordOf K C ids id).key =
        some (poolAt C (ownPool C (lastWithTokens C ids (lastWithTicks C ids id)))
          (recordOf K C ids (lastWithTicks C ids id))) := by
  have hkeys := recordOf_keysTellTicks (K := K) (C := C) ids (unique ids)
  rw [← records_values] at hkeys
  obtain ⟨pools, hpools, hget⟩ := getPoolDetails_get (C := C) hkeys
  refine ⟨pools, hpools, fun id h => ?_⟩
  rw [hget, records_values, lastWith_recordOf h]
  rfl

/-- An NFT is valued against the pool that the last NFT with its ticks got. -/
theorem valuedAgainst_eq {userTokens : JsMap Address (List TokenId)}
    (hids : userTokens.values.flatten = ids) (h : id ∈ ids) :
    valuedAgainst K C userTokens id = .ok (recordOf K C ids id,
      poolAt C (ownPool C (lastWithTokens C ids (lastWithTicks C ids id)))
        (recordOf K C ids (lastWithTicks C ids id))) := by
  obtain ⟨pools, hpools, hget⟩ :=
    (getPoolDetails_records : ∃ pools, getPoolDetails C (records K C ids) = .ok pools ∧ _)
  refine bind_eq_ok.mpr ⟨_, getTokenDetails_eq hids, bind_eq_ok.mpr ⟨pools, hpools, ?_⟩⟩
  have hposition : (records K C ids).get id = some (recordOf K C ids id) :=
    get_graph _ (mem_unique.mpr h)
  exact bind_eq_ok.mpr ⟨_, output_eq_ok hposition, bind_eq_ok.mpr ⟨_, output_eq_ok (hget id h), rfl⟩⟩

omit [DecidableEq κ] in
/-- The records against which an NFT is valued are its own when the address of the pool is. -/
theorem valuedInOwnPool_iff (h : id ∈ ids) :
    ValuedInOwnPool C id (recordOf K C ids id)
        (poolAt C (ownPool C (lastWithTokens C ids (lastWithTicks C ids id)))
          (recordOf K C ids (lastWithTicks C ids id))) ↔
      ownPool C (lastWithTokens C ids (lastWithTicks C ids id)) = ownPool C id := by
  constructor
  · exact fun H => H.address
  · intro hpool
    have hticks := (lastWithTicks_mem (C := C) h).1
    have hlower : (C.positions (lastWithTicks C ids id)).tickLower = (C.positions id).tickLower :=
      congrArg Prod.fst hticks
    have hupper : (C.positions (lastWithTicks C ids id)).tickUpper = (C.positions id).tickUpper :=
      congrArg Prod.snd hticks
    exact {
      positionTicks := rfl
      address := hpool
      sqrtPrice := by rw [← hpool]; rfl
      tickCurrent := by rw [← hpool]; rfl
      feeGrowthGlobal0X128 := by rw [← hpool]; rfl
      feeGrowthGlobal1X128 := by rw [← hpool]; rfl
      tickLower := by rw [← hpool, ← hlower]; rfl
      tickUpper := by rw [← hpool, ← hupper]; rfl }

/-- Every NFT of a request is valued in its own pool exactly when, for each of them, the last NFT
with the tokens of the last NFT with its ticks has the same pool. -/
theorem valuesInOwnPools_iff (K : PositionKeys κ) (C : Contracts κ)
    (userTokens : JsMap Address (List TokenId)) :
    ValuesInOwnPools K C userTokens ↔
      let ids := userTokens.values.flatten
      ∀ id ∈ ids, ownPool C (lastWithTokens C ids (lastWithTicks C ids id)) = ownPool C id := by
  refine forall₂_congr fun id h => ?_
  rw [← valuedInOwnPool_iff (K := K) h]
  constructor
  · rintro ⟨position, pool, hvalued, H⟩
    rw [valuedAgainst_eq rfl h] at hvalued
    cases hvalued
    exact H
  · exact fun H => ⟨_, _, valuedAgainst_eq rfl h, H⟩

/-- The items of a request are those of its NFTs, each against what it is valued against. -/
theorem getUserPositions_eq (S : AssetServices) {userTokens : JsMap Address (List TokenId)}
    (hids : userTokens.values.flatten = ids) :
    getUserPositions K C S userTokens = userTokens.mapM fun user => do
      let items ← user.2.mapM fun tokenId => do
        let (position, pool) ← valuedAgainst K C userTokens tokenId
        (getUnderlyingAssets C S (records K C ids)).positionItem position pool
      return { userAddress := user.1, items := items.reduceOption } := by
  obtain ⟨pools, hpools, -⟩ :=
    (getPoolDetails_records : ∃ pools, getPoolDetails C (records K C ids) = .ok pools ∧ _)
  have hvalued (id : TokenId) :
      valuedAgainst K C userTokens id = positionAndPool (records K C ids) pools id := by
    rw [valuedAgainst, getTokenDetails_eq hids]
    change getPoolDetails C (records K C ids) >>= _ = _
    rw [hpools]
    rfl
  simp only [hvalued]
  rw [getUserPositions, getTokenDetails_eq hids]
  change getPoolDetails C (records K C ids) >>= _ = _
  rw [hpools]
  rfl

/-! ## Requests without collisions -/

omit [DecidableEq κ] in
/-- The condition of `valuesInOwnPools_iff` holds when NFTs with the same ticks have the same pool,
and so have NFTs with the same tokens. -/
theorem ownPool_last_of_pairwise
    (hticks : ∀ id ∈ ids, ∀ id' ∈ ids,
      tickRange C id = tickRange C id' → ownPool C id = ownPool C id')
    (htokens : ∀ id ∈ ids, ∀ id' ∈ ids,
      tokenPair C id = tokenPair C id' → ownPool C id = ownPool C id') (h : id ∈ ids) :
    ownPool C (lastWithTokens C ids (lastWithTicks C ids id)) = ownPool C id := by
  obtain ⟨ht, hmem⟩ := lastWithTicks_mem (C := C) h
  obtain ⟨hp, hmem'⟩ := lastWithTokens_mem (C := C) hmem
  exact (htokens _ hmem' _ hmem hp).trans (hticks _ hmem _ h ht)

omit [DecidableEq κ] in
/-- And only then, as a pool of the factory has one pair of tokens. -/
theorem pairwise_of_ownPool_last
    (hfactory : ∀ id ∈ ids, ∀ id' ∈ ids,
      ownPool C id = ownPool C id' → tokenPair C id = tokenPair C id')
    (H : ∀ id ∈ ids, ownPool C (lastWithTokens C ids (lastWithTicks C ids id)) = ownPool C id) :
    ∀ id ∈ ids, ∀ id' ∈ ids,
      tickRange C id = tickRange C id' ∨ tokenPair C id = tokenPair C id' →
        ownPool C id = ownPool C id' := by
  -- the last NFT with the tokens of an NFT has its pool, too
  have hown : ∀ id ∈ ids, ownPool C (lastWithTokens C ids id) = ownPool C id := by
    intro id h
    obtain ⟨-, hmem⟩ := lastWithTicks_mem (C := C) h
    obtain ⟨hp, hmem'⟩ := lastWithTokens_mem (C := C) hmem
    have hpair := hp.symm.trans (hfactory _ hmem' _ h (H id h))
    rw [← lastWithTokens_congr hmem h hpair]
    exact H id h
  rintro id h id' h' (hticks | htokens)
  · rw [← H id h, ← H id' h', lastWithTicks_congr h h' hticks]
  · rw [← hown id h, ← hown id' h', lastWithTokens_congr h h' htokens]

end

/-! ## Two fee tiers -/

/-- A chain with two NFTs of the same tokens: the first in the pool of the lower fee, with a
narrower range than the other one. -/
def twoFeeTiers : Contracts (ℤ × ℤ) where
  nonfungiblePositionManager := "manager"
  positions id :=
    { token0 := "weth", token1 := "usdc", fee := if id = 1 then 500 else 3000
      tickLower := if id = 1 then -60 else -120, tickUpper := if id = 1 then 60 else 120
      liquidity := 1000, feeGrowthInside0LastX128 := 0, feeGrowthInside1LastX128 := 0
      tokensOwed0 := 0, tokensOwed1 := 0 }
  getPool _ _ fee := if fee = 500 then "low" else "high"
  feeGrowthGlobal0X128 _ := 0
  feeGrowthGlobal1X128 _ := 0
  ticks _ _ := ⟨0, 0⟩
  slot0 pool := ⟨if pool = "low" then 2 ^ 96 else 2 ^ 97, 0⟩
  poolPositions _ _ := ⟨1000, 0, 0, 0, 0⟩
  balanceOf _ _ := 0

/-- Ticks as their own key. -/
def tickKeys : PositionKeys (ℤ × ℤ) where
  soliditySha3 _ tickLower tickUpper := (tickLower, tickUpper)
  ticks_inj h := Prod.mk.inj h

/-- The NFT of the lower fee is valued in the other pool. -/
theorem twoFeeTiers_not_valuesInOwnPools :
    ¬ ValuesInOwnPools tickKeys twoFeeTiers [("user", [1, 2])] := by
  intro H
  obtain ⟨position, pool, hvalued, hown⟩ := H 1 (by decide)
  rw [valuedAgainst_eq rfl (by decide)] at hvalued
  cases hvalued
  have hlow : lowerCase "high" = lowerCase "low" := hown.address
  exact absurd hlow (by decide)

end UniswapV3
end DefiBackend
