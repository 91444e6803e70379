import DefiBackend.Common.Address
import DefiBackend.Common.CallData
import DefiBackend.Theory.SharedCells
import Mathlib.Data.List.Nodup

/-! # StakingRewards

`MultiContractProtocol.getUsersData` with the `formatUserData` of `StakingRewards`, which updates
the tokens of the pools in place. An entry of the response is a reference to a pool of the list all
addresses share, and is read when the whole request is over.

* `formatUserData`, `getUsersData`: the code, over the memory of the updated tokens;
* `session`: what an address writes and pushes, which depends on no memory;
* `entries_eq_iff`: when every address is told what it is told alone. -/

namespace DefiBackend
namespace Integration
open Theory

/-- The fields of a hydrated token that are read. -/
structure PricedToken where
  address : Address
  decimals : Nat
  price : JsNumber
  deriving DecidableEq

/-- The fields that are assigned to a token of a pool. -/
structure Amounts where
  amount : JsNumber
  value : JsNumber
  deriving DecidableEq

namespace StakingRewards

structure Pool where
  id : Address
  supplied : List PricedToken
  rewarded : List PricedToken
  deriving DecidableEq

/-- The objects that are assigned to: `pool.supplied[0]` and the rewards, by the places of the pool
and the reward in their lists. -/
inductive Cell
  | supplied (pool : Nat)
  | rewarded (pool reward : Nat)
  deriving DecidableEq

def Cell.pool : Cell → Nat
  | supplied i | rewarded i _ => i

abbrev Memory := Cell → Option Amounts

def Memory.assign (memory : Memory) (cell : Cell) (amounts : Amounts) : Memory :=
  Function.update memory cell (some amounts)

/-- A pool of the list, with its place. -/
abbrev PoolRef := Pool × Nat

def balanceOfLabel (address user : Address) : String := address ++ ".balanceOf(" ++ user ++ ")"

def earnedLabel (address reward user : Address) : String :=
  address ++ "." ++ reward ++ ".earned(" ++ user ++ ")"

/-- `'amount' in output ? output.amount : output`, as a number; `in` throws for a primitive. -/
def balanceRaw : Datum → Except String JsNumber
  | .number n => .ok n
  | .record fields => .ok (((fields.lookup "amount").map Datum.toStringNumber).getD .nan)
  | .text _ _ | .flag _ => .error typeError

section
variable (data : CallResults) (address : Address)

/-- The balance of an address in a pool, as amounts of the first supplied token. -/
def balance (pool : Pool) : Except String Amounts := do
  let balanceRaw ← balanceRaw (← data.output (balanceOfLabel pool.id address))
  match pool.supplied with
  | [] => throw typeError
  | token :: _ =>
    let balance := balanceRaw.normalizeDecimals token.decimals
    return ⟨balance, balance * token.price⟩

/-- What an address has earned of a reward. -/
def earned (pool : Pool) (reward : PricedToken) : Except String Amounts := do
  let earnedRaw ← data.output (earnedLabel pool.id reward.address address)
  let earned := earnedRaw.toStringNumber.normalizeDecimals reward.decimals
  return ⟨earned, earned * reward.price⟩

/-- The loop over the rewards of a pool. -/
def updateRewards (pool : PoolRef) : List (PricedToken × Nat) → Memory → Memory × Option String
  | [], memory => (memory, none)
  | (reward, j) :: rewards, memory =>
    match earned data address pool.1 reward with
    | .error e => (memory, some e)
    | .ok earned => updateRewards pool rewards (memory.assign (.rewarded pool.2 j) earned)

/-- Whether the pool is returned, or a failure. -/
def formatUserData (pool : PoolRef) (memory : Memory) : Memory × Except String Bool :=
  match balance data address pool.1 with
  | .error e => (memory, .error e)
  | .ok balance =>
    if balance.amount.falsy then (memory, .ok false)
    else
      match updateRewards data address pool pool.1.rewarded.zipIdx
        (memory.assign (.supplied pool.2) balance) with
      | (memory, some e) => (memory, .error e)
      | (memory, none) => (memory, .ok true)

/-- The inner loop of `getUsersData`: the pools pushed for the address, and a failure. -/
def formatPools : List PoolRef → Memory → Memory × List PoolRef × Option String
  | [], memory => (memory, [], none)
  | pool :: pools, memory =>
    match formatUserData data address pool memory with
    | (memory, .error e) => (memory, [], some e)
    | (memory, .ok false) => formatPools pools memory
    | (memory, .ok true) =>
      let (memory, userPools, e) := formatPools pools memory
      (memory, pool :: userPools, e)

end

/-- The outer loop, which the first failure ends. -/
def formatUsers (data : CallResults) (pools : List PoolRef) :
    List Address → Memory → (Address → List PoolRef) →
      Memory × (Address → List PoolRef) × Option String
  | [], memory, results => (memory, results, none)
  | address :: addresses, memory, results =>
    match formatPools data address pools memory with
    | (memory, userPools, e) =>
      let results := Function.update results address (results address ++ userPools)
      if e.isSome then (memory, results, e) else formatUsers data pools addresses memory results

/-- A pool as it is read in the end. -/
structure UserEntry where
  id : Address
  supplied : List (PricedToken × Option Amounts)
  rewarded : List (PricedToken × Option Amounts)
  deriving DecidableEq

def entry (memory : Memory) (pool : PoolRef) : UserEntry where
  id := pool.1.id
  supplied := pool.1.supplied.zipIdx.map fun (token, k) =>
    (token, if k = 0 then memory (.supplied pool.2) else none)
  rewarded := pool.1.rewarded.zipIdx.map fun (token, j) => (token, memory (.rewarded pool.2 j))

/-- `fetchUsersData`: the calls for a pool need its first reward. `chain` is the map of the results,
or the failure of the calls. -/
def fetchUsersData (pools : List Pool) (chain : Except String CallResults)
    (addresses : List Address) : Except String CallResults :=
  if addresses ≠ [] ∧ ∃ pool ∈ pools, pool.rewarded = [] then .error typeError else chain

structure Response where
  data : Address → List UserEntry
  errors : List String

/-- `getUsersData`, for the pools and errors of `getPoolData`. The tokens of the pools have no
amounts before. -/
def getUsersData (pools : List Pool) (errors : List String) (chain : Except String CallResults)
    (addresses : List Address) : Response :=
  match fetchUsersData pools chain addresses with
  | .error e => ⟨fun _ => [], errors ++ [e]⟩
  | .ok data =>
    let (memory, results, e) :=
      formatUsers data pools.zipIdx addresses (fun _ => none) fun _ => []
    ⟨fun address => (results address).map (entry memory), errors ++ e.toList⟩

/-! ## Sessions -/

/-- What processing an address writes, which pools it pushes, and whether it fails. -/
structure Session where
  writes : List (Cell × Amounts)
  pools : List PoolRef
  failure : Option String

section
variable (data : CallResults) (address : Address)

/-- What the chain reports about the rewards of a pool, up to the first failure. -/
def rewardWrites (pool : PoolRef) : List (PricedToken × Nat) → List (Cell × Amounts) × Option String
  | [] => ([], none)
  | (reward, j) :: rewards =>
    match earned data address pool.1 reward with
    | .error e => ([], some e)
    | .ok earned =>
      let (writes, e) := rewardWrites pool rewards
      ((.rewarded pool.2 j, earned) :: writes, e)

/-- What the chain reports about a pool. -/
def poolSession (pool : PoolRef) : Session :=
  match balance data address pool.1 with
  | .error e => ⟨[], [], some e⟩
  | .ok balance =>
    if balance.amount.falsy then ⟨[], [], none⟩
    else
      let (writes, e) := rewardWrites data address pool pool.1.rewarded.zipIdx
      ⟨(.supplied pool.2, balance) :: writes, if e.isSome then [] else [pool], e⟩

/-- What the chain reports about the pools, up to the first failure. -/
def session : List PoolRef → Session
  | [] => ⟨[], [], none⟩
  | pool :: pools =>
    let first := poolSession data address pool
    if first.failure.isSome then first
    else
      let rest := session pools
      ⟨first.writes ++ rest.writes, first.pools ++ rest.pools, rest.failure⟩

/-- The addresses that are processed. -/
def processed (pools : List PoolRef) : List Address → List Address
  | [] => []
  | address :: addresses =>
    if (session data address pools).failure.isSome then [address]
    else address :: processed pools addresses

variable {data address} {memory : Memory}

theorem updateRewards_eq {pool : PoolRef} {rewards : List (PricedToken × Nat)} :
    updateRewards data address pool rewards memory =
      (store memory (rewardWrites data address pool rewards).1,
        (rewardWrites data address pool rewards).2) := by
  induction rewards generalizing memory with
  | nil => rfl
  | cons reward rewards ih =>
    obtain ⟨reward, j⟩ := reward
    rw [updateRewards, rewardWrites]
    cases earned data address pool.1 reward with
    | error e => rfl
    | ok earned => exact ih

theorem formatUserData_eq {pool : PoolRef} :
    formatUserData data address pool memory =
      (store memory (poolSession data address pool).writes,
        match (poolSession data address pool).failure with
        | some e => .error e
        | none => .ok (poolSession data address pool).pools.isEmpty.not) := by
  rw [formatUserData, poolSession]
  cases balance data address pool.1 with
  | error e => rfl
  | ok balance =>
    by_cases hb : balance.amount.falsy
    · simp [hb]
    · simp only [hb, Bool.false_eq_true, if_false, updateRewards_eq, Memory.assign]
      cases (rewardWrites data address pool pool.1.rewarded.zipIdx).2 <;> rfl

/-- What can happen to a pool: nothing is written, because of a failure or for lack of a balance, or
the balance and rewards are. -/
theorem poolSession_cases (data : CallResults) (address : Address) (pool : PoolRef) :
    (∃ e, poolSession data address pool = ⟨[], [], some e⟩) ∨
    poolSession data address pool = ⟨[], [], none⟩ ∨
    ∃ amounts writes e, balance data address pool.1 = .ok amounts ∧
      rewardWrites data address pool pool.1.rewarded.zipIdx = (writes, e) ∧
      poolSession data address pool =
        ⟨(.supplied pool.2, amounts) :: writes, if e.isSome then [] else [pool], e⟩ := by
  rw [poolSession]
  cases balance data address pool.1 with
  | error e => exact .inl ⟨e, rfl⟩
  | ok amounts =>
    by_cases hb : amounts.amount.falsy
    · simp [hb]
    · exact .inr (.inr ⟨amounts, _, _, rfl, rfl, by simp [hb]⟩)

theorem formatPools_eq {pools : List PoolRef} :
    formatPools data address pools memory =
      (store memory (session data address pools).writes, (session data address pools).pools,
        (session data address pools).failure) := by
  induction pools generalizing memory with
  | nil => rfl
  | cons pool pools ih =>
    rw [formatPools, formatUserData_eq, session]
    obtain ⟨e, h⟩ | h | ⟨amounts, writes, e, -, -, h⟩ := poolSession_cases data address pool
    · simp [h]
    · simp [h, ih]
    · cases e with
      | some e => simp [h]
      | none => simp [h, ih, store_append]

/-- The value an address has in a cell of a pool. -/
def Reports (data : CallResults) (address : Address) (pool : PoolRef) : Cell → Amounts → Prop
  | .supplied _, amounts => balance data address pool.1 = .ok amounts
  | .rewarded _ j, amounts => ∃ reward, pool.1.rewarded[j]? = some reward ∧
      earned data address pool.1 reward = .ok amounts

theorem Reports.unique (H : Reports data address pool c v) (H' : Reports data address pool c v') :
    v = v' := by
  cases c with
  | supplied i => exact Except.ok.inj (H.symm.trans H')
  | rewarded i j =>
    obtain ⟨reward, hreward, h⟩ := H
    obtain ⟨reward', hreward', h'⟩ := H'
    obtain rfl := Option.some.inj (hreward.symm.trans hreward')
    exact Except.ok.inj (h.symm.trans h')

theorem mem_rewardWrites {pool : PoolRef} {rewards : List (PricedToken × Nat)}
    (h : (c, v) ∈ (rewardWrites data address pool rewards).1) :
    ∃ reward j, (reward, j) ∈ rewards ∧ c = .rewarded pool.2 j ∧
      earned data address pool.1 reward = .ok v := by
  induction rewards with
  | nil => exact nomatch h
  | cons reward rewards ih =>
    obtain ⟨reward, j⟩ := reward
    rw [rewardWrites] at h
    cases hearned : earned data address pool.1 reward with
    | error e => simp [hearned] at h
    | ok earned =>
      rw [hearned] at h
      obtain heq | h := List.mem_cons.mp h
      · obtain ⟨rfl, rfl⟩ := Prod.mk.inj heq
        exact ⟨reward, j, List.mem_cons_self .., rfl, hearned⟩
      · obtain ⟨reward', j', hmem, hrest⟩ := ih h
        exact ⟨reward', j', List.mem_cons_of_mem _ hmem, hrest⟩

/-- Without a failure, all rewards are written. -/
theorem exists_mem_rewardWrites {pool : PoolRef} {rewards : List (PricedToken × Nat)}
    (h : (rewardWrites data address pool rewards).2 = none) (hj : (reward, j) ∈ rewards) :
    ∃ v, (.rewarded pool.2 j, v) ∈ (rewardWrites data address pool rewards).1 := by
  induction rewards with
  | nil => exact nomatch hj
  | cons first rewards ih =>
    obtain ⟨first, i⟩ := first
    rw [rewardWrites] at h ⊢
    cases hearned : earned data address pool.1 first with
    | error e => simp [hearned] at h
    | ok earned =>
      rw [hearned] at h
      obtain heq | hj := List.mem_cons.mp hj
      · obtain ⟨rfl, rfl⟩ := Prod.mk.inj heq
        exact ⟨earned, List.mem_cons_self ..⟩
      · obtain ⟨v, hv⟩ := ih h hj
        exact ⟨v, List.mem_cons_of_mem _ hv⟩

theorem mem_poolSession_writes {pool : PoolRef} (h : (c, v) ∈ (poolSession data address pool).writes) :
    c.pool = pool.2 ∧ Reports data address pool c v := by
  obtain ⟨e, hs⟩ | hs | ⟨amounts, writes, e, hbalance, hwrites, hs⟩ :=
    poolSession_cases data address pool
  · rw [hs] at h
    exact nomatch h
  · rw [hs] at h
    exact nomatch h
  · rw [hs] at h
    obtain heq | h := List.mem_cons.mp h
    · obtain ⟨rfl, rfl⟩ := Prod.mk.inj heq
      exact ⟨rfl, hbalance⟩
    · obtain ⟨reward, j, hj, rfl, hearned⟩ := mem_rewardWrites (by rw [hwrites]; exact h)
      exact ⟨rfl, reward, List.mk_mem_zipIdx_iff_getElem?.mp hj, hearned⟩

/-- All cells of a pool that is pushed are written, and a pool that is written without a failure is
pushed. -/
theorem poolSession_pushed {pool : PoolRef} :
    (∀ p ∈ (poolSession data address pool).pools, p = pool ∧
      (∃ v, (.supplied pool.2, v) ∈ (poolSession data address pool).writes) ∧
      ∀ reward j, (reward, j) ∈ pool.1.rewarded.zipIdx →
        ∃ v, (.rewarded pool.2 j, v) ∈ (poolSession data address pool).writes) ∧
    ((poolSession data address pool).failure = none →
      (poolSession data address pool).writes ≠ [] → pool ∈ (poolSession data address pool).pools) := by
  obtain ⟨e, hs⟩ | hs | ⟨amounts, writes, e, hbalance, hwrites, hs⟩ :=
    poolSession_cases data address pool
  · simp [hs]
  · simp [hs]
  · cases e with
    | some e => simp [hs]
    | none =>
      rw [hs]
      refine ⟨fun p hp => ⟨List.mem_singleton.mp hp, ⟨_, List.mem_cons_self ..⟩, ?_⟩, fun _ _ =>
        List.mem_singleton_self _⟩
      intro reward j hj
      obtain ⟨v, hv⟩ := exists_mem_rewardWrites (by rw [hwrites]) hj
      rw [hwrites] at hv
      exact ⟨v, List.mem_cons_of_mem _ hv⟩

theorem mem_session_writes {pools : List PoolRef} (h : (c, v) ∈ (session data address pools).writes) :
    ∃ pool ∈ pools, c.pool = pool.2 ∧ Reports data address pool c v := by
  induction pools with
  | nil => exact nomatch h
  | cons pool pools ih =>
    have hfirst : (c, v) ∈ (poolSession data address pool).writes → _ := fun h =>
      (⟨pool, List.mem_cons_self .., mem_poolSession_writes h⟩ :
        ∃ p ∈ pool :: pools, c.pool = p.2 ∧ Reports data address p c v)
    rw [session] at h
    split at h
    · exact hfirst h
    · obtain h | h := List.mem_append.mp h
      · exact hfirst h
      · obtain ⟨p, hp, hrest⟩ := ih h
        exact ⟨p, List.mem_cons_of_mem _ hp, hrest⟩

/-- The cells of a pool. -/
def Pool.HasCell (pool : PoolRef) : Cell → Prop
  | .supplied i => i = pool.2
  | .rewarded i j => i = pool.2 ∧ ∃ reward, (reward, j) ∈ pool.1.rewarded.zipIdx

theorem mem_session_pools {pools : List PoolRef} (h : p ∈ (session data address pools).pools) :
    p ∈ pools ∧ ∀ c, Pool.HasCell p c → ∃ v, (c, v) ∈ (session data address pools).writes := by
  induction pools with
  | nil => exact nomatch h
  | cons pool pools ih =>
    have hfirst : p ∈ (poolSession data address pool).pools → p = pool ∧
        ∀ c, Pool.HasCell p c → ∃ v, (c, v) ∈ (poolSession data address pool).writes := by
      intro h
      obtain ⟨rfl, hsupplied, hrewarded⟩ := poolSession_pushed.1 p h
      refine ⟨rfl, fun c hc => ?_⟩
      cases c with
      | supplied i => exact hc ▸ hsupplied
      | rewarded i j =>
        obtain ⟨rfl, reward, hj⟩ := hc
        exact hrewarded reward j hj
    rw [session] at h ⊢
    split
    · rename_i hfailure
      rw [if_pos hfailure] at h
      obtain ⟨rfl, hcells⟩ := hfirst h
      exact ⟨List.mem_cons_self .., hcells⟩
    · rename_i hfailure
      rw [if_neg hfailure] at h
      obtain h | h := List.mem_append.mp h
      · obtain ⟨rfl, hcells⟩ := hfirst h
        refine ⟨List.mem_cons_self .., fun c hc => ?_⟩
        obtain ⟨v, hv⟩ := hcells c hc
        exact ⟨v, List.mem_append_left _ hv⟩
      · obtain ⟨hp, hcells⟩ := ih h
        refine ⟨List.mem_cons_of_mem _ hp, fun c hc => ?_⟩
        obtain ⟨v, hv⟩ := hcells c hc
        exact ⟨v, List.mem_append_right _ hv⟩

/-- Without a failure, every pool that is written is pushed. -/
theorem exists_pushed {pools : List PoolRef} (hfailure : (session data address pools).failure = none)
    (h : (c, v) ∈ (session data address pools).writes) :
    ∃ p ∈ (session data address pools).pools, p.2 = c.pool := by
  induction pools with
  | nil => exact nomatch h
  | cons pool pools ih =>
    rw [session] at h hfailure ⊢
    split at h
    · rename_i hfirst
      rw [if_pos hfirst] at hfailure
      simp [hfailure] at hfirst
    · rename_i hfirst
      rw [if_neg hfirst] at hfailure ⊢
      obtain h | h := List.mem_append.mp h
      · have hpool := poolSession_pushed.2 (by simpa using hfirst) (List.ne_nil_of_mem h)
        exact ⟨pool, List.mem_append_left _ hpool, (mem_poolSession_writes h).1.symm⟩
      · obtain ⟨p, hp, hc⟩ := ih hfailure h
        exact ⟨p, List.mem_append_right _ hp, hc⟩

/-! ## Runs -/

theorem mem_of_mem_processed (h : a ∈ processed data pools addresses) : a ∈ addresses := by
  induction addresses with
  | nil => exact h
  | cons b addresses ih =>
    rw [processed] at h
    split at h
    · exact List.mem_cons.mpr (.inl (List.mem_singleton.mp h))
    · exact List.mem_cons.mpr ((List.mem_cons.mp h).imp id ih)

/-- Only the last address that is processed can fail. -/
theorem failure_eq_none (h : processed data pools addresses = before ++ [last]) :
    ∀ a ∈ before, (session data a pools).failure = none := by
  induction addresses generalizing before with
  | nil => simp [processed] at h
  | cons b addresses ih =>
    rw [processed] at h
    split at h
    · obtain rfl : before = [] := by
        cases before with
        | nil => rfl
        | cons c before => simp at h
      exact fun a ha => nomatch ha
    · rename_i hb
      cases before with
      | nil => exact fun a ha => nomatch ha
      | cons c before =>
        obtain rfl := (List.cons.inj h).1
        exact List.forall_mem_cons.mpr ⟨by simpa using hb, ih (List.cons.inj h).2⟩

/-- The memory holds what the processed addresses have written, and each of them has its pools. -/
theorem formatUsers_eq (pools : List PoolRef) (results : Address → List PoolRef)
    (haddresses : addresses.Nodup) :
    (formatUsers data pools addresses memory results).1 =
      store memory ((processed data pools addresses).flatMap fun a => (session data a pools).writes) ∧
    ∀ a, (formatUsers data pools addresses memory results).2.1 a =
      results a ++ if a ∈ processed data pools addresses then (session data a pools).pools else [] := by
  induction addresses generalizing memory results with
  | nil => simp [formatUsers, processed]
  | cons b addresses ih =>
    obtain ⟨hb, haddresses⟩ := List.nodup_cons.mp haddresses
    rw [formatUsers, formatPools_eq, processed]
    have hupdate : ∀ a, Function.update results b (results b ++ (session data b pools).pools) a =
        results a ++ if a = b then (session data b pools).pools else [] := by
      intro a
      by_cases hab : a = b
      · subst hab
        simp
      · simp [hab]
    by_cases hfailure : (session data b pools).failure.isSome
    · simp only [hfailure, if_true, List.flatMap_singleton, List.mem_singleton, hupdate]
      refine ⟨trivial, fun a => ?_⟩
      by_cases hab : a = b
      · rw [if_pos hab, if_pos hab, hab]
      · rw [if_neg hab, if_neg hab]
    · simp only [hfailure, Bool.false_eq_true, if_false, List.flatMap_cons, store_append]
      obtain ⟨hmemory, hresults⟩ := @ih (store memory (session data b pools).writes)
        (Function.update results b (results b ++ (session data b pools).pools)) haddresses
      refine ⟨hmemory, fun a => ?_⟩
      rw [hresults, hupdate, List.append_assoc]
      by_cases hab : a = b
      · subst hab
        have hnot : a ∉ processed data pools addresses := fun h => hb (mem_of_mem_processed h)
        simp [hnot]
      · simp [hab]

/-- A cell is owned by an address that reports its pool. -/
def Owns (data : CallResults) (pools : List PoolRef) (address : Address) (c : Cell) : Prop :=
  (∃ p ∈ (session data address pools).pools, p.2 = c.pool) ∧
    ∃ v, (c, v) ∈ (session data address pools).writes

/-- There is one pool at a place. -/
theorem eq_of_place {list : List Pool} (hp : p ∈ list.zipIdx) (hp' : p' ∈ list.zipIdx)
    (h : p.2 = p'.2) : p = p' := by
  have hget := List.mem_zipIdx_iff_getElem?.mp hp
  have hget' := List.mem_zipIdx_iff_getElem?.mp hp'
  rw [h] at hget
  exact Prod.ext (Option.some.inj (hget.symm.trans hget')) h

theorem functional_session {list : List Pool} :
    Functional (session data address list.zipIdx).writes := by
  intro c v v' h h'
  obtain ⟨p, hp, hc, hv⟩ := mem_session_writes h
  obtain ⟨p', hp', hc', hv'⟩ := mem_session_writes h'
  obtain rfl := eq_of_place hp hp' (hc.symm.trans hc')
  exact hv.unique hv'

/-- A pool with a balance has a supplied token. -/
theorem exists_supplied (h : balance data address pool = .ok v) :
    ∃ token, (token, 0) ∈ pool.supplied.zipIdx := by
  rw [balance] at h
  cases hsupplied : pool.supplied with
  | nil =>
    rw [hsupplied] at h
    cases houtput : data.output (balanceOfLabel pool.id address) with
    | error e => simp [houtput, bind, Except.bind] at h
    | ok output =>
      cases hraw : balanceRaw output <;>
        simp [houtput, hraw, bind, Except.bind, throw, throwThe, MonadExceptOf.throw] at h
  | cons token tokens => exact ⟨token, List.mem_cons_self ..⟩

/-- The entries of the pools of an address are the same in two memories exactly when the cells it
owns are. -/
theorem map_entry_eq_iff {memory memory' : Memory} {list : List Pool} :
    ((session data address list.zipIdx).pools.map (entry memory) =
      (session data address list.zipIdx).pools.map (entry memory')) ↔
    ∀ c, Owns data list.zipIdx address c → memory c = memory' c := by
  rw [List.map_inj_left]
  constructor
  · rintro h c ⟨⟨p, hp, hc⟩, v, hv⟩
    have hentry := h p hp
    obtain ⟨q, hq, hc', hreports⟩ := mem_session_writes hv
    obtain rfl := eq_of_place (mem_session_pools hp).1 hq (hc.trans hc')
    cases c with
    | supplied i =>
      obtain rfl : p.2 = i := hc
      obtain ⟨token, htoken⟩ := exists_supplied hreports
      have heq := List.map_inj_left.mp (congrArg UserEntry.supplied hentry) _ htoken
      simpa using heq
    | rewarded i j =>
      obtain rfl : p.2 = i := hc
      obtain ⟨reward, hreward, -⟩ := hreports
      have heq := List.map_inj_left.mp (congrArg UserEntry.rewarded hentry) _
        (List.mk_mem_zipIdx_iff_getElem?.mpr hreward)
      simpa using heq
  · intro h p hp
    have hcells : ∀ c, Pool.HasCell p c → memory c = memory' c := by
      intro c hc
      refine h c ⟨⟨p, hp, ?_⟩, (mem_session_pools hp).2 c hc⟩
      cases c with
      | supplied i => exact hc.symm
      | rewarded i j => exact hc.1.symm
    rw [entry, entry, hcells (.supplied p.2) rfl]
    congr 1
    refine List.map_congr_left fun (reward, j) hr => ?_
    exact congrArg (Prod.mk reward) (hcells (.rewarded p.2 j) ⟨rfl, reward, hr⟩)

/-! ## Noninterference -/

/-- When the addresses of a request are told what they are told alone, for the results of the calls:
no processed address has other amounts than a processed address whose pool it writes into, and the
addresses after a failure have nothing to be told. -/
structure KeepsApart (data : CallResults) (pools : List PoolRef) (addresses : List Address) :
    Prop where
  same : ∀ a ∈ processed data pools addresses, ∀ c, Owns data pools a c →
    ∀ b ∈ processed data pools addresses, ∀ v v',
      (c, v) ∈ (session data a pools).writes → (c, v') ∈ (session data b pools).writes → v = v'
  rest : ∀ a ∈ addresses, a ∉ processed data pools addresses → (session data a pools).pools = []

/-- Every address of a request is told what it is told alone. -/
def Noninterfering (pools : List Pool) (errors : List String) (chain : Except String CallResults)
    (addresses : List Address) : Prop :=
  ∀ a ∈ addresses, (getUsersData pools errors chain addresses).data a =
    (getUsersData pools errors chain [a]).data a

/-- What an address is told alone. -/
theorem processed_singleton : processed data pools [a] = [a] := by
  simp [processed]

theorem entries_eq {pools : List Pool} (haddresses : addresses.Nodup)
    (h : fetchUsersData pools chain addresses = .ok data) :
    (getUsersData pools errors chain addresses).data a =
      if a ∈ processed data pools.zipIdx addresses then
        (session data a pools.zipIdx).pools.map (entry (store (fun _ => none)
          ((processed data pools.zipIdx addresses).flatMap
            fun b => (session data b pools.zipIdx).writes)))
      else [] := by
  obtain ⟨hmemory, hresults⟩ := @formatUsers_eq data (fun _ => none) addresses
    pools.zipIdx (fun _ => []) haddresses
  simp only [getUsersData, h, hmemory, hresults, List.nil_append]
  split <;> rfl

/-- What is fetched for one address of a request is what is fetched for it alone. -/
theorem fetchUsersData_singleton {pools : List Pool} (ha : a ∈ addresses) :
    fetchUsersData pools chain [a] = fetchUsersData pools chain addresses := by
  simp [fetchUsersData, List.ne_nil_of_mem ha]

/-- One address is told what it is told alone exactly when it is processed and the cells it owns
hold its own values, or there is nothing to tell. -/
theorem told_alone_iff {pools : List Pool} (haddresses : addresses.Nodup) (ha : a ∈ addresses)
    (h : fetchUsersData pools chain addresses = .ok data) :
    (getUsersData pools errors chain addresses).data a =
        (getUsersData pools errors chain [a]).data a ↔
      (a ∈ processed data pools.zipIdx addresses → ∀ c, Owns data pools.zipIdx a c →
        store (fun _ => none) ((processed data pools.zipIdx addresses).flatMap
            fun b => (session data b pools.zipIdx).writes) c =
          store (fun _ => none) (session data a pools.zipIdx).writes c) ∧
      (a ∉ processed data pools.zipIdx addresses → (session data a pools.zipIdx).pools = []) := by
  have halone : fetchUsersData pools chain [a] = .ok data :=
    (fetchUsersData_singleton ha).trans h
  rw [entries_eq haddresses h, entries_eq (List.nodup_singleton a) halone, processed_singleton,
    if_pos (List.mem_singleton_self a), List.flatMap_singleton]
  by_cases hprocessed : a ∈ processed data pools.zipIdx addresses
  · rw [if_pos hprocessed, map_entry_eq_iff]
    simp [hprocessed]
  · rw [if_neg hprocessed, eq_comm, List.map_eq_nil_iff]
    simp [hprocessed]

theorem noninterfering_iff {pools : List Pool} {chain : Except String CallResults}
    (haddresses : addresses.Nodup) :
    Noninterfering pools errors chain addresses ↔
      ∀ data, fetchUsersData pools chain addresses = .ok data →
        KeepsApart data pools.zipIdx addresses := by
  cases hfetch : fetchUsersData pools chain addresses with
  | error e =>
    refine iff_of_true (fun a ha => ?_) fun _ h => nomatch h
    simp [getUsersData, hfetch, fetchUsersData_singleton ha]
  | ok data =>
    have hsessions := @store_sessions_eq_iff _ _ _ _ (fun _ => none)
      (processed data pools.zipIdx addresses) (fun a => (session data a pools.zipIdx).writes)
      (Owns data pools.zipIdx) (fun a => functional_session) (fun a c hc => hc.2) fun before last hsplit a ha c v hv =>
        ⟨exists_pushed (failure_eq_none hsplit a ha) hv, v, hv⟩
    constructor
    · rintro h _ ⟨⟩
      have htold := fun a ha => (told_alone_iff haddresses ha hfetch).mp (h a ha)
      exact ⟨hsessions.mp fun a ha => (htold a (mem_of_mem_processed ha)).1 ha,
        fun a ha => (htold a ha).2⟩
    · intro h a ha
      obtain ⟨hsame, hrest⟩ := h data rfl
      exact (told_alone_iff haddresses ha hfetch).mpr ⟨hsessions.mpr hsame a, hrest a ha⟩

end
end StakingRewards
end Integration
end DefiBackend
