import DefiBackend.Integration.Protocols.BenqiLending
import DefiBackend.Theory.Fallible
import Mathlib.Algebra.BigOperators.Group.List.Basic
import Mathlib.Algebra.Order.BigOperators.Group.List
import Mathlib.Algebra.Order.Field.Basic
import Mathlib.Tactic.FieldSimp
import Mathlib.Tactic.Linarith

/-! # Rewards of BenqiLending

The amounts that `fetchUserData` reports for the reward tokens, where the calls return what a
contract keeps of an address.

* `accrual`: what a reward token has accrued, by the indices of the contract;
* `marketReward`: what the code adds for a market, which is the accrued amount again where the
  supply has gained nothing;
* `reportedAmount_iff`: when the two give the same amount. -/

namespace DefiBackend
namespace Integration
open Theory JsNumber

namespace BenqiLending

/-- What the contract keeps of an address: its balances in each market, the amount already accrued
for each reward, and the indices of each market and reward. -/
structure Figures where
  supplyBalance : Address → Nat
  borrowBalance : Address → Nat
  rewardAccrued : String → Nat
  rewardSupplyState : Address → String → Nat
  rewardBorrowState : Address → String → Nat
  rewardSupplierIndex : Address → String → Nat
  rewardBorrowerIndex : Address → String → Nat

/-- The number of a reward token in the labels. -/
def rewardIndex (reward : LendingToken) : String := (returnTokenIndex reward.symbol).getD ""

/-- The calls for a pool have returned what the contract keeps. -/
structure Reads (resp : CallResults) (address : Address) (f : Figures) (pool : Pool) : Prop where
  snapshot : ∃ data,
    resp.output (concatStrings [address, pool.id, "getAccountSnapshot"]) = .ok data ∧
    data.numberField "1" = .ok (finite (f.supplyBalance pool.id)) ∧
    data.numberField "2" = .ok (finite (f.borrowBalance pool.id))
  accrued : ∀ reward ∈ pool.rewarded, resp.output (concatStrings [address, rewardIndex reward,
    "rewardAccrued"]) = .ok (.number (finite (f.rewardAccrued (rewardIndex reward))))
  supplyState : ∀ reward ∈ pool.rewarded, ∃ data, resp.output (concatStrings [pool.id,
    rewardIndex reward, "rewardSupplyState"]) = .ok data ∧
      data.numberField "index" = .ok (finite (f.rewardSupplyState pool.id (rewardIndex reward)))
  borrowState : ∀ reward ∈ pool.rewarded, ∃ data, resp.output (concatStrings [pool.id,
    rewardIndex reward, "rewardBorrowState"]) = .ok data ∧
      data.numberField "index" = .ok (finite (f.rewardBorrowState pool.id (rewardIndex reward)))
  supplierIndex : ∀ reward ∈ pool.rewarded, resp.output (concatStrings [pool.id, address,
    rewardIndex reward, "rewardSupplierIndex"]) =
      .ok (.number (finite (f.rewardSupplierIndex pool.id (rewardIndex reward))))
  borrowerIndex : ∀ reward ∈ pool.rewarded, resp.output (concatStrings [pool.id, address,
    rewardIndex reward, "rewardBorrowerIndex"]) =
      .ok (.number (finite (f.rewardBorrowerIndex pool.id (rewardIndex reward))))

/-- The opportunities of `fetchOpportunityData` when they are hydrated: every market rewards the two
tokens of the metadata. -/
structure Rewarding («meta» : Meta) (pools : List Pool) (rewarded : List LendingToken) : Prop where
  pools : ∀ pool ∈ pools, pool.rewarded = rewarded
  addresses : rewarded.map LendingToken.address = [«meta».avax, «meta».qi]
  distinct : «meta».avax ≠ «meta».qi

/-! ## The law -/

section
variable (f : Figures) (pools : List Pool) (pool : Address) (reward : LendingToken)

/-- The index of a supplier, where there is none yet the initial one. -/
def supplierIndexOf (index : Nat) : ℚ := if index = 0 then 10 ^ 36 else index

/-- What the supply of an address has gained in a market. -/
def supplyGain : ℚ :=
  f.supplyBalance pool * (f.rewardSupplyState pool (rewardIndex reward) -
    supplierIndexOf (f.rewardSupplierIndex pool (rewardIndex reward))) / 10 ^ 54

/-- What the loan of an address has gained in a market, if it has an index. -/
def borrowGain : ℚ :=
  if f.rewardBorrowerIndex pool (rewardIndex reward) = 0 then 0
  else f.borrowBalance pool * ((f.rewardBorrowState pool (rewardIndex reward) : ℚ) -
    f.rewardBorrowerIndex pool (rewardIndex reward)) / 10 ^ 54

/-- The amount already accrued. -/
def accruedAmount : ℚ := f.rewardAccrued (rewardIndex reward) / 10 ^ reward.decimals

/-- The markets in which the address supplies or borrows. -/
def active : List Pool :=
  pools.filter fun pool => 0 < f.supplyBalance pool.id ∨ 0 < f.borrowBalance pool.id

/-- The accrued amount once, and what has been gained since in each market. -/
def accrual : ℚ :=
  accruedAmount f reward +
    ((active f pools).map fun pool => supplyGain f pool.id reward + borrowGain f pool.id reward).sum

/-- What the code adds for a market. -/
def marketReward : ℚ :=
  (if 0 < supplyGain f pool reward then supplyGain f pool reward else accruedAmount f reward) +
    borrowGain f pool reward

/-- The markets whose supply has gained nothing. -/
def idle : List Pool := (active f pools).filter fun pool => supplyGain f pool.id reward ≤ 0

/-- Nothing was accrued before, or exactly one market has gained nothing, and none has lost. -/
def CountedOnce : Prop :=
  (f.rewardAccrued (rewardIndex reward) = 0 ∧
    ∀ pool ∈ idle f pools reward, supplyGain f pool.id reward = 0) ∨
  ∃ pool, idle f pools reward = [pool] ∧ supplyGain f pool.id reward = 0

end

/-- The amount that an entry shows for the reward at a place, where an amount of zero is left out.
-/
def reportedAmount (memory : Memory) (e : EntryRef) (place : Nat) : JsNumber :=
  if place ∈ e.rewarded then ((memory.rewards place).map Amounts.amount).getD nan else 0

/-! ## What the code adds -/

section
variable {resp : CallResults} {address : Address} {f : Figures} {pool : Pool}

/-- The decimals of a balance and of the indices it is multiplied with cancel out. -/
theorem scaled_mul (balance index index' : ℚ) (decimals : ℕ) :
    balance * 10 ^ (-(decimals : ℤ)) * (index * 10 ^ (-54 + (decimals : ℤ)) -
      index' * 10 ^ (-54 + (decimals : ℤ))) = balance * (index - index') / 10 ^ 54 := by
  have hpow : (10 : ℚ) ^ (-(decimals : ℤ)) * 10 ^ (-54 + (decimals : ℤ)) = 1 / 10 ^ 54 := by
    rw [← zpow_add₀ (by norm_num : (10 : ℚ) ≠ 0), neg_add_cancel_comm_assoc]
    norm_num
  calc balance * 10 ^ (-(decimals : ℤ)) * (index * 10 ^ (-54 + (decimals : ℤ)) -
        index' * 10 ^ (-54 + (decimals : ℤ)))
      = balance * (index - index') * (10 ^ (-(decimals : ℤ)) * 10 ^ (-54 + (decimals : ℤ))) := by
        ring
    _ = balance * (index - index') / 10 ^ 54 := by rw [hpow, mul_one_div]

/-- The index of a supplier as it is used, with its decimals. -/
theorem supplierIndex_eq (index : Nat) (decimals : ℤ) :
    (if (finite (index : ℚ)).shiftedBy decimals = 0 then (tenPow 36).shiftedBy decimals
      else (finite (index : ℚ)).shiftedBy decimals) =
        finite (supplierIndexOf index * 10 ^ decimals) := by
  have hpow : (10 : ℚ) ^ decimals ≠ 0 := zpow_ne_zero _ (by norm_num)
  unfold supplierIndexOf
  by_cases hindex : index = 0
  · subst hindex
    rw [if_pos rfl, if_pos]
    · rfl
    · rw [finite_shiftedBy, Nat.cast_zero, zero_mul]
      rfl
  · rw [if_neg hindex, if_neg]
    · rfl
    · intro h
      have hzero : (index : ℚ) * 10 ^ decimals = 0 := JsNumber.finite.inj h
      exact mul_ne_zero (Nat.cast_ne_zero.mpr hindex) hpow hzero

theorem supplierIndexOf_pos (index : Nat) : 0 < supplierIndexOf index := by
  unfold supplierIndexOf
  split
  · norm_num
  · next h => exact Nat.cast_pos.mpr (Nat.pos_of_ne_zero h)

/-- The product of a balance and a difference of indices, with their decimals. -/
theorem shifted_gain (balance index index' : ℚ) (decimals : ℕ) :
    (finite balance).shiftedBy (-decimals) * ((finite index).shiftedBy (-54 + decimals) -
      finite (index' * 10 ^ (-54 + (decimals : ℤ)))) =
        finite (balance * (index - index') / 10 ^ 54) := by
  rw [finite_shiftedBy, finite_shiftedBy, finite_sub, ← scaled_mul balance index index' decimals]
  rfl

theorem supplierAccrued_eq (f : Figures) (pool : Address) (reward : LendingToken) (decimals : ℕ) :
    (if (finite (supplierIndexOf (f.rewardSupplierIndex pool (rewardIndex reward)) *
        10 ^ (-54 + (decimals : ℤ)))).gt 0 then
      if (finite (supplyGain f pool reward)).gt 0 then finite (supplyGain f pool reward)
      else (finite (f.rewardAccrued (rewardIndex reward))).shiftedBy (-reward.decimals)
    else 0) = finite (if 0 < supplyGain f pool reward then supplyGain f pool reward
      else accruedAmount f reward) := by
  have hindex : (finite (supplierIndexOf (f.rewardSupplierIndex pool (rewardIndex reward)) *
      10 ^ (-54 + (decimals : ℤ)))).gt 0 :=
    decide_eq_true (mul_pos (supplierIndexOf_pos _) (zpow_pos (by norm_num) _))
  have haccrued : (finite (f.rewardAccrued (rewardIndex reward))).shiftedBy (-reward.decimals) =
      finite (accruedAmount f reward) := by
    rw [finite_shiftedBy, accruedAmount, zpow_neg, zpow_natCast, div_eq_mul_inv]
  rw [if_pos hindex, haccrued, apply_ite finite]
  exact if_congr decide_eq_true_iff rfl rfl

theorem borrowerAccrued_eq (f : Figures) (pool : Address) (reward : LendingToken) (decimals : ℕ) :
    (if ((finite (f.rewardBorrowerIndex pool (rewardIndex reward))).shiftedBy
        (-54 + decimals)).gt 0 then
      (finite (f.borrowBalance pool)).shiftedBy (-decimals) *
        ((finite (f.rewardBorrowState pool (rewardIndex reward))).shiftedBy (-54 + decimals) -
          (finite (f.rewardBorrowerIndex pool (rewardIndex reward))).shiftedBy (-54 + decimals))
    else 0) = finite (borrowGain f pool reward) := by
  have hpow : (0 : ℚ) < 10 ^ (-54 + (decimals : ℤ)) := zpow_pos (by norm_num) _
  unfold borrowGain
  by_cases hindex : f.rewardBorrowerIndex pool (rewardIndex reward) = 0
  · rw [if_pos hindex, if_neg]
    · rfl
    · rw [hindex, finite_shiftedBy, Nat.cast_zero, zero_mul]
      exact Bool.false_ne_true
  · rw [if_neg hindex, if_pos]
    · exact shifted_gain _ _ _ _
    · exact decide_eq_true (mul_pos (Nat.cast_pos.mpr (Nat.pos_of_ne_zero hindex)) hpow)

theorem getUserMarketRewards_eq (hreads : Reads resp address f pool)
    {list : List (Address × JsNumber)}
    (h : getUserMarketRewards resp address pool (finite (f.borrowBalance pool.id))
      (finite (f.supplyBalance pool.id)) = .ok list) :
    list = pool.rewarded.map fun reward =>
      (reward.address, finite (marketReward f pool.id reward)) := by
  refine eq_map_of_mapM h fun reward hreward pair hpair => ?_
  have haccrued := hreads.accrued reward hreward
  obtain ⟨supplyState, hsupplyState, hsupply⟩ := hreads.supplyState reward hreward
  obtain ⟨borrowState, hborrowState, hborrow⟩ := hreads.borrowState reward hreward
  have hsupplier := hreads.supplierIndex reward hreward
  have hborrower := hreads.borrowerIndex reward hreward
  unfold rewardIndex at haccrued hsupplyState hborrowState hsupplier hborrower
  simp only [haccrued, hsupplyState, hsupply, hborrowState, hborrow, hsupplier, hborrower,
    ok_bind, Datum.bigNumber] at hpair
  obtain ⟨supplied, -, hpair⟩ := bind_eq_ok.mp hpair
  obtain ⟨underlying, -, hpair⟩ := bind_eq_ok.mp hpair
  cases hpair
  refine congrArg (Prod.mk reward.address) ?_
  change (if _ then if (_ : JsNumber).gt 0 then _ else _ else _) + _ = _
  rw [supplierIndex_eq, shifted_gain]
  exact congrArg₂ JsNumber.add (supplierAccrued_eq f pool.id reward _)
    (borrowerAccrued_eq f pool.id reward _)

/-- A natural number is greater than zero among numbers too. -/
theorem cast_gt_zero (n : Nat) : (finite (n : ℚ)).gt 0 = decide (0 < n) :=
  decide_eq_decide.mpr Nat.cast_pos

theorem supplies_ok (hreads : Reads resp address f pool) (h : supplies resp address pool = .ok s) :
    s.borrowBalance = finite (f.borrowBalance pool.id) ∧
      s.supplyBalance = finite (f.supplyBalance pool.id) ∧
        s.userSupply.isSome = decide (0 < f.supplyBalance pool.id) := by
  obtain ⟨data, hdata, hsupply, hborrow⟩ := hreads.snapshot
  unfold supplies at h
  rw [hdata, ok_bind, hborrow, ok_bind, hsupply, ok_bind] at h
  obtain ⟨exchangeRate, -, h⟩ := bind_eq_ok.mp h
  obtain ⟨⟨supply, borrow⟩, -, h⟩ := bind_eq_ok.mp h
  rw [cast_gt_zero] at h
  by_cases hpos : 0 < f.supplyBalance pool.id
  · simp only [hpos, decide_true, if_true] at h ⊢
    obtain ⟨_, -, h⟩ := bind_eq_ok.mp h
    obtain ⟨_, -, h⟩ := bind_eq_ok.mp h
    obtain ⟨_, -, h⟩ := bind_eq_ok.mp h
    obtain ⟨_, -, h⟩ := bind_eq_ok.mp h
    cases h
    exact ⟨rfl, rfl, rfl⟩
  · simp only [hpos, decide_false, Bool.false_eq_true, if_false] at h ⊢
    cases h
    exact ⟨rfl, rfl, rfl⟩

/-- What is added to the balances of the rewards for a market. -/
def rewardsOf (f : Figures) (pool : Pool) : List (Address × JsNumber) :=
  if 0 < f.supplyBalance pool.id ∨ 0 < f.borrowBalance pool.id then
    pool.rewarded.map fun reward => (reward.address, finite (marketReward f pool.id reward))
  else []

theorem market_rewards (hreads : Reads resp address f pool) {year : JsNumber} {m : Market}
    (h : (market resp address pool year).2 = .ok m) : m.rewards = rewardsOf f pool := by
  unfold market at h
  cases hsupplies : supplies resp address pool with
  | error e =>
    rw [hsupplies] at h
    cases h
  | ok s =>
    obtain ⟨hborrow, hsupply, huser⟩ := supplies_ok hreads hsupplies
    simp only [hsupplies, hborrow, hsupply, huser, cast_gt_zero, decide_eq_true_eq] at h
    unfold rewardsOf
    by_cases hpos : 0 < f.borrowBalance pool.id
    · rw [if_pos hpos] at h
      rw [if_pos (.inr hpos)]
      cases hborrowed : pool.borrowed with
      | nil =>
        rw [hborrowed] at h
        cases h
      | cons token tokens =>
        rw [hborrowed] at h
        obtain ⟨_, -, h⟩ := bind_eq_ok.mp h
        obtain ⟨rewards, hrewards, h⟩ := bind_eq_ok.mp h
        cases h
        exact getUserMarketRewards_eq hreads hrewards
    · rw [if_neg hpos] at h
      by_cases hsupplied : 0 < f.supplyBalance pool.id
      · rw [if_pos hsupplied] at h
        rw [if_pos (.inl hsupplied)]
        obtain ⟨rewards, hrewards, h⟩ := bind_eq_ok.mp h
        cases h
        exact getUserMarketRewards_eq hreads hrewards
      · rw [if_neg hsupplied] at h
        rw [if_neg (not_or.mpr ⟨hsupplied, hpos⟩)]
        cases h
        rfl

/-- The balances of the rewards after the loop over the pools. -/
theorem markets_rewards {pools : List PoolRef} (hreads : ∀ p ∈ pools, Reads resp address f p.1)
    {years years' : Nat → JsNumber} {accounts accounts' : Accounts}
    (h : markets resp address pools years accounts = (years', .ok accounts')) :
    accounts'.rewardBalancesMap =
      (pools.flatMap fun p => rewardsOf f p.1).foldl Accounts.addReward
        accounts.rewardBalancesMap := by
  induction pools generalizing years accounts with
  | nil =>
    cases h
    rfl
  | cons p pools ih =>
    obtain ⟨pool, i⟩ := p
    obtain ⟨hpool, hpools⟩ := List.forall_mem_cons.mp hreads
    rw [markets] at h
    rcases hmarket : market resp address pool (years i) with ⟨year, result⟩
    rw [hmarket] at h
    cases result with
    | error e => cases h
    | ok m =>
      have hm : m.rewards = rewardsOf f pool := market_rewards hpool (congrArg Prod.snd hmarket)
      rw [ih hpools h, List.flatMap_cons, List.foldl_append, ← hm]
      rfl

/-- The balance of a reward is the sum of what has been added for it. -/
theorem foldl_addReward {entries : List (Address × ℚ)} {map : Address → Option JsNumber}
    {reward : Address} {q : ℚ} (h : map reward = some (finite q)) :
    (entries.map fun e => (e.1, finite e.2)).foldl Accounts.addReward map reward =
      some (finite (q + ((entries.filter (·.1 = reward)).map Prod.snd).sum)) := by
  induction entries generalizing map q with
  | nil =>
    rw [List.map_nil, List.foldl_nil, h, List.filter_nil, List.map_nil, List.sum_nil, add_zero]
  | cons e entries ih =>
    rw [List.map_cons, List.foldl_cons]
    by_cases hreward : e.1 = reward
    · have hadd : Accounts.addReward map (e.1, finite e.2) reward = some (finite (q + e.2)) := by
        rw [Accounts.addReward, hreward, Function.update_self, h]
        rfl
      rw [ih hadd, List.filter_cons, if_pos (decide_eq_true hreward), List.map_cons, List.sum_cons,
        add_assoc]
    · have hadd : Accounts.addReward map (e.1, finite e.2) reward = some (finite q) := by
        rw [Accounts.addReward, Function.update_of_ne (Ne.symm hreward), h]
      rw [ih hadd, List.filter_cons, if_neg (by simpa using hreward)]

/-! ## The sums -/

section
variable {«meta» : Meta} {pools : List Pool} {rewarded : List LendingToken} {reward : LendingToken}

theorem Rewarding.distinct_tokens (H : Rewarding «meta» pools rewarded) :
    (rewarded.map LendingToken.address).Nodup := by
  rw [H.addresses]
  simpa using H.distinct

theorem Rewarding.key (H : Rewarding «meta» pools rewarded) (hreward : reward ∈ rewarded) :
    (Accounts.init «meta»).rewardBalancesMap reward.address = some (finite 0) := by
  have hmem := List.mem_map_of_mem (f := LendingToken.address) hreward
  rw [H.addresses] at hmem
  have haddress : reward.address = «meta».avax ∨ reward.address = «meta».qi := by simpa using hmem
  exact if_pos haddress

/-- Each market adds one amount for a reward. -/
theorem Rewarding.filter_eq (H : Rewarding «meta» pools rewarded) (hreward : reward ∈ rewarded)
    (amount : LendingToken → ℚ) :
    (rewarded.map fun token => (token.address, amount token)).filter (·.1 = reward.address) =
      [(reward.address, amount reward)] := by
  have hone : rewarded.filter (·.address = reward.address) = [reward] := by
    have hnodup := H.distinct_tokens
    clear H
    induction rewarded with
    | nil => cases hreward
    | cons token rewarded ih =>
      obtain ⟨hnew, hrest⟩ := List.nodup_cons.mp hnodup
      rw [List.filter_cons]
      by_cases htoken : token.address = reward.address
      · have htokens : rewarded.filter (·.address = reward.address) = [] := by
          refine List.filter_eq_nil_iff.mpr fun other hother hof => hnew ?_
          rw [htoken, ← of_decide_eq_true hof]
          exact List.mem_map_of_mem hother
        rw [if_pos (decide_eq_true htoken), htokens]
        obtain rfl | hmem := List.mem_cons.mp hreward
        · rfl
        · exact absurd (htoken ▸ List.mem_map_of_mem hmem) hnew
      · have hmem : reward ∈ rewarded :=
          (List.mem_cons.mp hreward).resolve_left fun h => htoken (h ▸ rfl)
        rw [if_neg (by simpa using htoken)]
        exact ih hmem hrest
  rw [List.filter_map]
  exact congrArg (List.map _) hone

theorem active_cons (f : Figures) (pool : Pool) (pools : List Pool) : active f (pool :: pools) =
    if 0 < f.supplyBalance pool.id ∨ 0 < f.borrowBalance pool.id then pool :: active f pools
    else active f pools := by
  unfold active
  rw [List.filter_cons]
  exact if_congr decide_eq_true_iff rfl rfl

/-- What is added for the markets, where all reward the same tokens. -/
theorem flatMap_rewardsOf (f : Figures) (h : ∀ pool ∈ pools, pool.rewarded = rewarded) :
    pools.flatMap (rewardsOf f) =
      ((active f pools).flatMap fun pool => rewarded.map fun token =>
        (token.address, marketReward f pool.id token)).map fun e => (e.1, finite e.2) := by
  induction pools with
  | nil => rfl
  | cons pool pools ih =>
    obtain ⟨hpool, hpools⟩ := List.forall_mem_cons.mp h
    rw [List.flatMap_cons, ih hpools, rewardsOf, active_cons]
    by_cases hactive : 0 < f.supplyBalance pool.id ∨ 0 < f.borrowBalance pool.id
    · rw [if_pos hactive, if_pos hactive, List.flatMap_cons, List.map_append, hpool, List.map_map]
      rfl
    · rw [if_neg hactive, if_neg hactive, List.nil_append]

/-- The balance of a reward after the loop. -/
theorem Rewarding.balance (H : Rewarding «meta» pools rewarded) (hreward : reward ∈ rewarded)
    (hreads : ∀ pool ∈ pools, Reads resp address f pool) {accounts : Accounts}
    (h : markets resp address pools.zipIdx years (.init «meta») = (years', .ok accounts)) :
    accounts.rewardBalancesMap reward.address =
      some (finite ((active f pools).map fun pool => marketReward f pool.id reward).sum) := by
  have hlist : pools.zipIdx.flatMap (fun p => rewardsOf f p.1) = pools.flatMap (rewardsOf f) := by
    rw [← List.flatMap_map Prod.fst, List.zipIdx_map_fst]
  rw [markets_rewards (fun p hp => hreads p.1 (List.fst_mem_of_mem_zipIdx hp)) h, hlist,
    flatMap_rewardsOf f H.pools, foldl_addReward (H.key hreward), zero_add, List.filter_flatMap]
  simp only [H.filter_eq hreward]
  rw [← List.map_eq_flatMap, List.map_map]
  rfl

theorem mem_rewardWrites {accounts : Accounts} {place : Nat} {v : Amounts} :
    (place, v) ∈ accounts.rewardWrites rewarded ↔ ∃ reward, rewarded[place]? = some reward ∧
      ((accounts.rewardBalancesMap reward.address).getD nan).falsy = false ∧
        v = ⟨(accounts.rewardBalancesMap reward.address).getD nan,
          (accounts.rewardBalancesMap reward.address).getD nan * reward.price⟩ := by
  unfold Accounts.rewardWrites
  rw [List.mem_filterMap]
  constructor
  · rintro ⟨⟨reward, place'⟩, hmem, hwrite⟩
    simp only [Option.ite_none_left_eq_some, Option.some.injEq, Prod.mk.injEq] at hwrite
    obtain ⟨hfalsy, rfl, rfl⟩ := hwrite
    exact ⟨reward, List.mk_mem_zipIdx_iff_getElem?.mp hmem, Bool.eq_false_iff.mpr hfalsy, rfl⟩
  · rintro ⟨reward, hreward, hfalsy, rfl⟩
    refine ⟨(reward, place), List.mk_mem_zipIdx_iff_getElem?.mpr hreward, ?_⟩
    simp only [hfalsy]
    rfl

/-- What an entry shows for a reward of which the balance is known. -/
theorem reportedAmount_of_balance {accounts : Accounts} {place : Nat} {q : ℚ}
    (hreward : rewarded[place]? = some reward)
    (hbalance : accounts.rewardBalancesMap reward.address = some (finite q))
    (chain : ChainId) (years : Nat → JsNumber) (rewards : Nat → Option Amounts) :
    reportedAmount ⟨years, store rewards (accounts.rewardWrites rewarded)⟩
      (accounts.entry chain rewarded) place = finite q := by
  have hfalsy : (finite q).falsy = decide (q = 0) := by
    refine decide_eq_decide.mpr ⟨?_, fun h => .inr (h ▸ rfl)⟩
    rintro (h | h)
    · cases h
    · exact JsNumber.finite.inj h
  have hwrites : ∀ v, (place, v) ∈ accounts.rewardWrites rewarded ↔
      q ≠ 0 ∧ v = ⟨finite q, finite q * reward.price⟩ := by
    intro v
    rw [mem_rewardWrites]
    constructor
    · rintro ⟨reward', hreward', hsome, rfl⟩
      cases Option.some.inj (hreward.symm.trans hreward')
      rw [hbalance, Option.getD_some, hfalsy] at hsome
      rw [hbalance]
      exact ⟨of_decide_eq_false hsome, rfl⟩
    · rintro ⟨hne, rfl⟩
      refine ⟨reward, hreward, ?_, ?_⟩
      · rw [hbalance, Option.getD_some, hfalsy]
        exact decide_eq_false hne
      · rw [hbalance]
        rfl
  change (if place ∈ (accounts.rewardWrites rewarded).map Prod.fst then _ else _) = _
  by_cases hzero : q = 0
  · rw [if_neg, hzero]
    · rfl
    · intro hmem
      obtain ⟨⟨_, v⟩, hv, rfl⟩ := List.mem_map.mp hmem
      exact ((hwrites v).mp hv).1 hzero
  · have hwrite := (hwrites _).mpr ⟨hzero, rfl⟩
    have hstore : store rewards (accounts.rewardWrites rewarded) place =
        some ⟨finite q, finite q * reward.price⟩ :=
      store_of_mem hwrite fun v hv => ((hwrites v).mp hv).2
    rw [if_pos (List.mem_map.mpr ⟨_, hwrite, rfl⟩)]
    change ((store rewards (accounts.rewardWrites rewarded) place).map Amounts.amount).getD nan = _
    rw [hstore]
    rfl

/-- The amount that is reported for a reward is its balance. -/
theorem reportedAmount_eq (H : Rewarding «meta» pools rewarded)
    (hreads : ∀ pool ∈ pools, Reads resp address f pool) {memory memory' : Memory} {e : EntryRef}
    (h : fetchUserData «meta» pools address (.ok resp) memory = (memory', .ok e)) {place : Nat}
    (hreward : rewarded[place]? = some reward) :
    reportedAmount memory' e place =
      finite ((active f pools).map fun pool => marketReward f pool.id reward).sum := by
  unfold fetchUserData at h
  rcases hmarkets : markets resp address pools.zipIdx memory.years (.init «meta») with
    ⟨years, result⟩
  simp only [hmarkets] at h
  cases result with
  | error _ => cases h
  | ok accounts =>
    cases pools with
    | nil => cases h
    | cons pool rest =>
      cases h
      have hbalance := H.balance (List.mem_of_getElem? hreward) hreads hmarkets
      have hrewarded := H.pools pool (List.mem_cons_self ..)
      rw [hrewarded]
      exact reportedAmount_of_balance hreward hbalance _ _ _

/-- What the markets add, and what has been gained in them. -/
theorem sum_marketReward (f : Figures) (reward : LendingToken) (list : List Pool) :
    (list.map fun pool => marketReward f pool.id reward).sum =
      (list.map fun pool => supplyGain f pool.id reward + borrowGain f pool.id reward).sum +
        ((list.filter fun pool => supplyGain f pool.id reward ≤ 0).map fun pool =>
          accruedAmount f reward - supplyGain f pool.id reward).sum := by
  induction list with
  | nil => simp
  | cons pool list ih =>
    rw [List.map_cons, List.sum_cons, ih, List.map_cons, List.sum_cons, List.filter_cons,
      marketReward]
    by_cases hgain : 0 < supplyGain f pool.id reward
    · rw [if_pos hgain, if_neg (by simpa using hgain)]
      ring
    · rw [if_neg hgain, if_pos (by simpa using hgain), List.map_cons, List.sum_cons]
      ring

/-- Differences from a number, one for each of some numbers that are not positive, sum up to it if
it is zero with all of them, or if the only one of them is zero. -/
theorem sum_sub_eq_iff {a : ℚ} (ha : 0 ≤ a) {list : List α} {g : α → ℚ} (h : ∀ x ∈ list, g x ≤ 0) :
    (list.map fun x => a - g x).sum = a ↔
      (a = 0 ∧ ∀ x ∈ list, g x = 0) ∨ ∃ x, list = [x] ∧ g x = 0 := by
  have hnonneg : ∀ {l : List α}, (∀ x ∈ l, g x ≤ 0) → ∀ y ∈ l.map fun x => a - g x, 0 ≤ y := by
    intro l hl
    exact List.forall_mem_map.mpr fun x hx => sub_nonneg.mpr ((hl x hx).trans ha)
  constructor
  · intro hsum
    cases list with
    | nil => exact .inl ⟨hsum.symm, fun x hx => absurd hx List.not_mem_nil⟩
    | cons x list =>
      obtain ⟨hx, hlist⟩ := List.forall_mem_cons.mp h
      rw [List.map_cons, List.sum_cons] at hsum
      cases list with
      | nil => exact .inr ⟨x, rfl, by simpa using hsum⟩
      | cons y list =>
        obtain ⟨hy, hrest⟩ := List.forall_mem_cons.mp hlist
        -- the second difference and the others have no room beside the first
        rw [List.map_cons, List.sum_cons] at hsum
        have hsums := List.sum_nonneg (hnonneg hrest)
        have hzero : a = 0 := by linarith
        refine .inl ⟨hzero, ?_⟩
        have htotal : ((x :: y :: list).map fun x => a - g x).sum = 0 := by
          rw [List.map_cons, List.sum_cons, List.map_cons, List.sum_cons, hsum, hzero]
        intro z hz
        have hdiff := List.all_zero_of_le_zero_le_of_sum_eq_zero (hnonneg h) htotal
          (List.mem_map_of_mem hz)
        linarith
  · rintro (⟨rfl, hall⟩ | ⟨x, rfl, hx⟩)
    · refine List.sum_eq_zero (List.forall_mem_map.mpr fun x hx => ?_)
      rw [hall x hx, sub_zero]
    · rw [List.map_singleton, List.sum_singleton, hx, sub_zero]

/-- The reported amount is what has been accrued exactly when the amount already accrued is counted
once. -/
theorem reportedAmount_iff (H : Rewarding «meta» pools rewarded)
    (hreads : ∀ pool ∈ pools, Reads resp address f pool) {memory memory' : Memory} {e : EntryRef}
    (h : fetchUserData «meta» pools address (.ok resp) memory = (memory', .ok e)) {place : Nat}
    (hreward : rewarded[place]? = some reward) :
    reportedAmount memory' e place = finite (accrual f pools reward) ↔
      CountedOnce f pools reward := by
  have hten : (10 : ℚ) ^ reward.decimals ≠ 0 := pow_ne_zero _ (by norm_num)
  have haccrued : 0 ≤ accruedAmount f reward :=
    div_nonneg (Nat.cast_nonneg _) (pow_nonneg (by norm_num) _)
  have hzero : accruedAmount f reward = 0 ↔ f.rewardAccrued (rewardIndex reward) = 0 := by
    rw [accruedAmount, div_eq_zero_iff, or_iff_left hten, Nat.cast_eq_zero]
  have hidle : ∀ pool ∈ idle f pools reward, supplyGain f pool.id reward ≤ 0 := fun pool hpool =>
    of_decide_eq_true (List.mem_filter.mp hpool).2
  rw [reportedAmount_eq H hreads h hreward, JsNumber.finite.injEq, sum_marketReward, accrual,
    add_comm (accruedAmount f reward), add_right_inj, CountedOnce, ← hzero]
  exact sum_sub_eq_iff haccrued hidle

end

end

/-! ## A market with a gain -/

def sampleRewarded : List LendingToken :=
  [⟨"0xa", "AVAX", 18, 1, []⟩, ⟨"0xb", "QI", 18, 1, []⟩]

def sampleMarket : Pool where
  id := "0xc"
  supplied := [⟨⟨"0xc", "qiAVAX", 8, 1, [⟨"AVAX", 18, 1⟩]⟩, 1, 1, 1⟩]
  borrowed := [⟨⟨"0xc", "qiAVAX", 8, 1, [⟨"AVAX", 18, 1⟩]⟩, 1, 1, 1⟩]
  rewarded := sampleRewarded

/-- A supply that has gained 2 of each reward, with some amount accrued before. -/
def sampleFigures (accrued : Nat) : Figures where
  supplyBalance _ := 10 ^ 18
  borrowBalance _ := 0
  rewardAccrued _ := accrued
  rewardSupplyState _ _ := 3 * 10 ^ 36
  rewardBorrowState _ _ := 3 * 10 ^ 36
  rewardSupplierIndex _ _ := 0
  rewardBorrowerIndex _ _ := 0

/-- What the calls return, told apart by the last letter of their functions. -/
def sampleDatum (accrued : Nat) : Option Char → Datum
  | some 'd' => .number (finite accrued)
  | some 't' | some 'e' => .record [("1", .number (finite (10 ^ 18 : ℕ))),
    ("2", .number (finite (0 : ℕ))), ("3", .number 1), ("index", .number (finite (3 * 10 ^ 36 : ℕ)))]
  | _ => .number (finite (0 : ℕ))

def sampleCalls (accrued : Nat) : CallResults := fun label =>
  some (sampleDatum accrued label.toList.getLast?)

def sampleRewardMeta : Meta := ⟨6, "0xa", "0xb"⟩

theorem rewarding_sample : Rewarding sampleRewardMeta [sampleMarket] sampleRewarded where
  pools := List.forall_mem_singleton.mpr rfl
  addresses := rfl
  distinct := by decide

theorem sampleCalls_output {label : String} {c : Option Char} (h : label.toList.getLast? = c)
    (accrued : Nat) : (sampleCalls accrued).output label = .ok (sampleDatum accrued c) :=
  congrArg (fun c => Except.ok (sampleDatum accrued c)) h

theorem reads_sample (accrued : Nat) :
    Reads (sampleCalls accrued) "0xd" (sampleFigures accrued) sampleMarket where
  snapshot := by
    have h : (concatStrings ["0xd", "0xc", "getAccountSnapshot"]).toList.getLast? = some 't' := by
      decide +kernel
    exact ⟨_, sampleCalls_output h accrued, rfl, rfl⟩
  accrued := by
    have h : ∀ reward ∈ sampleRewarded,
        (concatStrings ["0xd", rewardIndex reward, "rewardAccrued"]).toList.getLast? = some 'd' := by
      decide +kernel
    exact fun reward hreward => sampleCalls_output (h reward hreward) accrued
  supplyState := by
    have h : ∀ reward ∈ sampleRewarded,
        (concatStrings ["0xc", rewardIndex reward, "rewardSupplyState"]).toList.getLast? =
          some 'e' := by decide +kernel
    exact fun reward hreward => ⟨_, sampleCalls_output (h reward hreward) accrued, rfl⟩
  borrowState := by
    have h : ∀ reward ∈ sampleRewarded,
        (concatStrings ["0xc", rewardIndex reward, "rewardBorrowState"]).toList.getLast? =
          some 'e' := by decide +kernel
    exact fun reward hreward => ⟨_, sampleCalls_output (h reward hreward) accrued, rfl⟩
  supplierIndex := by
    have h : ∀ reward ∈ sampleRewarded,
        (concatStrings ["0xc", "0xd", rewardIndex reward, "rewardSupplierIndex"]).toList.getLast? =
          some 'x' := by decide +kernel
    exact fun reward hreward => sampleCalls_output (h reward hreward) accrued
  borrowerIndex := by
    have h : ∀ reward ∈ sampleRewarded,
        (concatStrings ["0xc", "0xd", rewardIndex reward, "rewardBorrowerIndex"]).toList.getLast? =
          some 'x' := by decide +kernel
    exact fun reward hreward => sampleCalls_output (h reward hreward) accrued

def sampleMemory : Memory := ⟨fun _ => 1, fun _ => none⟩

/-- The results are complete. -/
theorem sample_reports (accrued : Nat) (h : accrued ∈ [0, 5 * 10 ^ 18]) : ∃ memory e,
    fetchUserData sampleRewardMeta [sampleMarket] "0xd" (.ok (sampleCalls accrued)) sampleMemory =
      (memory, .ok e) := by
  have hok : ∀ accrued ∈ [0, 5 * 10 ^ 18], (fetchUserData sampleRewardMeta [sampleMarket] "0xd"
      (.ok (sampleCalls accrued)) sampleMemory).2.isOk := by decide +kernel
  have hok := hok accrued h
  rcases hresult : fetchUserData sampleRewardMeta [sampleMarket] "0xd" (.ok (sampleCalls accrued))
    sampleMemory with ⟨memory, result⟩
  rw [hresult] at hok
  cases result with
  | error e => cases hok
  | ok e => exact ⟨memory, e, rfl⟩

/-- With nothing accrued before, the gain is reported. -/
theorem sample_accrual : ∃ memory e, fetchUserData sampleRewardMeta [sampleMarket] "0xd"
    (.ok (sampleCalls 0)) sampleMemory = (memory, .ok e) ∧
      reportedAmount memory e 0 = finite (accrual (sampleFigures 0) [sampleMarket]
        ⟨"0xa", "AVAX", 18, 1, []⟩) := by
  obtain ⟨memory, e, h⟩ := sample_reports 0 (List.mem_cons_self ..)
  have hidle : idle (sampleFigures 0) [sampleMarket] ⟨"0xa", "AVAX", 18, 1, []⟩ = [] := by
    decide +kernel
  refine ⟨memory, e, h, (reportedAmount_iff rewarding_sample
    (List.forall_mem_singleton.mpr (reads_sample 0)) h rfl).mpr (.inl ⟨rfl, ?_⟩)⟩
  rw [hidle]
  exact fun pool hpool => absurd hpool List.not_mem_nil

/-- An amount accrued before is left out beside a gain. -/
theorem sample_not_accrual : ∃ memory e, fetchUserData sampleRewardMeta [sampleMarket] "0xd"
    (.ok (sampleCalls (5 * 10 ^ 18))) sampleMemory = (memory, .ok e) ∧
      reportedAmount memory e 0 = 2 ∧
      accrual (sampleFigures (5 * 10 ^ 18)) [sampleMarket] ⟨"0xa", "AVAX", 18, 1, []⟩ = 7 := by
  obtain ⟨memory, e, h⟩ := sample_reports (5 * 10 ^ 18)
    (List.mem_cons_of_mem _ (List.mem_singleton_self _))
  refine ⟨memory, e, h, ?_, by decide +kernel⟩
  rw [reportedAmount_eq rewarding_sample (List.forall_mem_singleton.mpr (reads_sample _)) h rfl]
  decide +kernel

end BenqiLending
end Integration
end DefiBackend
