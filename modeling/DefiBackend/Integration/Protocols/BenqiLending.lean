import DefiBackend.Common.Collections
import DefiBackend.Integration.Protocols.StakingRewards
import DefiBackend.Integration.Support.ProtocolKeys
import Mathlib.Data.List.Sigma
import Mathlib.Algebra.Group.Nat.Even

/-! # BenqiLending

`RootProtocolCacheable.getUsersData` with the `fetchUserData` of `BenqiLending`, whose part after
the contract calls runs without a break, so that the addresses follow each other in the order in
which their calls return. It negates `pool.borrowed[0].apy.year` of the pools the address borrows
from before the borrowed token is copied, and assigns amounts to the rewards of `pools[0]`, which
the entries refer to.

* `fetchUserData`, `getUsersData`: the code, over the memory of what is changed in place;
* `plan`, `toggled`: what an address does with the pools, whatever the memory is;
* `told_alone_iff`: when an address is told what it is told alone. -/

namespace DefiBackend
namespace Integration
open Theory JsNumber

namespace BenqiLending

structure Underlying where
  symbol : String
  decimals : Nat
  price : JsNumber
  deriving DecidableEq

structure LendingToken where
  address : Address
  symbol : String
  decimals : Nat
  price : JsNumber
  underlying : List Underlying
  deriving DecidableEq

/-- A supplied or borrowed token: `total` is its `totalSupply` or `totalBorrowed`, and `year` the
year of its APY when it is hydrated. -/
structure MarketToken where
  token : LendingToken
  total : JsNumber
  tvl : JsNumber
  year : JsNumber
  deriving DecidableEq

structure Pool where
  id : Address
  supplied : List MarketToken
  borrowed : List MarketToken
  rewarded : List LendingToken
  deriving DecidableEq

structure Meta where
  chain : ChainId
  avax : Address
  qi : Address

structure Breakdown where
  day : JsNumber
  week : JsNumber
  month : JsNumber
  year : Option JsNumber
  deriving DecidableEq

/-- A copy of a supplied or borrowed token with the user's amounts. -/
structure UserToken where
  token : LendingToken
  total : JsNumber
  tvl : JsNumber
  amount : JsNumber
  value : JsNumber
  apr : Breakdown
  apy : Breakdown
  deriving DecidableEq

/-! ## Reading the results of the calls -/

/-- `concatStrings`. -/
def concatStrings (args : List String) : String := "_".intercalate args

/-- `ReturnTokenIndex[symbol]` in a label; `none` is `undefined`. -/
def returnTokenIndex (symbol : String) : Option String :=
  [("AVAX", "1"), ("QI", "0"), ("1", "AVAX"), ("0", "QI")].lookup symbol

/-- `Number(ReturnTokenIndex[symbol])` in a label. -/
def speedIndex (symbol : String) : String :=
  match returnTokenIndex symbol with
  | some "0" => "0"
  | some "1" => "1"
  | _ => "NaN"

/-- The first element of a list some property of which is read. -/
def first : List α → Except String α
  | [] => .error typeError
  | a :: _ => .ok a

section
variable (resp : CallResults) (address : Address)

/-- `useDistributionApy`: the distribution APYs of supplying and borrowing. -/
def useDistributionApy (pool : Pool) : Except String (JsNumber × JsNumber) := do
  let rewards ← pool.rewarded.mapM fun rewardToken => do
    let index := speedIndex rewardToken.symbol
    let borrowRewardSpeedRaw ←
      (← resp.output (concatStrings [pool.id, index, "borrowRewardSpeeds"])).bigNumber
    let supplyRewardsSpeedRaw ←
      (← resp.output (concatStrings [pool.id, index, "supplyRewardSpeeds"])).bigNumber
    let supplyRewardsPerDay :=
      supplyRewardsSpeedRaw.dividedBy (tenPow rewardToken.decimals) * 86400
    let borrowRewardsPerDay :=
      borrowRewardSpeedRaw.dividedBy (tenPow rewardToken.decimals) * 86400
    let supplied ← first pool.supplied
    let underlying ← first supplied.token.underlying
    let baseSupply := (rewardToken.price * supplyRewardsPerDay).dividedBy
      (supplied.total * underlying.price) + 1
    let borrowed ← first pool.borrowed
    let baseBorrow := (rewardToken.price * borrowRewardsPerDay).dividedBy
      (borrowed.total * underlying.price) + 1
    let supply := (baseSupply.pow 365 - 1) * 100
    let borrow := (baseBorrow.pow 365 - 1) * 100
    return (if supply = nan then 0 else supply,
      if borrow = nan ∨ underlying.symbol = "sAVAX" then 0 else borrow)
  let (supply, borrow) := rewards.foldl
    (fun total reward => (total.1 + reward.1, total.2 + reward.2)) ((0, 0) : JsNumber × JsNumber)
  return (if supply.gte 10000 then 10000 else supply.toFixed 2,
    if borrow.gte 10000 then 10000 else borrow.toFixed 2)

/-- `pool.apy?.year ? pool.apy.year + distributionApy / 100 : null`. -/
def userApy (year distributionApy : JsNumber) : Option JsNumber :=
  if year.falsy then none else some (year + distributionApy / 100)

def breakdown (apy : Option JsNumber) : Breakdown where
  day := apy.getD 0 / 365
  week := apy.getD 0 / 52
  month := apy.getD 0 / 12
  year := apy

/-- The exchange rate if there is none. -/
def defaultExchangeRate : JsNumber := tenPow 18

/-- `formatLendingUserData`, for a token whose APY is now `year`. -/
def formatLendingUserData (token : MarketToken) (year balance distributionApy : JsNumber)
    (exchangeRate : JsNumber) : Except String UserToken := do
  let underlying ← first token.token.underlying
  let userBalance := balance.toDecimals underlying.decimals * exchangeRate.toDecimals 18
  let apy := userApy year distributionApy
  return {
    token := token.token
    total := token.total
    tvl := token.tvl
    amount := userBalance
    value := userBalance * underlying.price
    apr := breakdown apy
    apy := breakdown apy }

/-- `getUserMarketRewards`: what is added to the balances of the rewards of a pool. -/
def getUserMarketRewards (pool : Pool) (borrowBalance supplyBalance : JsNumber) :
    Except String (List (Address × JsNumber)) :=
  pool.rewarded.mapM fun reward => do
    let index := (returnTokenIndex reward.symbol).getD ""
    let rewardAccrued ←
      (← resp.output (concatStrings [address, index, "rewardAccrued"])).bigNumber
    let rewardAccruedDec := rewardAccrued.shiftedBy (-reward.decimals)
    let supplied ← first pool.supplied
    let suppliedIndexDecimals : Int := -54 + supplied.token.decimals
    let supplyStateIndex ←
      (← resp.output (concatStrings [pool.id, index, "rewardSupplyState"])).numberField "index"
    let supplyStateIndexDec := supplyStateIndex.shiftedBy suppliedIndexDecimals
    let borrowStateIndex ←
      (← resp.output (concatStrings [pool.id, index, "rewardBorrowState"])).numberField "index"
    let underlying ← first supplied.token.underlying
    let borrowedIndexDecimals : Int := -54 + underlying.decimals
    let borrowStateIndexDec := borrowStateIndex.shiftedBy borrowedIndexDecimals
    let supplierIndex ←
      (← resp.output (concatStrings [pool.id, address, index, "rewardSupplierIndex"])).bigNumber
    let supplierIndexDec := supplierIndex.shiftedBy suppliedIndexDecimals
    let borrowerIndex ←
      (← resp.output (concatStrings [pool.id, address, index, "rewardBorrowerIndex"])).bigNumber
    let borrowerIndexDec := borrowerIndex.shiftedBy borrowedIndexDecimals
    let supplyBalanceDec := supplyBalance.shiftedBy (-supplied.token.decimals)
    let borrowBalanceDec := borrowBalance.shiftedBy (-underlying.decimals)
    let supplierIndexDec :=
      if supplierIndexDec = 0 then (tenPow 36).shiftedBy suppliedIndexDecimals
      else supplierIndexDec
    let userSupplyBalance := supplyBalanceDec * (supplyStateIndexDec - supplierIndexDec)
    let supplierAccrued :=
      if supplierIndexDec.gt 0 then
        if userSupplyBalance.gt 0 then userSupplyBalance else rewardAccruedDec
      else 0
    let borrowerAccrued :=
      if borrowerIndexDec.gt 0 then borrowBalanceDec * (borrowStateIndexDec - borrowerIndexDec)
      else 0
    return (reward.address, supplierAccrued + borrowerAccrued)

/-! ## One address -/

/-- What `fetchUserData` finds out about a pool before it looks at what is borrowed. -/
structure Supplies where
  borrowBalance : JsNumber
  supplyBalance : JsNumber
  distributionApy : JsNumber
  userSupply : Option UserToken
  collaterall : JsNumber

/-- What it finds out about a pool. -/
structure Market extends Supplies where
  userBorrow : Option UserToken
  rewards : List (Address × JsNumber)

def supplies (pool : Pool) : Except String Supplies := do
  let userMarketData ← resp.output (concatStrings [address, pool.id, "getAccountSnapshot"])
  let borrowBalance ← userMarketData.numberField "2"
  let supplyBalance ← userMarketData.numberField "1"
  let exchangeRate ← userMarketData.toStringField "3"
  let (supply, borrow) ← useDistributionApy resp pool
  if supplyBalance.gt 0 then
    let markets ← resp.output (concatStrings [pool.id, "markets"])
    let collateralFactor := ((markets.field "collateralFactorMantissa").map Datum.toNumber).getD nan
    let token ← first pool.supplied
    let userSupply ← formatLendingUserData token token.year supplyBalance supply exchangeRate
    let member ← resp.output (concatStrings [address, pool.id, "checkMembership"])
    return {
      borrowBalance, supplyBalance
      distributionApy := borrow
      userSupply := some userSupply
      collaterall :=
        if member.truthy then userSupply.value * collateralFactor.toDecimals 18 else 0 }
  else
    return {
      borrowBalance, supplyBalance
      distributionApy := borrow
      userSupply := none
      collaterall := 0 }

/-- One pool of the loop, whose borrowed token has the APY `year`: what this is afterwards, and
what has been found out. -/
def market (pool : Pool) (year : JsNumber) : JsNumber × Except String Market :=
  match supplies resp address pool with
  | .error e => (year, .error e)
  | .ok s =>
    if s.borrowBalance.gt 0 then
      match pool.borrowed with
      | [] => (year, .error typeError)
      | token :: _ =>
        (-year, do
          let userBorrow ← formatLendingUserData token (-year) s.borrowBalance s.distributionApy
            defaultExchangeRate
          let rewards ← getUserMarketRewards resp address pool s.borrowBalance s.supplyBalance
          return { s with userBorrow := some userBorrow, rewards })
    else
      (year, do
        let rewards ←
          if s.userSupply.isSome then
            getUserMarketRewards resp address pool s.borrowBalance s.supplyBalance
          else pure []
        return { s with userBorrow := none, rewards })

end

/-- The local variables of `fetchUserData`. A map without an address gives `undefined`. -/
structure Accounts where
  supplyTokens : List UserToken
  borrowTokens : List UserToken
  rewardBalancesMap : Address → Option JsNumber
  totalCollaterall : JsNumber
  totalBorrowed : JsNumber

namespace Accounts

def init («meta» : Meta) : Accounts where
  supplyTokens := []
  borrowTokens := []
  rewardBalancesMap := fun address =>
    if address = «meta».avax ∨ address = «meta».qi then some 0 else none
  totalCollaterall := 0
  totalBorrowed := 0

/-- `rewardBalancesMap.set(address, rewardBalancesMap.get(address) + rewards.toNumber())`. -/
def addReward (map : Address → Option JsNumber) (reward : Address × JsNumber) :
    Address → Option JsNumber :=
  Function.update map reward.1 (some ((map reward.1).getD nan + reward.2))

def add (accounts : Accounts) (m : Market) : Accounts where
  supplyTokens := accounts.supplyTokens ++ m.userSupply.toList
  borrowTokens := accounts.borrowTokens ++ m.userBorrow.toList
  rewardBalancesMap := m.rewards.foldl addReward accounts.rewardBalancesMap
  totalCollaterall := accounts.totalCollaterall + m.collaterall
  totalBorrowed := accounts.totalBorrowed + ((m.userBorrow.map UserToken.value).getD 0)

/-- The amounts that are assigned to the rewards, and where. -/
def rewardWrites (accounts : Accounts) (rewarded : List LendingToken) : List (Nat × Amounts) :=
  rewarded.zipIdx.filterMap fun (reward, j) =>
    let amount := (accounts.rewardBalancesMap reward.address).getD nan
    if amount.falsy then none else some (j, ⟨amount, amount * reward.price⟩)

def debtRatio (accounts : Accounts) : JsNumber :=
  if accounts.borrowTokens ≠ [] ∨ accounts.supplyTokens ≠ [] then
    (accounts.totalCollaterall / accounts.totalBorrowed).min 1000000
  else 0

end Accounts

/-- A pool of the list, with its place. -/
abbrev PoolRef := Pool × Nat

/-- What is changed in place: the APY of the first borrowed token of every pool, and the amounts of
the rewards of the first pool. -/
structure Memory where
  years : Nat → JsNumber
  rewards : Nat → Option Amounts

/-- An entry; its rewards are references, by their places. -/
structure EntryRef where
  chain : ChainId
  borrowed : List UserToken
  supplied : List UserToken
  rewarded : List Nat
  debtRatio : JsNumber

/-- The object `fetchUserData` returns. -/
def Accounts.entry (accounts : Accounts) (chain : ChainId) (rewarded : List LendingToken) :
    EntryRef where
  chain := chain
  borrowed := accounts.borrowTokens
  supplied := accounts.supplyTokens
  rewarded := (accounts.rewardWrites rewarded).map Prod.fst
  debtRatio := accounts.debtRatio

/-- The loop over the pools. -/
def markets (resp : CallResults) (address : Address) :
    List PoolRef → (Nat → JsNumber) → Accounts → (Nat → JsNumber) × Except String Accounts
  | [], years, accounts => (years, .ok accounts)
  | (pool, i) :: pools, years, accounts =>
    match market resp address pool (years i) with
    | (year, .error e) => (Function.update years i year, .error e)
    | (year, .ok m) => markets resp address pools (Function.update years i year) (accounts.add m)

section
variable («meta» : Meta) (pools : List Pool)

/-- `fetchUserData`, once the contract calls have returned or failed. -/
def fetchUserData (address : Address) (calls : Except String CallResults) (memory : Memory) :
    Memory × Except String EntryRef :=
  match calls with
  | .error e => (memory, .error e)
  | .ok resp =>
    match markets resp address pools.zipIdx memory.years (.init «meta»), pools with
    | (years, .error e), _ => ({ memory with years }, .error e)
    | (years, .ok _), [] => ({ memory with years }, .error typeError)
    | (years, .ok accounts), pool :: _ =>
      (⟨years, store memory.rewards (accounts.rewardWrites pool.rewarded)⟩,
        .ok (accounts.entry «meta».chain pool.rewarded))

/-- The requests for the addresses, in the order in which their calls return. -/
def fetchUsers (calls : Address → Except String CallResults) :
    List Address → Memory → (Address → List EntryRef) → List String →
      Memory × (Address → List EntryRef) × List String
  | [], memory, results, errors => (memory, results, errors)
  | address :: addresses, memory, results, errors =>
    match fetchUserData «meta» pools address (calls address) memory with
    | (memory, .error e) => fetchUsers calls addresses memory results (errors ++ [e])
    | (memory, .ok userPool) =>
      fetchUsers calls addresses memory
        (Function.update results address (results address ++ [userPool])) errors

/-- An entry as it is read in the end, with the amounts of its rewards. -/
structure UserEntry where
  feature : String
  id : String
  chain : ChainId
  borrowed : List UserToken
  supplied : List UserToken
  rewarded : List (Option LendingToken × Option Amounts)
  debtRatio : JsNumber
  deriving DecidableEq

def entry (memory : Memory) (e : EntryRef) : UserEntry where
  feature := "lending"
  id := "benqi-lending"
  chain := e.chain
  borrowed := e.borrowed
  supplied := e.supplied
  rewarded := e.rewarded.map fun j =>
    (((pools.head?).bind fun pool => pool.rewarded[j]?), memory.rewards j)
  debtRatio := e.debtRatio

/-- The hydrated pools: the APYs as they are, the rewards without amounts. -/
def hydrated : Memory where
  years i := ((pools[i]?.bind fun pool => pool.borrowed.head?).map MarketToken.year).getD nan
  rewards _ := none

structure Response where
  data : Address → List UserEntry
  errors : List String

/-- `getUsersData`, for the pools and errors of `getPoolData` and the calls returning in this
order. -/
def getUsersData (errors : List String) (calls : Address → Except String CallResults)
    (order : List Address) : Response :=
  let (memory, results, errors) :=
    fetchUsers «meta» pools calls order (hydrated pools) (fun _ => []) errors
  ⟨fun address => (results address).map (entry pools memory), errors⟩

end

/-! ## What an address does, whatever the memory is -/

/-- The borrowed token as it is copied when the APY has become `year`. -/
def Market.setYear (year : JsNumber) (m : Market) : Market :=
  { m with userBorrow := m.userBorrow.map fun token =>
      { token with
        apr := breakdown (userApy year m.distributionApy)
        apy := breakdown (userApy year m.distributionApy) } }

section
variable (resp : CallResults) (address : Address)

/-- Whether the APY of the borrowed token of a pool is negated. -/
def toggles (pool : Pool) : Bool :=
  match supplies resp address pool with
  | .error _ => false
  | .ok s => s.borrowBalance.gt 0 && !pool.borrowed.isEmpty

/-- What is found out about the pools with APYs of zero, and the failure that ends the loop. -/
def plan : List PoolRef → List (Market × Nat) × Option String
  | [] => ([], none)
  | (pool, i) :: pools =>
    match (market resp address pool 0).2 with
    | .error e => ([], some e)
    | .ok m =>
      let (markets, e) := plan pools
      ((m, i) :: markets, e)

/-- The pools whose borrowed APY is negated. -/
def toggled : List PoolRef → List Nat
  | [] => []
  | (pool, i) :: pools =>
    (if toggles resp address pool then [i] else []) ++
      if (market resp address pool 0).2.isOk then toggled pools else []

variable {resp address} {pool : Pool}

theorem market_fst (resp : CallResults) (address : Address) (pool : Pool) (year : JsNumber) :
    (market resp address pool year).1 = if toggles resp address pool then -year else year := by
  rw [market, toggles]
  cases supplies resp address pool with
  | error e => rfl
  | ok s =>
    by_cases hborrow : s.borrowBalance.gt 0
    · cases hborrowed : pool.borrowed with
      | nil => simp [hborrow]
      | cons token tokens => simp [hborrow]
    · simp [hborrow]

/-- The APY is all that a pool's result takes from the memory. -/
theorem market_snd (resp : CallResults) (address : Address) (pool : Pool) (year : JsNumber) :
    (market resp address pool year).2 =
      (market resp address pool 0).2.map (Market.setYear (-year)) := by
  rw [market, market]
  cases supplies resp address pool with
  | error e => rfl
  | ok s =>
    by_cases hborrow : s.borrowBalance.gt 0
    · simp only [hborrow, if_true]
      cases pool.borrowed with
      | nil => rfl
      | cons token tokens =>
        simp only [formatLendingUserData]
        cases first token.token.underlying with
        | error e => rfl
        | ok underlying =>
          cases getUserMarketRewards resp address pool s.borrowBalance s.supplyBalance <;> rfl
    · simp only [hborrow, Bool.false_eq_true, if_false]
      cases s.userSupply.isSome with
      | false => rfl
      | true =>
        cases getUserMarketRewards resp address pool s.borrowBalance s.supplyBalance <;> rfl

/-- The APYs after those of some pools have been negated. -/
def negate (places : List Nat) (years : Nat → JsNumber) (i : Nat) : JsNumber :=
  if i ∈ places then -years i else years i

theorem update_eq_negate (years : Nat → JsNumber) (i : Nat) (b : Bool) :
    Function.update years i (if b then -years i else years i) =
      negate (if b then [i] else []) years := by
  funext j
  by_cases hj : j = i
  · subst hj
    cases b <;> simp [negate]
  · cases b <;> simp [negate, hj]

theorem negate_append {places places' : List Nat} (h : ∀ i ∈ places, i ∉ places') :
    negate (places ++ places') years = negate places' (negate places years) := by
  funext i
  by_cases hi : i ∈ places
  · simp [negate, hi, h i hi]
  · simp [negate, hi]

theorem mem_of_mem_toggled {pools : List PoolRef} (h : i ∈ toggled resp address pools) :
    i ∈ pools.map Prod.snd := by
  induction pools with
  | nil => exact nomatch h
  | cons p pools ih =>
    rw [toggled] at h
    obtain h | h := List.mem_append.mp h
    · split at h
      · obtain rfl := List.mem_singleton.mp h
        exact List.mem_cons_self ..
      · exact nomatch h
    · split at h
      · exact List.mem_cons_of_mem _ (ih h)
      · exact nomatch h

theorem mem_of_mem_plan {pools : List PoolRef} (h : p ∈ (plan resp address pools).1) :
    p.2 ∈ pools.map Prod.snd := by
  induction pools with
  | nil => exact nomatch h
  | cons q pools ih =>
    rw [plan] at h
    cases hm : (market resp address q.1 0).2 with
    | error e =>
      rw [hm] at h
      exact nomatch h
    | ok m =>
      rw [hm] at h
      obtain rfl | h := List.mem_cons.mp h
      · exact List.mem_cons_self ..
      · exact List.mem_cons_of_mem _ (ih h)

/-- Every pool is asked for the APY its own borrowed token has at the beginning. -/
theorem markets_eq {pools : List PoolRef} (hplaces : (pools.map Prod.snd).Nodup)
    (years : Nat → JsNumber) (accounts : Accounts) :
    markets resp address pools years accounts =
      (negate (toggled resp address pools) years,
        match (plan resp address pools).2 with
        | some e => .error e
        | none => .ok ((plan resp address pools).1.foldl
            (fun accounts m => accounts.add (m.1.setYear (-years m.2))) accounts)) := by
  induction pools generalizing years accounts with
  | nil => rfl
  | cons p pools ih =>
    obtain ⟨pool, i⟩ := p
    obtain ⟨hi, hplaces⟩ := List.nodup_cons.mp hplaces
    have hfst := market_fst resp address pool (years i)
    have hsnd := market_snd resp address pool (years i)
    rw [markets, toggled, plan]
    cases hm : (market resp address pool 0).2 with
    | error e =>
      rw [hm] at hsnd
      have hmarket : market resp address pool (years i) =
          (if toggles resp address pool then -years i else years i, .error e) := Prod.ext hfst hsnd
      simp [hmarket, Except.isOk, Except.toBool, update_eq_negate]
    | ok m =>
      rw [hm] at hsnd
      have hmarket : market resp address pool (years i) =
          (if toggles resp address pool then -years i else years i,
            .ok (m.setYear (-years i))) := Prod.ext hfst hsnd
      have hdisjoint : ∀ j ∈ (if toggles resp address pool then [i] else []),
          j ∉ toggled resp address pools := by
        intro j hj hmem
        split at hj
        · exact hi (List.mem_singleton.mp hj ▸ mem_of_mem_toggled hmem)
        · exact nomatch hj
      simp only [hmarket, Except.isOk, Except.toBool, if_true, update_eq_negate, ih hplaces,
        List.foldl_cons, negate_append hdisjoint]
      -- the pools that follow are at other places
      have hyears : ∀ p ∈ (plan resp address pools).1,
          negate (if toggles resp address pool then [i] else []) years p.2 = years p.2 := by
        intro p hp
        have hne : p.2 ≠ i := fun h => hi (h ▸ mem_of_mem_plan hp)
        cases toggles resp address pool <;> simp [negate, hne]
      rw [List.foldl_ext _ _ _ fun accounts p hp => by rw [hyears p hp]]

/-- Only the copies of the borrowed tokens depend on the APYs. -/
theorem foldl_add_setYear (list : List (Market × Nat)) (years : Nat → JsNumber)
    (accounts : Accounts) (tokens : List UserToken) :
    list.foldl (fun accounts m => accounts.add (m.1.setYear (years m.2)))
        { accounts with borrowTokens := tokens } =
      { list.foldl (fun accounts m => accounts.add m.1) accounts with
        borrowTokens := tokens ++ list.filterMap fun m => (m.1.setYear (years m.2)).userBorrow } := by
  induction list generalizing accounts tokens with
  | nil => simp
  | cons m list ih =>
    obtain ⟨m, i⟩ := m
    have hstep : Accounts.add { accounts with borrowTokens := tokens } (m.setYear (years i)) =
        { accounts.add m with
          borrowTokens := tokens ++ (m.setYear (years i)).userBorrow.toList } := by
      cases hborrow : m.userBorrow <;> simp [Accounts.add, Market.setYear, hborrow]
    rw [List.foldl_cons, List.foldl_cons, hstep, ih, List.append_assoc]
    cases hborrow : (m.setYear (years i)).userBorrow <;> simp [hborrow]

end

/-! ## Sessions -/

/-- What an address does: the pools whose APY it negates, and the markets it finds and the pool
whose rewards it assigns to, unless it fails. -/
structure Session where
  toggled : List Nat
  outcome : Except String (List (Market × Nat) × Pool)

section
variable («meta» : Meta) (pools : List Pool) (calls : Address → Except String CallResults)

def session (address : Address) : Session :=
  match calls address with
  | .error e => ⟨[], .error e⟩
  | .ok resp =>
    ⟨toggled resp address pools.zipIdx,
      match (plan resp address pools.zipIdx).2, pools with
      | some e, _ => .error e
      | none, [] => .error typeError
      | none, pool :: _ => .ok ((plan resp address pools.zipIdx).1, pool)⟩

/-- The accounts of the markets, up to the copies of the borrowed tokens. -/
def accountsOf (list : List (Market × Nat)) : Accounts :=
  list.foldl (fun accounts m => accounts.add m.1) (.init «meta»)

/-- The copies of the borrowed tokens when the APYs are `years` before. -/
def borrowTokensOf (list : List (Market × Nat)) (years : Nat → JsNumber) : List UserToken :=
  list.filterMap fun m => (m.1.setYear (-years m.2)).userBorrow

/-- The amounts an address assigns to the rewards of the first pool. -/
def rewardAmounts (address : Address) : List (Nat × Amounts) :=
  match (session pools calls address).outcome with
  | .error _ => []
  | .ok (list, pool) => (accountsOf «meta» list).rewardWrites pool.rewarded

/-- The entry of an address when the APYs are `years` before. -/
def entryRef (list : List (Market × Nat)) (pool : Pool) (years : Nat → JsNumber) : EntryRef :=
  Accounts.entry { accountsOf «meta» list with borrowTokens := borrowTokensOf list years }
    «meta».chain pool.rewarded

variable {«meta» pools calls}

theorem fetchUserData_eq (memory : Memory) :
    fetchUserData «meta» pools address (calls address) memory =
      (⟨negate (session pools calls address).toggled memory.years,
        store memory.rewards (rewardAmounts «meta» pools calls address)⟩,
        (session pools calls address).outcome.map fun p => entryRef «meta» p.1 p.2 memory.years) := by
  unfold fetchUserData rewardAmounts session
  cases calls address with
  | error e => rfl
  | ok resp =>
    have hadd := foldl_add_setYear (plan resp address pools.zipIdx).1 (fun i => -memory.years i)
      (.init «meta») []
    rw [List.nil_append] at hadd
    simp only [markets_eq (List.nodup_zipIdx_map_snd pools)]
    cases hplan : (plan resp address pools.zipIdx).2 with
    | some e => rfl
    | none =>
      cases pools with
      | nil => rfl
      | cons pool rest =>
        refine Prod.ext ?_ ?_
        · exact (congrArg (fun accounts : Accounts => Memory.mk _
            (store memory.rewards (accounts.rewardWrites pool.rewarded))) hadd).trans rfl
        · exact congrArg (fun accounts : Accounts =>
            Except.ok (accounts.entry «meta».chain pool.rewarded)) hadd

/-- The APYs after some addresses. -/
def yearsAfter (pools : List Pool) (calls : Address → Except String CallResults) :
    List Address → (Nat → JsNumber) → Nat → JsNumber
  | [], years => years
  | address :: addresses, years =>
    yearsAfter pools calls addresses (negate (session pools calls address).toggled years)

/-- An APY is negated as often as there are addresses that borrow from the pool. -/
theorem yearsAfter_eq (addresses : List Address) (years : Nat → JsNumber) (i : Nat) :
    yearsAfter pools calls addresses years i =
      if Even (addresses.countP fun b => i ∈ (session pools calls b).toggled) then years i
      else -years i := by
  induction addresses generalizing years with
  | nil => rfl
  | cons b addresses ih =>
    rw [yearsAfter, ih, List.countP_cons]
    by_cases hi : i ∈ (session pools calls b).toggled
    · simp only [negate, hi, if_true, decide_true, Nat.even_add_one, JsNumber.neg_neg]
      split <;> simp_all
    · simp [negate, hi]

theorem fetchUsers_eq («meta» : Meta) (pools : List Pool)
    (calls : Address → Except String CallResults) {order : List Address} (horder : order.Nodup)
    (memory : Memory) (results : Address → List EntryRef) (errors : List String) :
    (fetchUsers «meta» pools calls order memory results errors).1 =
      ⟨yearsAfter pools calls order memory.years,
        store memory.rewards (order.flatMap (rewardAmounts «meta» pools calls))⟩ ∧
    (∀ a ∉ order, (fetchUsers «meta» pools calls order memory results errors).2.1 a = results a) ∧
    ∀ before a after, order = before ++ a :: after →
      (fetchUsers «meta» pools calls order memory results errors).2.1 a = results a ++
        match (session pools calls a).outcome with
        | .error _ => []
        | .ok p => [entryRef «meta» p.1 p.2 (yearsAfter pools calls before memory.years)] := by
  induction order generalizing memory results errors with
  | nil => simp [fetchUsers, yearsAfter]
  | cons b order ih =>
    obtain ⟨hb, horder⟩ := List.nodup_cons.mp horder
    rw [fetchUsers, fetchUserData_eq]
    cases houtcome : (session pools calls b).outcome with
    | error e =>
      simp only [Except.map]
      obtain ⟨hmemory, hother, hresults⟩ := ih horder
        ⟨negate (session pools calls b).toggled memory.years,
          store memory.rewards (rewardAmounts «meta» pools calls b)⟩ results (errors ++ [e])
      refine ⟨?_, fun a ha => hother a fun h => ha (List.mem_cons_of_mem _ h), ?_⟩
      · rw [List.flatMap_cons, store_append]
        exact hmemory
      · intro before a after hsplit
        cases before with
        | nil =>
          obtain ⟨rfl, rfl⟩ := List.cons.inj hsplit
          rw [houtcome, List.append_nil]
          exact hother b hb
        | cons c before =>
          obtain rfl := (List.cons.inj hsplit).1
          exact hresults before a after (List.cons.inj hsplit).2
    | ok p =>
      simp only [Except.map]
      obtain ⟨hmemory, hother, hresults⟩ := ih horder
        ⟨negate (session pools calls b).toggled memory.years,
          store memory.rewards (rewardAmounts «meta» pools calls b)⟩
        (Function.update results b (results b ++ [entryRef «meta» p.1 p.2 memory.years])) errors
      refine ⟨?_, fun a ha => ?_, ?_⟩
      · rw [List.flatMap_cons, store_append]
        exact hmemory
      · rw [hother a fun h => ha (List.mem_cons_of_mem _ h)]
        exact Function.update_of_ne (List.ne_of_not_mem_cons ha) _ _
      · intro before a after hsplit
        cases before with
        | nil =>
          obtain ⟨rfl, rfl⟩ := List.cons.inj hsplit
          rw [houtcome]
          exact (hother b hb).trans (Function.update_self ..)
        | cons c before =>
          obtain rfl := (List.cons.inj hsplit).1
          have hrest := (List.cons.inj hsplit).2
          have hab : a ≠ b := by
            rintro rfl
            exact hb (hrest ▸ List.mem_append_right _ (List.mem_cons_self ..))
          refine (hresults before a after hrest).trans ?_
          rw [Function.update_of_ne hab]
          rfl

/-! ## Noninterference -/

/-- An address that is served borrows from a pool, with a distribution APY. -/
def Borrows (pools : List Pool) (calls : Address → Except String CallResults) (address : Address)
    (i : Nat) (distributionApy : JsNumber) : Prop :=
  ∃ p m, (session pools calls address).outcome = .ok p ∧ (m, i) ∈ p.1 ∧
    m.userBorrow.isSome ∧ m.distributionApy = distributionApy

/-- The copies of the borrowed tokens are the same for two APYs exactly when the APYs they show
are. -/
theorem borrowTokensOf_eq_iff {list : List (Market × Nat)} {years years' : Nat → JsNumber} :
    borrowTokensOf list years = borrowTokensOf list years' ↔
      ∀ m i, (m, i) ∈ list → m.userBorrow.isSome →
        userApy (-years i) m.distributionApy = userApy (-years' i) m.distributionApy := by
  have hsome : ∀ p ∈ list, (p.1.setYear (-years p.2)).userBorrow.isSome =
      (p.1.setYear (-years' p.2)).userBorrow.isSome := fun p _ => by simp [Market.setYear]
  have hcopy : ∀ m : Market, ∀ year year',
      ((m.setYear year).userBorrow = (m.setYear year').userBorrow ↔
        (m.userBorrow.isSome → userApy year m.distributionApy = userApy year' m.distributionApy)) := by
    intro m year year'
    cases hborrow : m.userBorrow with
    | none => simp [Market.setYear, hborrow]
    | some token =>
      simp only [Market.setYear, hborrow, Option.map_some, Option.isSome_some, true_implies]
      exact ⟨fun h => congrArg (fun token => token.apy.year) (Option.some.inj h), fun h => by rw [h]⟩
  rw [borrowTokensOf, borrowTokensOf, filterMap_eq_iff hsome]
  exact ⟨fun h m i hmem => (hcopy m _ _).mp (h (m, i) hmem),
    fun h p hp => (hcopy p.1 _ _).mpr (h p.1 p.2 hp)⟩

/-- Entries of an address are equal exactly when the copies and the assigned amounts are. -/
theorem entry_eq_iff {memory memory' : Memory} {list : List (Market × Nat)} {pool : Pool} :
    entry pools memory (entryRef «meta» list pool years) =
        entry pools memory' (entryRef «meta» list pool years') ↔
      borrowTokensOf list years = borrowTokensOf list years' ∧
      ∀ j, (∃ v, (j, v) ∈ (accountsOf «meta» list).rewardWrites pool.rewarded) →
        memory.rewards j = memory'.rewards j := by
  constructor
  · intro h
    refine ⟨congrArg UserEntry.borrowed h, ?_⟩
    rintro j ⟨v, hv⟩
    have hrewarded := List.map_inj_left.mp (congrArg UserEntry.rewarded h) j
      (List.mem_map.mpr ⟨(j, v), hv, rfl⟩)
    exact congrArg Prod.snd hrewarded
  · rintro ⟨hborrowed, hrewards⟩
    rw [entryRef, entryRef, hborrowed, entry, entry]
    congr 1
    refine List.map_congr_left fun j hj => ?_
    obtain ⟨w, hw, rfl⟩ := List.mem_map.mp hj
    rw [hrewards w.1 ⟨w.2, hw⟩]

theorem told_alone_iff («meta» : Meta) (pools : List Pool) (errors : List String)
    (calls : Address → Except String CallResults) {order : List Address} (horder : order.Nodup)
    (hsplit : order = before ++ a :: after) :
    (getUsersData «meta» pools errors calls order).data a =
        (getUsersData «meta» pools errors calls [a]).data a ↔
      (∀ i d, Borrows pools calls a i d →
        userApy (-yearsAfter pools calls before (hydrated pools).years i) d =
          userApy (-(hydrated pools).years i) d) ∧
      ∀ j, (∃ v, (j, v) ∈ rewardAmounts «meta» pools calls a) →
        store (fun _ => none) (order.flatMap (rewardAmounts «meta» pools calls)) j =
          store (fun _ => none) (rewardAmounts «meta» pools calls a) j := by
  obtain ⟨hmemory, -, hresults⟩ := fetchUsers_eq «meta» pools calls horder (hydrated pools)
    (fun _ => []) errors
  obtain ⟨hmemory', -, hresults'⟩ := fetchUsers_eq «meta» pools calls (List.nodup_singleton a)
    (hydrated pools) (fun _ => []) errors
  have hresults := hresults before a after hsplit
  have hresults' := hresults' [] a [] rfl
  simp only [getUsersData, hmemory, hmemory', hresults, hresults', List.nil_append,
    List.flatMap_singleton]
  unfold Borrows rewardAmounts
  cases houtcome : (session pools calls a).outcome with
  | error e => simp
  | ok p =>
    simp only [List.map_cons, List.map_nil, List.cons.injEq, and_true]
    rw [entry_eq_iff, borrowTokensOf_eq_iff]
    refine and_congr_left fun _ => ?_
    constructor
    · rintro h i d ⟨_, m, ⟨⟩, hmem, hborrow, rfl⟩
      exact h m i hmem hborrow
    · exact fun h m i hmem hborrow => h i _ ⟨p, m, rfl, hmem, hborrow, rfl⟩

theorem functional_rewardAmounts :
    Functional (rewardAmounts «meta» pools calls address) := by
  intro j v v' h h'
  unfold rewardAmounts at h h'
  cases houtcome : (session pools calls address).outcome with
  | error e =>
    rw [houtcome] at h
    exact nomatch h
  | ok p =>
    rw [houtcome] at h h'
    obtain ⟨⟨reward, i⟩, hmem, hwrite⟩ := List.mem_filterMap.mp h
    obtain ⟨⟨reward', i'⟩, hmem', hwrite'⟩ := List.mem_filterMap.mp h'
    simp only [Option.ite_none_left_eq_some, Option.some.injEq, Prod.mk.injEq] at hwrite hwrite'
    obtain ⟨-, rfl, rfl⟩ := hwrite
    obtain ⟨-, rfl, rfl⟩ := hwrite'
    have hreward := List.mk_mem_zipIdx_iff_getElem?.mp hmem
    obtain rfl := Option.some.inj (hreward.symm.trans (List.mk_mem_zipIdx_iff_getElem?.mp hmem'))
    rfl

/-- When the addresses of a request are told what they are told alone, if their calls return in
this order: an even number of addresses has borrowed from a pool before, or the sign of its APY
makes no difference, and no two addresses are assigned different amounts of one reward. -/
structure KeepsApart («meta» : Meta) (pools : List Pool)
    (calls : Address → Except String CallResults) (order : List Address) : Prop where
  rates : ∀ before a after, order = before ++ a :: after → ∀ i d, Borrows pools calls a i d →
    Even (before.countP fun b => i ∈ (session pools calls b).toggled) ∨
      userApy ((hydrated pools).years i) d = userApy (-(hydrated pools).years i) d
  rewards : ∀ a ∈ order, ∀ b ∈ order, ∀ j v v',
    (j, v) ∈ rewardAmounts «meta» pools calls a → (j, v') ∈ rewardAmounts «meta» pools calls b →
    v = v'

/-- Every address of a request is told what it is told alone. -/
def Noninterfering («meta» : Meta) (pools : List Pool) (errors : List String)
    (calls : Address → Except String CallResults) (order : List Address) : Prop :=
  ∀ a ∈ order, (getUsersData «meta» pools errors calls order).data a =
    (getUsersData «meta» pools errors calls [a]).data a

theorem rates_iff : userApy (-yearsAfter pools calls before years i) d = userApy (-years i) d ↔
    Even (before.countP fun b => i ∈ (session pools calls b).toggled) ∨
      userApy (years i) d = userApy (-years i) d := by
  rw [yearsAfter_eq]
  split
  · rename_i heven
    simp [heven]
  · rename_i hodd
    simp [hodd]

theorem noninterfering_iff {order : List Address} (horder : order.Nodup) :
    Noninterfering «meta» pools errors calls order ↔ KeepsApart «meta» pools calls order := by
  have hsessions := @store_sessions_eq_iff _ _ _ _ (fun _ => none) order
    (rewardAmounts «meta» pools calls)
    (fun a j => ∃ v, (j, v) ∈ rewardAmounts «meta» pools calls a)
    (fun _ => functional_rewardAmounts) (fun _ _ h => h) fun _ _ _ _ _ _ v hv => ⟨v, hv⟩
  constructor
  · intro h
    refine ⟨fun before a after hsplit i d hborrows => ?_, fun a ha b hb j v v' hv hv' => ?_⟩
    · have ha : a ∈ order := hsplit ▸ List.mem_append_right _ (List.mem_cons_self ..)
      have htold := (told_alone_iff «meta» pools errors calls horder hsplit).mp (h a ha)
      exact rates_iff.mp (htold.1 i d hborrows)
    · refine hsessions.mp (fun a ha => ?_) a ha j ⟨v, hv⟩ b hb v v' hv hv'
      obtain ⟨before, after, hsplit⟩ := List.append_of_mem ha
      exact ((told_alone_iff «meta» pools errors calls horder hsplit).mp (h a ha)).2
  · intro h a ha
    obtain ⟨before, after, hsplit⟩ := List.append_of_mem ha
    refine (told_alone_iff «meta» pools errors calls horder hsplit).mpr ⟨fun i d hborrows => ?_, ?_⟩
    · exact rates_iff.mpr (h.rates before a after hsplit i d hborrows)
    · exact hsessions.mpr (fun a ha j _ b hb v v' => h.rewards a ha b hb j v v') a ha

end
end BenqiLending
end Integration
end DefiBackend
