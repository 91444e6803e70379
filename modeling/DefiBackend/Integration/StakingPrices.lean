import DefiBackend.Common.Address
import DefiBackend.Common.CallData
import DefiBackend.Integration.PriceAdjustment
import DefiBackend.Theory.Fallible

/-! # The prices of staking positions

`handleStakingMissedData` of `protocol.service.ts`: the prices of the reward token of the first
position and of all staking and underlying tokens are fetched. The first is taken out of the answer
and goes to all reward tokens, the others are looked up by address.

Positions have the fields that are read or written. No object stands in two places. Prices are those
of an answer in JSON, so they are finite.

* `pricedByOwn_iff`: when every token has the price of its own address;
* `reward_mispriced`: a second reward token has the price of the first. -/

namespace DefiBackend
namespace Integration
namespace StakingPrices
open PriceAdjustment Theory JsNumber

/-- `PoolTokenDto`. -/
structure PoolToken extends Token where
  reserve : PriceAdjustment.Field

/-- `IntegrationERC20TokenDto`, with the tokens under an LP token. -/
structure StakingToken extends Token where
  totalSupply : PriceAdjustment.Field
  tokens : Option (List PoolToken)

/-- `IntegrationStakingPositionDto`. -/
structure StakingPosition where
  stakingToken : StakingToken
  rewardToken : Option ClaimableToken

/-- An object of prices by address. -/
abbrev Prices := JsMap Address ℚ

/-- `prices[address]`. -/
def priceOf (prices : Prices) (address : Address) : PriceAdjustment.Field :=
  match prices.get address with
  | some price => .number (finite price)
  | none => .undefined

/-- `delete prices[address]`. -/
def delete (prices : Prices) (address : Address) : Prices := prices.filter (·.1 ≠ address)

/-- `n || null`. -/
def orNull (n : JsNumber) : PriceAdjustment.Field := if n.falsy then .null else .number n

/-! ## The pricing -/

/-- A position without a reward token, or with one that has no claimable data, throws. -/
def priceRewardToken (rewardTokenPrice : PriceAdjustment.Field) :
    Option ClaimableToken → Except String (Option ClaimableToken)
  | some rewardToken =>
    match rewardToken.claimableData with
    | some claimableData => pure <| some
      { rewardToken with
        price := rewardTokenPrice
        claimableData := some { claimableData with
          value := .number (rewardTokenPrice.toNumber * claimableData.balance.toNumber) } }
    | none => throw typeError
  | none => throw typeError

def pricePoolToken (prices : Prices) (poolShare : JsNumber) (token : PoolToken) : PoolToken :=
  let price := orNull (priceOf prices token.address).toNumber
  let tokenBalance := poolShare * token.reserve.toNumber
  { token with
    price
    balance := .number tokenBalance
    value := .number (tokenBalance * price.toNumber) }

def poolShare (stakingToken : StakingToken) : JsNumber :=
  stakingToken.balance.toNumber / stakingToken.totalSupply.toNumber

def priceStakingToken (prices : Prices) (stakingToken : StakingToken) : StakingToken :=
  let stakingTokenPrice := (priceOf prices stakingToken.address).toNumber
  { stakingToken with
    price := orNull stakingTokenPrice
    value := orNull (stakingTokenPrice * stakingToken.balance.toNumber)
    tokens := stakingToken.tokens.map (·.map (pricePoolToken prices (poolShare stakingToken))) }

/-- `stakingPositions[0]?.rewardToken.address`. -/
def rewardTokenAddress : List StakingPosition → Except String (Option Address)
  | [] => pure none
  | position :: _ =>
    match position.rewardToken with
    | some rewardToken => pure (some rewardToken.address)
    | none => throw typeError

/-- The addresses of the staking token of a position and of the tokens under it. -/
def stakingAddresses (position : StakingPosition) : List Address :=
  position.stakingToken.address ::
    (position.stakingToken.tokens.getD []).map fun token => token.address

def priceStakingPosition (rewardTokenPrice : PriceAdjustment.Field) (prices : Prices)
    (position : StakingPosition) : Except String StakingPosition := do
  let rewardToken ← priceRewardToken rewardTokenPrice position.rewardToken
  pure { rewardToken, stakingToken := priceStakingToken prices position.stakingToken }

def handleStakingMissedData (getTokenPricesFetch : List (Option Address) → Except String Prices)
    (stakingPositions : List StakingPosition) : Except String (List StakingPosition) := do
  let rewardTokenAddress ← rewardTokenAddress stakingPositions
  let prices ← getTokenPricesFetch
    (rewardTokenAddress :: (stakingPositions.flatMap stakingAddresses).map some)
  match rewardTokenAddress with
  | some address =>
    stakingPositions.mapM (priceStakingPosition (priceOf prices address) (delete prices address))
  | none => pure stakingPositions

/-! ## Own prices -/

/-- A field shows a number. One that counts as false may be shown as null. -/
def Shows (n : JsNumber) (field : PriceAdjustment.Field) : Prop :=
  field = .number n ∨ n.falsy ∧ field = .null

/-- A token carries the price that was fetched for its address, and none if there is none. If there
is one, the value is this price times the balance. -/
structure OwnPrice (prices : Prices) (address : Address) (price value : PriceAdjustment.Field)
    (balance : JsNumber) : Prop where
  price : match prices.get address with
    | some fetched => Shows (finite fetched) price
    | none => price = .undefined ∨ price = .null
  value : ∀ fetched, prices.get address = some fetched → Shows (finite fetched * balance) value

/-- All tokens of a position have their own prices. -/
structure OwnPrices (prices : Prices) (position : StakingPosition) : Prop where
  rewardToken : ∃ rewardToken claimableData, position.rewardToken = some rewardToken ∧
    rewardToken.claimableData = some claimableData ∧
    OwnPrice prices rewardToken.address rewardToken.price claimableData.value
      claimableData.balance.toNumber
  stakingToken : OwnPrice prices position.stakingToken.address position.stakingToken.price
    position.stakingToken.value position.stakingToken.balance.toNumber
  tokens : ∀ token ∈ position.stakingToken.tokens.getD [],
    token.balance = .number (poolShare position.stakingToken * token.reserve.toNumber) ∧
      OwnPrice prices token.address token.price token.value token.balance.toNumber

/-- With these prices, the handling goes through and leaves every token with its own price. -/
def PricedByOwn (prices : Prices) (stakingPositions : List StakingPosition) : Prop :=
  ∃ priced, handleStakingMissedData (fun _ => .ok prices) stakingPositions = .ok priced ∧
    ∀ position ∈ priced, OwnPrices prices position

/-- The position has a reward token with claimable data, whose price is that of an address; if this
is a price other than zero, the address is none of the position's other tokens'. -/
structure Rewarded (prices : Prices) (address : Address) (position : StakingPosition) : Prop where
  rewardToken : ∃ rewardToken, position.rewardToken = some rewardToken ∧
    rewardToken.claimableData.isSome ∧ prices.get rewardToken.address = prices.get address
  apart : ∀ fetched, prices.get address = some fetched → fetched ≠ 0 →
    address ∉ stakingAddresses position

section
variable {prices prices' : Prices} {address a : Address} {balance : JsNumber}

theorem get_delete : (delete prices address).get a = if a = address then none else prices.get a := by
  induction prices with
  | nil => simp [delete]
  | cons e prices ih =>
    rw [delete] at ih ⊢
    rw [List.filter_cons]
    split <;> simp_all [JsMap.get_cons] <;> grind

theorem shows_orNull (n : JsNumber) : Shows n (orNull n) := by
  rw [orNull, Shows]
  split
  · next h => exact .inr ⟨h, rfl⟩
  · exact .inl rfl

theorem shows_null {n : JsNumber} : Shows n .null ↔ n.falsy := by simp [Shows]

theorem priceOf_of_some (h : prices.get a = some price) :
    priceOf prices a = .number (finite price) := by
  rw [priceOf, h]

theorem priceOf_of_none (h : prices.get a = none) : priceOf prices a = .undefined := by
  rw [priceOf, h]

theorem priceOf_eq_number : priceOf prices a = .number (finite q) ↔ prices.get a = some q := by
  cases h : prices.get a with
  | none => simp [priceOf_of_none h]
  | some price => simp [priceOf_of_some h]

theorem priceOf_eq_undefined : priceOf prices a = .undefined ↔ prices.get a = none := by
  cases h : prices.get a with
  | none => simp [priceOf_of_none h]
  | some price => simp [priceOf_of_some h]

theorem priceOf_ne_null : priceOf prices a ≠ .null := by
  cases h : prices.get a with
  | none => simp [priceOf_of_none h]
  | some price => simp [priceOf_of_some h]

/-- Reward tokens have the price of one address: it is their own if it is the same. -/
theorem ownPrice_reward :
    OwnPrice prices a (priceOf prices address)
      (.number ((priceOf prices address).toNumber * balance)) balance ↔
      prices.get a = prices.get address := by
  constructor
  · rintro ⟨hprice, -⟩
    cases hown : prices.get a with
    | none =>
      rw [hown] at hprice
      exact (priceOf_eq_undefined.mp (hprice.resolve_right priceOf_ne_null)).symm
    | some fetched =>
      rw [hown] at hprice
      exact (priceOf_eq_number.mp (hprice.resolve_right fun h => priceOf_ne_null h.2)).symm
  · intro hget
    refine ⟨?_, fun fetched hown => ?_⟩
    · cases hown : prices.get a with
      | none => exact .inl (priceOf_of_none (hget ▸ hown))
      | some fetched => exact .inl (priceOf_of_some (hget ▸ hown))
    · rw [priceOf_of_some (hget ▸ hown)]
      exact .inl rfl

/-- The price of a token whose address is still among the prices is its own. -/
theorem ownPrice_kept (h : prices'.get a = prices.get a)
    (hvalue : ∀ fetched, prices.get a = some fetched → Shows (finite fetched * balance) value) :
    OwnPrice prices a (orNull (priceOf prices' a).toNumber) value balance := by
  refine ⟨?_, hvalue⟩
  cases hown : prices.get a with
  | none =>
    rw [priceOf_of_none (h.trans hown)]
    exact .inr rfl
  | some fetched =>
    rw [priceOf_of_some (h.trans hown)]
    exact shows_orNull _

/-- A token whose address is gone from the prices has its own if it costs nothing. -/
theorem ownPrice_gone (h : prices'.get a = none) (hvalue : Shows (finite 0 * balance) value) :
    OwnPrice prices a (orNull (priceOf prices' a).toNumber) value balance ↔
      ∀ fetched, prices.get a = some fetched → fetched = 0 := by
  rw [priceOf_of_none h]
  constructor
  · rintro ⟨hprice, -⟩ fetched hown
    rw [hown] at hprice
    exact falsy_finite.mp (shows_null.mp hprice)
  · intro hzero
    refine ⟨?_, fun fetched hown => hzero fetched hown ▸ hvalue⟩
    cases hown : prices.get a with
    | none => exact .inr rfl
    | some fetched => exact shows_null.mpr (falsy_finite.mpr (hzero fetched hown))

/-- A staking or underlying token has its own price if its address was not taken out of the prices,
or costs nothing. -/
theorem ownPrice_delete
    (hvalue : ∀ q, (delete prices address).get a = some q → Shows (finite q * balance) value)
    (hgone : (delete prices address).get a = none → Shows (finite 0 * balance) value) :
    OwnPrice prices a (orNull (priceOf (delete prices address) a).toNumber) value balance ↔
      ∀ fetched, prices.get address = some fetched → fetched ≠ 0 → address ≠ a := by
  by_cases ha : a = address
  · subst ha
    have hnone : (delete prices a).get a = none := by rw [get_delete, if_pos rfl]
    rw [ownPrice_gone hnone (hgone hnone)]
    simp only [ne_eq, not_true_eq_false, imp_false, not_not]
  · have hget : (delete prices address).get a = prices.get a := by rw [get_delete, if_neg ha]
    refine iff_of_true (ownPrice_kept hget fun fetched hown => hvalue fetched (hget.trans hown)) ?_
    exact fun _ _ _ => Ne.symm ha

theorem toNumber_priceOf_of_none (h : prices.get a = none) : (priceOf prices a).toNumber = nan := by
  rw [priceOf_of_none h]
  rfl

/-- The staking token of a position. -/
theorem ownPrice_stakingToken {stakingToken : StakingToken} :
    OwnPrice prices stakingToken.address
      (priceStakingToken (delete prices address) stakingToken).price
      (priceStakingToken (delete prices address) stakingToken).value
      stakingToken.balance.toNumber ↔
      ∀ fetched, prices.get address = some fetched → fetched ≠ 0 →
        address ≠ stakingToken.address := by
  refine ownPrice_delete (fun q hq => ?_) fun hnone => ?_
  · rw [priceStakingToken, priceOf_of_some hq]
    exact shows_orNull _
  · have hvalue : (priceStakingToken (delete prices address) stakingToken).value = .null := by
      rw [priceStakingToken, toNumber_priceOf_of_none hnone]
      rfl
    rw [hvalue]
    exact shows_null.mpr falsy_zero_mul

/-- A token under the staking token of a position. -/
theorem ownPrice_poolToken {token : PoolToken} {share : JsNumber} :
    OwnPrice prices token.address
      (pricePoolToken (delete prices address) share token).price
      (pricePoolToken (delete prices address) share token).value
      (share * token.reserve.toNumber) ↔
      ∀ fetched, prices.get address = some fetched → fetched ≠ 0 → address ≠ token.address := by
  refine ownPrice_delete (fun q hq => ?_) fun hnone => ?_
  · rw [pricePoolToken, priceOf_of_some hq, orNull]
    split
    · next h =>
      rw [falsy_finite.mp h]
      exact .inl (congrArg PriceAdjustment.Field.number (mul_finite _ 0))
    · exact .inl (congrArg PriceAdjustment.Field.number (mul_finite _ q))
  · rw [pricePoolToken, toNumber_priceOf_of_none hnone]
    exact .inl (congrArg PriceAdjustment.Field.number (mul_finite _ 0))

/-- A reward token with claimable data. -/
theorem priceRewardToken_eq_ok {price : PriceAdjustment.Field}
    {rewardToken priced : Option ClaimableToken} :
    priceRewardToken price rewardToken = .ok priced ↔
      ∃ token claimableData, rewardToken = some token ∧ token.claimableData = some claimableData ∧
        priced = some { token with
          price
          claimableData := some { claimableData with
            value := .number (price.toNumber * claimableData.balance.toNumber) } } := by
  rw [priceRewardToken.eq_def]
  constructor
  · intro h
    split at h
    · split at h
      · next token _ claimableData hclaimable =>
        exact ⟨token, claimableData, rfl, hclaimable, (Except.ok.inj h).symm⟩
      · cases h
    · cases h
  · rintro ⟨token, claimableData, rfl, hclaimable, rfl⟩
    simp only [hclaimable]
    rfl

/-- The staking token of a position and the tokens under it. -/
theorem ownPrices_staking_iff {position : StakingPosition} :
    (OwnPrice prices position.stakingToken.address
      (priceStakingToken (delete prices address) position.stakingToken).price
      (priceStakingToken (delete prices address) position.stakingToken).value
      position.stakingToken.balance.toNumber ∧
    ∀ token ∈ position.stakingToken.tokens.getD [],
      OwnPrice prices token.address
        (pricePoolToken (delete prices address) (poolShare position.stakingToken) token).price
        (pricePoolToken (delete prices address) (poolShare position.stakingToken) token).value
        (poolShare position.stakingToken * token.reserve.toNumber)) ↔
      ∀ fetched, prices.get address = some fetched → fetched ≠ 0 →
        address ∉ stakingAddresses position := by
  simp only [ownPrice_stakingToken, ownPrice_poolToken, stakingAddresses, List.mem_cons,
    List.mem_map, not_or, not_exists, not_and]
  constructor
  · rintro ⟨hstaking, htokens⟩ fetched hfetched hne
    exact ⟨hstaking fetched hfetched hne, fun token htoken he =>
      htokens token htoken fetched hfetched hne he.symm⟩
  · intro h
    exact ⟨fun fetched hfetched hne => (h fetched hfetched hne).1,
      fun token htoken fetched hfetched hne he => (h fetched hfetched hne).2 token htoken he.symm⟩

theorem tokens_priceStakingToken {stakingToken : StakingToken} :
    (priceStakingToken prices stakingToken).tokens.getD [] =
      (stakingToken.tokens.getD []).map (pricePoolToken prices (poolShare stakingToken)) := by
  rw [priceStakingToken]
  cases stakingToken.tokens <;> rfl

/-- One position. -/
theorem priceStakingPosition_iff {position : StakingPosition} :
    (∃ priced, priceStakingPosition (priceOf prices address) (delete prices address) position =
      .ok priced ∧ OwnPrices prices priced) ↔ Rewarded prices address position := by
  have hpriced : ∀ priced, priceStakingPosition (priceOf prices address) (delete prices address)
      position = .ok priced ↔ ∃ rewardToken, priceRewardToken (priceOf prices address)
        position.rewardToken = .ok rewardToken ∧ priced =
          ⟨priceStakingToken (delete prices address) position.stakingToken, rewardToken⟩ := by
    intro priced
    rw [priceStakingPosition, bind_eq_ok]
    exact exists_congr fun _ => and_congr_right fun _ =>
      ⟨fun h => (Except.ok.inj h).symm, fun h => h ▸ rfl⟩
  constructor
  · rintro ⟨priced, hposition, hreward, hstaking, htokens⟩
    obtain ⟨rewardToken, hrewardToken, rfl⟩ := (hpriced priced).mp hposition
    obtain ⟨token, claimableData, htoken, hclaimable, rfl⟩ := priceRewardToken_eq_ok.mp hrewardToken
    obtain ⟨token', claimableData', htoken', hclaimable', hown⟩ := hreward
    cases htoken'
    cases hclaimable'
    rw [tokens_priceStakingToken, List.forall_mem_map] at htokens
    exact ⟨⟨token, htoken, by rw [hclaimable]; rfl, ownPrice_reward.mp hown⟩,
      ownPrices_staking_iff.mp ⟨hstaking, fun token htoken => (htokens token htoken).2⟩⟩
  · rintro ⟨⟨token, htoken, hclaimable, hsame⟩, hapart⟩
    obtain ⟨claimableData, hclaimable⟩ := Option.isSome_iff_exists.mp hclaimable
    obtain ⟨hstaking, htokens⟩ := ownPrices_staking_iff.mpr hapart
    refine ⟨_, (hpriced _).mpr ⟨_, priceRewardToken_eq_ok.mpr
      ⟨token, claimableData, htoken, hclaimable, rfl⟩, rfl⟩,
      ⟨_, _, rfl, rfl, ownPrice_reward.mpr hsame⟩, hstaking, ?_⟩
    rw [tokens_priceStakingToken, List.forall_mem_map]
    exact fun token htoken => ⟨rfl, htokens token htoken⟩

theorem handleStakingMissedData_cons {first : StakingPosition} {positions : List StakingPosition}
    (h : first.rewardToken = some rewardToken) :
    handleStakingMissedData (fun _ => .ok prices) (first :: positions) =
      (first :: positions).mapM (priceStakingPosition (priceOf prices rewardToken.address)
        (delete prices rewardToken.address)) := by
  rw [handleStakingMissedData, rewardTokenAddress, h]
  rfl

/-- All tokens have their own prices exactly if all reward tokens cost what the first one costs, and
this one, if it costs anything, is not staked. -/
theorem pricedByOwn_iff (prices : Prices) (stakingPositions : List StakingPosition) :
    PricedByOwn prices stakingPositions ↔
      ∀ first ∈ stakingPositions.head?, ∃ rewardToken, first.rewardToken = some rewardToken ∧
        ∀ position ∈ stakingPositions, Rewarded prices rewardToken.address position := by
  rcases stakingPositions with _ | ⟨first, positions⟩
  · have hnone : handleStakingMissedData (fun _ => .ok prices) [] = .ok [] := rfl
    refine iff_of_true ⟨[], hnone, fun _ h => ?_⟩ fun _ h => ?_
    · cases h
    · cases h
  · simp only [List.head?_cons, Option.mem_some_iff, forall_eq']
    cases hreward : first.rewardToken with
    | none =>
      have hthrows : handleStakingMissedData (fun _ => .ok prices) (first :: positions) =
          .error typeError := by
        rw [handleStakingMissedData, rewardTokenAddress, hreward]
        rfl
      refine iff_of_false ?_ ?_
      · rintro ⟨priced, hpriced, -⟩
        rw [hthrows] at hpriced
        cases hpriced
      · rintro ⟨rewardToken, hsome, -⟩
        cases hsome
    | some rewardToken =>
      simp only [Option.some.injEq, exists_eq_left']
      rw [PricedByOwn, handleStakingMissedData_cons hreward, exists_mapM_forall]
      exact forall₂_congr fun position _ => priceStakingPosition_iff

end

/-! ## Two reward tokens -/

def sampleReward (address : Address) : ClaimableToken where
  address
  price := .null
  claimableData := some ⟨.number 10, .null, none, .null⟩

/-- A position that stakes a token without others under it. -/
def samplePosition (rewardToken : Address) : StakingPosition where
  stakingToken := {
    address := "0xa478c2975ab1ea89e8196811f51a7b7ade33eb11"
    price := .null
    balance := .number 4
    value := .null
    totalSupply := .number 8
    tokens := none }
  rewardToken := some (sampleReward rewardToken)

def samplePrices : Prices :=
  [("0x0000000000000000000000000000000000000c01", 5),
    ("0x0000000000000000000000000000000000000c02", 7)]

/-- The second position has the price of the first reward token. -/
theorem reward_mispriced :
    ¬ PricedByOwn samplePrices [samplePosition "0x0000000000000000000000000000000000000c01",
      samplePosition "0x0000000000000000000000000000000000000c02"] := by
  rintro ⟨priced, hpriced, hown⟩
  rw [handleStakingMissedData_cons rfl] at hpriced
  have hsecond := exists_mapM_forall.mp ⟨priced, hpriced, hown⟩ (samplePosition
    "0x0000000000000000000000000000000000000c02") (List.mem_cons_of_mem _ (List.mem_cons_self ..))
  obtain ⟨⟨rewardToken, hreward, -, hprice⟩, -⟩ := priceStakingPosition_iff.mp hsecond
  cases hreward
  have hfive : samplePrices.get "0x0000000000000000000000000000000000000c01" = some 5 := rfl
  have hseven : samplePrices.get "0x0000000000000000000000000000000000000c02" = some 7 := rfl
  have hprice : samplePrices.get "0x0000000000000000000000000000000000000c02" =
    samplePrices.get "0x0000000000000000000000000000000000000c01" := hprice
  rw [hfive, hseven] at hprice
  exact absurd (Option.some.inj hprice) (by decide)

end StakingPrices
end Integration
end DefiBackend
