import DefiBackend.Integration.PriceAdjustment
import Mathlib.Data.List.TakeWhile

/-! # What items contribute to a total

For each of the nine kinds of entries: which items can be valued (`WellFormed`) and, in terms of
balances and prices, what an item adds to the total (`contribution`), what of it is counted before an
exception (`reached`), and when it has its prices and values already, as far as a valuation gets
(`Settled`). The loop bodies do just that.

* `adjustPool_values` and the like: what the loop bodies do with prices;
* `adjustPool_stopsAt` and the like: without prices nothing is counted. -/

namespace DefiBackend
namespace Integration
namespace PriceAdjustment
open Theory Pass

/-! ## Items that can be valued -/

def LiquidityPoolFeature.WellFormed (item : LiquidityPoolFeature) : Prop :=
  ∀ reward ∈ item.rewards, reward.claimableData.isSome

/-- A debt token without underlying tokens takes its value from the first reward. -/
def StakingPosition.TokenThere (item : StakingPosition) : Prop :=
  ∃ token, item.stakingToken = some token ∧
    (token.tokens = [] → token.address ∈ alpacaDebtTokens → item.rewards ≠ [])

def StakingPosition.WellFormed (item : StakingPosition) : Prop :=
  (∀ reward ∈ item.rewards, reward.claimableData.isSome) ∧ item.TokenThere

def LeverageFarmingPosition.WellFormed (item : LeverageFarmingPosition) : Prop :=
  (item.farmToken.any fun token => token.tokens.isSome) ∧ item.borrowToken.isSome

/-- A locked token needs one of its balances for its underlying tokens, and else both. -/
def LockedToken.WellFormed (item : LockedToken) : Prop :=
  if item.tokens = [] then item.locked.isSome ∧ item.unlocked.isSome
  else item.locked.isSome ∨ item.unlocked.isSome

def MintPosition.WellFormed (item : MintPosition) : Prop :=
  item.mintedToken.isSome ∧ item.collateral.isSome

def ShortFarmPosition.WellFormed (item : ShortFarmPosition) : Prop :=
  item.stakingToken.isSome ∧ item.locked.isSome ∧
    item.rewards.head?.any fun reward => reward.claimableData.isSome

/-! ## Worths -/

section
variable (prices : Prices)

/-- The fetched price of a token where there is one, and else its own. -/
def ERC20Token.priceWith (token : ERC20Token) : Field :=
  match prices.get token.address with
  | some (some price) => .number price
  | _ => token.price

def Token.worth (token : Token) : JsNumber :=
  token.balance.toNumber * ((token.priceWith prices).orElse (.number 0)).toNumber

/-- What can be claimed. -/
def ClaimableToken.worth (token : ClaimableToken) : JsNumber :=
  match token.claimableData with
  | some data => data.balance.toNumber * (token.priceWith prices).toNumber
  | none => 0

/-- A reward of a staking position: the value that it has, or what can be claimed, and the worth of
its locked balance. -/
def ClaimableToken.stakingWorth (token : ClaimableToken) : Counted :=
  match token.claimableData with
  | some data =>
    ((data.value.orElse
        (.number (data.balance.toNumber * (token.priceWith prices).toNumber))).toNumber,
      match data.lockedBalance with
      | some balance => balance * (token.priceWith prices).toNumber
      | none => 0)
  | none => 0

/-- A staked LP token is worth its own price, or without one what is under it. -/
def StakedToken.worth (token : StakedToken) : JsNumber :=
  if token.tokens = [] then (token.toToken.worth prices).orZero
  else if token.price.truthy then token.balance.toNumber * token.price.toNumber
  else (token.tokens.map (Token.worth prices)).sum

/-- A debt token adds nothing to the total. -/
def StakingToken.worth (token : StakingToken) : JsNumber :=
  if token.tokens ≠ [] then (token.tokens.map (StakedToken.worth prices)).sum
  else if token.address ∈ alpacaDebtTokens then 0
  else token.toToken.worth prices

def FarmToken.worth (token : FarmToken) : JsNumber :=
  match token.tokens with
  | none | some [] => token.toToken.worth prices
  | some tokens => (tokens.map (Token.worth prices)).sum

/-! ## Contributions

Of items that can be valued: what stands there for others does not count. -/

def LiquidityPoolFeature.contribution (item : LiquidityPoolFeature) : JsNumber :=
  (item.tokens.map (Token.worth prices)).sum + (item.rewards.map (ClaimableToken.worth prices)).sum

/-- The contributions to the total and to the locked value. -/
def StakingPosition.contribution (item : StakingPosition) : Counted :=
  (item.rewards.map (ClaimableToken.stakingWorth prices)).sum +
    toTotal (match item.stakingToken with
      | some token => token.worth prices
      | none => 0)

def LendingPosition.contribution (item : LendingPosition) : JsNumber :=
  match item.token with
  | some token => item.balance.toNumber * (token.priceWith prices).toNumber
  | none => 0

/-- What is earned: the farmed tokens without what is borrowed. -/
def LeverageFarmingPosition.contribution (item : LeverageFarmingPosition) : JsNumber :=
  match item.farmToken, item.borrowToken with
  | some farmToken, some borrowToken => farmToken.worth prices - borrowToken.worth prices
  | _, _ => 0

def LockedToken.rewardsWorth (item : LockedToken) : JsNumber :=
  match item.rewards with
  | some rewards => (rewards.worth prices).orZero
  | none => 0

/-- The underlying tokens come on top of the rewards if there is a locked balance, and else on top of
the unlocked value. Without underlying tokens it is both balances. -/
def LockedToken.contribution (item : LockedToken) : JsNumber :=
  if item.tokens ≠ [] then
    match item.locked, item.unlocked with
    | some _, _ => item.rewardsWorth prices + (item.tokens.map (Token.worth prices)).sum
    | none, some unlocked => unlocked.value.toNumber + (item.tokens.map (Token.worth prices)).sum
    | none, none => 0
  else
    match item.locked, item.unlocked with
    | some locked, some unlocked =>
      (item.priceWith prices).toNumber * locked.balance.toNumber +
        (item.priceWith prices).toNumber * unlocked.balance.toNumber
    | _, _ => 0

def MintPosition.contribution (item : MintPosition) : JsNumber :=
  match item.mintedToken, item.collateral with
  | some mintedToken, some collateral => collateral.worth prices - mintedToken.worth prices
  | _, _ => 0

def ShortFarmPosition.contribution (item : ShortFarmPosition) : JsNumber :=
  match item.rewards, item.locked with
  | reward :: _, some locked => (reward.worth prices).orZero + locked.worth prices
  | _, _ => 0

def AirdropPosition.contribution (item : AirdropPosition) : JsNumber :=
  match item.token with
  | some token => token.worth prices
  | none => 0

/-! ## What is counted before an exception -/

/-- The tokens, and the rewards before the first one without claimable data. -/
def LiquidityPoolFeature.reached (item : LiquidityPoolFeature) : JsNumber :=
  (item.tokens.map (Token.worth prices)).sum +
    ((item.rewards.takeWhile (·.claimableData.isSome)).map (ClaimableToken.worth prices)).sum

def StakingPosition.reached (item : StakingPosition) : Counted :=
  ((item.rewards.takeWhile (·.claimableData.isSome)).map
    (ClaimableToken.stakingWorth prices)).sum

/-! ## Items with their prices and values -/

def ERC20Token.Priced (token : ERC20Token) : Prop := token.price = token.priceWith prices

def Token.Valued (token : Token) : Prop :=
  token.Priced prices ∧ token.value = .number (token.worth prices)

def ClaimableToken.Valued (token : ClaimableToken) : Prop :=
  token.Priced prices ∧
    ∀ data ∈ token.claimableData, data.value = .number (token.worth prices)

/-- The value of a reward of a staking position is whatever it is. -/
def ClaimableToken.StakingValued (token : ClaimableToken) : Prop :=
  token.Priced prices ∧ ∀ data ∈ token.claimableData, (∃ value, data.value = .number value) ∧
    ∀ balance ∈ data.lockedBalance, data.lockedValue = .number (balance * token.price.toNumber)

/-- Rewards count up to the first one without claimable data. -/
def LiquidityPoolFeature.Settled (item : LiquidityPoolFeature) : Prop :=
  (∀ token ∈ item.tokens, token.Valued prices) ∧
    ∀ reward, Reached (·.claimableData.isSome) item.rewards reward → reward.Valued prices

/-- A staked LP token loses the tokens that are under it, and a debt token takes over the value of
the first reward. -/
def StakingToken.Settled (rewards : List ClaimableToken) (token : StakingToken) : Prop :=
  if token.tokens ≠ [] then
    ∀ staked ∈ token.tokens, staked.tokens = [] ∧ staked.toToken.Valued prices
  else if token.address ∈ alpacaDebtTokens then
    ∀ reward ∈ rewards.head?, ∀ data ∈ reward.claimableData, token.value = data.value
  else token.toToken.Valued prices

def StakingPosition.Settled (item : StakingPosition) : Prop :=
  (∀ reward, Reached (·.claimableData.isSome) item.rewards reward → reward.StakingValued prices) ∧
    ((∀ reward ∈ item.rewards, reward.claimableData.isSome) →
      ∀ token ∈ item.stakingToken, token.Settled prices item.rewards)

def LendingPosition.Settled (item : LendingPosition) : Prop :=
  ∀ token ∈ item.token, token.Priced prices ∧ item.value = .number (item.contribution prices)

def FarmToken.Settled (token : FarmToken) : Prop :=
  ∀ tokens ∈ token.tokens, if tokens ≠ [] then ∀ t ∈ tokens, Token.Valued prices t
    else token.toToken.Valued prices

def LeverageFarmingPosition.Settled (item : LeverageFarmingPosition) : Prop :=
  ∀ farmToken ∈ item.farmToken, farmToken.Settled prices ∧
    (farmToken.tokens.isSome → ∀ borrowToken ∈ item.borrowToken, borrowToken.Valued prices ∧
      item.earned = .number (item.contribution prices) ∧
      item.debtRatio = .number (borrowToken.worth prices / farmToken.worth prices * 100))

def LockedToken.Settled (item : LockedToken) : Prop :=
  if item.tokens ≠ [] then
    (∀ rewards ∈ item.rewards, rewards.Valued prices) ∧
      match item.locked, item.unlocked with
      | some locked, _ => (∀ token ∈ item.tokens, token.Valued prices) ∧
          locked.value = .number (item.contribution prices)
      | none, some unlocked => (∀ token ∈ item.tokens, token.Valued prices) ∧
          unlocked.value = .number (item.contribution prices)
      | none, none => ∀ token ∈ item.tokens.head?, token.Valued prices
  else
    item.Priced prices ∧ ∀ locked ∈ item.locked,
      locked.value = .number (item.price.toNumber * locked.balance.toNumber) ∧
      ∀ unlocked ∈ item.unlocked,
        unlocked.value = .number (item.price.toNumber * unlocked.balance.toNumber) ∧
        item.totalValue = .number (item.contribution prices)

def MintPosition.Settled (item : MintPosition) : Prop :=
  ∀ mintedToken ∈ item.mintedToken, mintedToken.Valued prices ∧
    ∀ collateral ∈ item.collateral, collateral.Valued prices

def ShortFarmPosition.Settled (item : ShortFarmPosition) : Prop :=
  ∀ stakingToken ∈ item.stakingToken, stakingToken.Valued prices ∧
    ∀ locked ∈ item.locked, locked.Valued prices ∧
      ∀ reward ∈ item.rewards.head?, reward.Valued prices

def AirdropPosition.Settled (item : AirdropPosition) : Prop :=
  ∀ token ∈ item.token, token.Valued prices

end

section
variable (prices : Prices)

/-! ## Valuations that go through -/

theorem setPrice_some (token : ERC20Token) :
    setPrice (some prices) token = ⟨{ token with price := token.priceWith prices }, 0, false⟩ := by
  have hprice : ((prices.get token.address).join.map .number).getD token.price =
      token.priceWith prices := by
    rw [ERC20Token.priceWith]
    rcases prices.get token.address with _ | _ | price <;> rfl
  rw [← hprice]
  rfl

theorem priced_iff {token : ERC20Token} :
    { token with price := token.priceWith prices } = token ↔ token.Priced prices := by
  obtain ⟨address, price⟩ := token
  rw [ERC20Token.Priced, ERC20Token.mk.injEq, eq_comm (a := price)]
  exact and_iff_right rfl

/-- A token with its price and its value. -/
def Token.valued (token : Token) : Token :=
  { token with price := token.priceWith prices, value := .number (token.worth prices) }

theorem setTokenPriceAndValue_some (token : Token) :
    setTokenPriceAndValue (some prices) token = ⟨token.valued prices, 0, false⟩ := by
  rw [setTokenPriceAndValue, seq_of_silent (onField_of_eq (setPrice_some prices _))]
  rfl

theorem countToken_some (token : Token) :
    countToken (some prices) token = ⟨token.valued prices, toTotal (token.worth prices), false⟩ := by
  rw [countToken, seq_of_silent (setTokenPriceAndValue_some prices token)]
  rfl

theorem valued_iff {token : Token} : token.valued prices = token ↔ token.Valued prices := by
  obtain ⟨⟨address, price⟩, balance, value⟩ := token
  rw [Token.valued, Token.Valued, ERC20Token.Priced, Token.mk.injEq, ERC20Token.mk.injEq]
  constructor
  · rintro ⟨⟨-, hprice⟩, -, hvalue⟩
    exact ⟨hprice.symm, hvalue.symm⟩
  · rintro ⟨hprice, hvalue⟩
    exact ⟨⟨rfl, hprice.symm⟩, rfl, hvalue.symm⟩

theorem valued_value (token : Token) : (token.valued prices).value.toNumber = token.worth prices :=
  rfl

theorem toTotal_add (a b : JsNumber) : toTotal (a + b) = toTotal a + toTotal b :=
  Prod.ext rfl (add_zero _).symm

theorem sum_toTotal (f : α → JsNumber) (l : List α) :
    (l.map fun a => toTotal (f a)).sum = toTotal (l.map f).sum := by
  induction l with
  | nil => rfl
  | cons a l ih => rw [List.map_cons, List.sum_cons, ih, List.map_cons, List.sum_cons, toTotal_add]

/-! ### Tokens that can be claimed -/

/-- A claimable token with its price and, if it has claimable data, its value. -/
def ClaimableToken.valued (token : ClaimableToken) : ClaimableToken :=
  { token with
    price := token.priceWith prices
    claimableData := token.claimableData.map fun data =>
      { data with value := .number (token.worth prices) } }

theorem claimableValued_iff {token : ClaimableToken} :
    token.valued prices = token ↔ token.Valued prices := by
  obtain ⟨⟨address, price⟩, data⟩ := token
  rw [ClaimableToken.valued, ClaimableToken.Valued, ERC20Token.Priced, ClaimableToken.mk.injEq,
    ERC20Token.mk.injEq]
  cases data with
  | none => simp [eq_comm]
  | some data =>
    obtain ⟨balance, value, lockedBalance, lockedValue⟩ := data
    simp [eq_comm]

theorem valueClaimable_some {value : Field → Claimable → JsNumber}
    (hvalue : ∀ price data, value price data = data.balance.toNumber * price.toNumber)
    (token : ClaimableToken) : valueClaimable (some prices) value token =
      ⟨token.valued prices, 0, !token.claimableData.isSome⟩ := by
  obtain ⟨⟨address, price⟩, data⟩ := token
  rw [valueClaimable, seq_of_silent (onField_of_eq (setPrice_some prices _))]
  cases data with
  | none => exact require_seq_of_false rfl _
  | some data =>
    rw [require_seq rfl, Pass.assign, ClaimableToken.valued]
    simp only [hvalue]
    rfl

/-- A claimable token that is valued and counted. -/
theorem countClaimable_some {value : Field → Claimable → JsNumber}
    (hvalue : ∀ price data, value price data = data.balance.toNumber * price.toNumber)
    (token : ClaimableToken) :
    ((valueClaimable (some prices) value).seq <| .count fun token =>
      toTotal token.claimableValue) token =
        ⟨token.valued prices, toTotal (token.worth prices), !token.claimableData.isSome⟩ := by
  obtain ⟨⟨address, price⟩, data⟩ := token
  have hfirst := valueClaimable_some prices hvalue ⟨⟨address, price⟩, data⟩
  cases data with
  | none =>
    rw [seq_of_threw (by rw [hfirst]; rfl), hfirst]
    rfl
  | some data =>
    rw [seq_of_silent hfirst]
    rfl

theorem adjustReward_some (token : ClaimableToken) : adjustReward (some prices) token =
    ⟨token.valued prices, toTotal (token.worth prices), !token.claimableData.isSome⟩ :=
  countClaimable_some prices (fun _ _ => rfl) token

theorem adjustClaimable_some (token : ClaimableToken) : adjustClaimable (some prices) token =
    ⟨token.valued prices, toTotal (token.worth prices), !token.claimableData.isSome⟩ :=
  countClaimable_some prices (fun _ _ => JsNumber.mul_comm _ _) token

/-! ### Pools -/

theorem forEach_countToken (tokens : List Token) : (countToken (some prices)).forEach tokens =
    ⟨tokens.map (Token.valued prices), toTotal (tokens.map (Token.worth prices)).sum, false⟩ := by
  rw [forEach_done fun token _ => by rw [countToken_some]]
  simp only [countToken_some, sum_toTotal]

theorem foldl_worth (tokens : List Token) :
    (tokens.map (Token.valued prices)).foldl (fun total token => total + token.value.toNumber) 0 =
      (tokens.map (Token.worth prices)).sum := by
  rw [List.sum_eq_foldl, List.foldl_map, List.foldl_map]
  rfl

theorem forEach_setTokenPriceAndValue (tokens : List Token) :
    (setTokenPriceAndValue (some prices)).forEach tokens =
      ⟨tokens.map (Token.valued prices), 0, false⟩ := by
  rw [forEach_done fun t _ => by rw [setTokenPriceAndValue_some]]
  simp [setTokenPriceAndValue_some]

theorem map_valued_iff {tokens : List Token} :
    tokens.map (Token.valued prices) = tokens ↔ ∀ token ∈ tokens, token.Valued prices := by
  rw [← List.map_id tokens, List.map_map, List.map_inj_left]
  simp only [Function.comp_apply, id, valued_iff, List.map_id]

/-- The rewards before the first one without claimable data. -/
theorem takeWhile_claimable {p : Pass Counted ClaimableToken}
    (hthrew : ∀ token, (p token).threw = !token.claimableData.isSome)
    (rewards : List ClaimableToken) :
    (rewards.takeWhile fun reward => !(p reward).threw) =
      rewards.takeWhile (·.claimableData.isSome) := by
  simp only [hthrew, Bool.not_not]

/-- Rewards are reached until one has no claimable data. -/
theorem forEach_rewards_iff {p : Pass Counted ClaimableToken}
    (hthrew : ∀ token, (p token).threw = !token.claimableData.isSome)
    {rewards : List ClaimableToken} : (p.forEach rewards).object = rewards ↔
      ∀ reward, Reached (·.claimableData.isSome) rewards reward → (p reward).object = reward := by
  rw [forEach_object_iff]
  simp only [hthrew, Bool.not_eq_eq_eq_not, Bool.not_false]

theorem adjustPool_values (item : LiquidityPoolFeature) :
    (adjustPool (some prices)).Values item item.WellFormed (toTotal (item.contribution prices))
      (toTotal (item.reached prices)) (item.Settled prices) := by
  have hreward : ∀ token, (adjustReward (some prices) token).threw =
      !token.claimableData.isSome := fun token => by rw [adjustReward_some]
  have hrewards : ((adjustReward (some prices)).forEach item.rewards).added =
      toTotal ((item.rewards.takeWhile (·.claimableData.isSome)).map
        (ClaimableToken.worth prices)).sum := by
    rw [forEach_added, takeWhile_claimable hreward, ← sum_toTotal]
    · simp only [adjustReward_some]
    · intro reward _ hthrew
      rw [adjustReward_some] at hthrew ⊢
      have hnone : reward.claimableData = none := by simpa using hthrew
      rw [ClaimableToken.worth, hnone]
      rfl
  have htokens : ((countToken (some prices)).forEach.onField (·.tokens)
      (fun ts (item : LiquidityPoolFeature) => { item with tokens := ts }) item).threw = false := by
    rw [onField_threw, forEach_countToken]
  have hadded : (adjustPool (some prices) item).added = toTotal (item.reached prices) := by
    rw [adjustPool, seq_added, htokens, if_neg Bool.false_ne_true,
      onField_of_eq (forEach_countToken prices _), LiquidityPoolFeature.reached, toTotal_add]
    exact congrArg (toTotal _ + ·) hrewards
  refine ⟨?_, fun hwf => ?_, fun _ => hadded, ?_⟩
  · rw [adjustPool, seq_threw, htokens, onField_threw, forEach_threw, onField_of_eq
      (forEach_countToken prices _), LiquidityPoolFeature.WellFormed]
    simp [hreward, Option.isSome_iff_ne_none]
  · rw [hadded, LiquidityPoolFeature.reached, List.takeWhile_eq_self_iff.mpr hwf,
      LiquidityPoolFeature.contribution]
  · rw [adjustPool, seq_object, htokens, if_neg Bool.false_ne_true,
      onField_of_eq (forEach_countToken prices _)]
    obtain ⟨tokens, rewards⟩ := item
    rw [LiquidityPoolFeature.Settled, ← map_valued_iff, onField_object,
      LiquidityPoolFeature.mk.injEq, forEach_rewards_iff hreward]
    simp only [adjustReward_some, claimableValued_iff]

theorem adjustClaimable_values (token : ClaimableToken) :
    (adjustClaimable (some prices)).Values token token.claimableData.isSome
      (toTotal (token.worth prices)) 0 (token.Valued prices) := by
  rw [← claimableValued_iff]
  have heq := adjustClaimable_some prices token
  refine ⟨by rw [heq]; simp, fun _ => by rw [heq], fun hnone => ?_, by rw [heq]⟩
  rw [heq, ClaimableToken.worth, Option.not_isSome_iff_eq_none.mp hnone]
  rfl

/-! ### Staking positions -/

/-- A reward of a staking position with its price, and with a value for what can be claimed. -/
def ClaimableToken.stakingValued (token : ClaimableToken) : ClaimableToken :=
  let price := (token.priceWith prices).toNumber
  { token with
    price := token.priceWith prices
    claimableData := token.claimableData.map fun data =>
      { data with
        value := data.value.orElse (.number (data.balance.toNumber * price))
        lockedValue := (data.lockedBalance.map fun balance =>
          Field.number (balance * price)).getD data.lockedValue } }

theorem adjustStakingReward_some (token : ClaimableToken) : adjustStakingReward (some prices) token =
    ⟨token.stakingValued prices, token.stakingWorth prices, !token.claimableData.isSome⟩ := by
  obtain ⟨⟨address, price⟩, data⟩ := token
  rw [adjustStakingReward, seq_of_silent (onField_of_eq (setPrice_some prices _))]
  cases data with
  | none => exact require_seq_of_false rfl _
  | some data =>
    obtain ⟨balance, value, lockedBalance, lockedValue⟩ := data
    rw [require_seq rfl, assign_seq]
    cases lockedBalance <;> rfl

theorem orElse_eq_self {field : Field} {n : JsNumber} :
    field.orElse (.number n) = field ↔ ∃ value, field = .number value := by
  cases field with
  | undefined => exact iff_of_false nofun nofun
  | null => exact iff_of_false nofun nofun
  | number value => exact iff_of_true rfl ⟨value, rfl⟩

theorem stakingValued_iff {token : ClaimableToken} :
    token.stakingValued prices = token ↔ token.StakingValued prices := by
  obtain ⟨⟨address, price⟩, data⟩ := token
  rw [ClaimableToken.stakingValued, ClaimableToken.StakingValued, ERC20Token.Priced,
    ClaimableToken.mk.injEq, ERC20Token.mk.injEq, eq_comm (a := price)]
  simp only [true_and]
  refine and_congr_right fun hprice => ?_
  cases data with
  | none => simp
  | some data =>
    obtain ⟨balance, value, lockedBalance, lockedValue⟩ := data
    rw [hprice]
    simp only [Option.map_some, Option.some.injEq, Claimable.mk.injEq, true_and, Option.mem_def,
      orElse_eq_self, forall_eq']
    cases lockedBalance <;> simp [eq_comm]

theorem underlyingStakingTokensHandling_some (token : StakedToken) (h : token.tokens ≠ []) :
    (underlyingStakingTokensHandling (some prices) token).threw = false ∧
      (underlyingStakingTokensHandling (some prices) token).added = toTotal (token.worth prices) ∧
      (underlyingStakingTokensHandling (some prices) token).object.tokens = [] := by
  rw [underlyingStakingTokensHandling,
    seq_of_silent (onField_of_eq (forEach_setTokenPriceAndValue prices _)), assign_seq]
  simp only [seq_threw, seq_added, seq_object, count_threw, count_object, assign_threw,
    assign_object, Bool.or_self, Bool.false_eq_true, if_false, and_true, true_and]
  rw [StakedToken.worth, if_neg h, ← foldl_worth]
  dsimp only [Pass.count, Pass.assign]
  rw [add_zero]
  split <;> rfl

theorem adjustStakedToken_some (token : StakedToken) :
    (adjustStakedToken (some prices) token).threw = false ∧
      (adjustStakedToken (some prices) token).added = toTotal (token.worth prices) ∧
      ((adjustStakedToken (some prices) token).object = token ↔
        token.tokens = [] ∧ token.toToken.Valued prices) := by
  by_cases htokens : token.tokens = []
  · rw [adjustStakedToken, cond_of_false (by simpa using htokens),
      seq_of_silent (onField_of_eq (setTokenPriceAndValue_some prices _))]
    refine ⟨rfl, ?_, ?_⟩
    · rw [StakedToken.worth, if_pos htokens]
      rfl
    · obtain ⟨token, tokens⟩ := token
      rw [count_object, StakedToken.mk.injEq, valued_iff]
      exact ⟨fun h => ⟨htokens, h.1⟩, fun h => ⟨h.2, rfl⟩⟩
  · obtain ⟨hthrew, hadded, hobject⟩ := underlyingStakingTokensHandling_some prices token htokens
    rw [adjustStakedToken, cond_of_true (by simpa using htokens)]
    refine ⟨hthrew, hadded, iff_of_false (fun h => ?_) fun h => htokens h.1⟩
    rw [h] at hobject
    exact htokens hobject

theorem forEach_adjustStakedToken (tokens : List StakedToken) :
    (adjustStakedToken (some prices)).forEach tokens =
      ⟨tokens.map fun token => (adjustStakedToken (some prices) token).object,
        toTotal (tokens.map (StakedToken.worth prices)).sum, false⟩ := by
  rw [forEach_done fun token _ => (adjustStakedToken_some prices token).1, ← sum_toTotal]
  simp only [(adjustStakedToken_some prices _).2.1]

/-- The statements after the rewards. -/
def valueStakingToken (prices : Option Prices) : Pass Counted StakingPosition :=
  .cond (fun position => position.stakingToken.any fun token => token.tokens ≠ [])
    (onStakingToken <| ((adjustStakedToken prices).forEach).onField (·.tokens) fun ts token =>
      { token with tokens := ts }) <|
  .cond (fun position => position.stakingToken.any fun token => token.address ∈ alpacaDebtTokens)
    valueDebtToken <|
  onStakingToken <| (countToken prices).onField (·.toToken) fun t token => { token with toToken := t }

theorem valueStakingToken_some {item : StakingPosition}
    (hrewards : ∀ reward ∈ item.rewards, reward.claimableData.isSome) :
    ((valueStakingToken (some prices) item).threw = false ↔ item.TokenThere) ∧
      (item.TokenThere → (valueStakingToken (some prices) item).added = toTotal
        (match item.stakingToken with
          | some token => token.worth prices
          | none => 0)) ∧
      (¬ item.TokenThere → (valueStakingToken (some prices) item).added = 0) ∧
      (valueStakingToken (some prices) item).object.rewards = item.rewards ∧
      ((valueStakingToken (some prices) item).object.stakingToken = item.stakingToken ↔
        ∀ token ∈ item.stakingToken, token.Settled prices item.rewards) := by
  obtain ⟨stakingToken, rewards⟩ := item
  cases stakingToken with
  | none =>
    have heq : valueStakingToken (some prices) ⟨none, rewards⟩ = ⟨⟨none, rewards⟩, 0, true⟩ := rfl
    rw [heq]
    simp [StakingPosition.TokenThere]
  | some token =>
    by_cases htokens : token.tokens = []
    · by_cases hdebt : token.address ∈ alpacaDebtTokens
      · rw [valueStakingToken, cond_of_false (by simpa using htokens),
          cond_of_true (by simpa using hdebt), valueDebtToken]
        cases rewards with
        | nil =>
          rw [require_seq_of_false rfl]
          simp [StakingPosition.TokenThere, StakingToken.Settled, htokens, hdebt]
        | cons reward rewards =>
          -- the value of a debt token is that of the first reward
          obtain ⟨data, hdata⟩ := Option.isSome_iff_exists.mp (hrewards reward (List.mem_cons_self ..))
          rw [require_seq (by simp [hdata])]
          obtain ⟨⟨⟨address, price⟩, balance, value⟩, tokens⟩ := token
          simp only at htokens hdebt
          simp [StakingPosition.TokenThere, StakingToken.Settled, StakingToken.worth, htokens, hdebt,
            hdata, Pass.assign, toTotal, eq_comm]
          rfl
      · have heq : valueStakingToken (some prices) ⟨some token, rewards⟩ =
            ⟨⟨some { token with toToken := token.toToken.valued prices }, rewards⟩,
              toTotal (token.toToken.worth prices), false⟩ := by
          rw [valueStakingToken, cond_of_false (by simpa using htokens),
            cond_of_false (by simpa using hdebt), onStakingToken]
          simp only [Pass.onField, needed, countToken_some]
        obtain ⟨token, tokens⟩ := token
        simp only at htokens hdebt
        rw [heq]
        simp [StakingPosition.TokenThere, StakingToken.Settled, StakingToken.worth, htokens, hdebt,
          valued_iff]
    · have heq : valueStakingToken (some prices) ⟨some token, rewards⟩ =
          ⟨⟨some { token with tokens := token.tokens.map fun token =>
              (adjustStakedToken (some prices) token).object }, rewards⟩,
            toTotal (token.worth prices), false⟩ := by
        rw [valueStakingToken, cond_of_true (by simpa using htokens), onStakingToken,
          StakingToken.worth, if_pos htokens]
        simp only [Pass.onField, needed, forEach_adjustStakedToken]
      have hmap := List.map_inj_left (l := token.tokens) (g := id)
        (f := fun token => (adjustStakedToken (some prices) token).object)
      obtain ⟨token, tokens⟩ := token
      simp only [List.map_id, id, (adjustStakedToken_some prices _).2.2] at hmap
      rw [heq]
      simpa [StakingPosition.TokenThere, StakingToken.Settled, htokens] using hmap

/-- The rewards of a staking position. -/
theorem forEach_adjustStakingReward (rewards : List ClaimableToken) :
    ((adjustStakingReward (some prices)).forEach rewards).threw =
        (rewards.any fun reward => !reward.claimableData.isSome) ∧
      ((adjustStakingReward (some prices)).forEach rewards).added =
        ((rewards.takeWhile (·.claimableData.isSome)).map
          (ClaimableToken.stakingWorth prices)).sum ∧
      (((adjustStakingReward (some prices)).forEach rewards).object = rewards ↔
        ∀ reward, Reached (·.claimableData.isSome) rewards reward →
          reward.StakingValued prices) := by
  have hthrew : ∀ token, (adjustStakingReward (some prices) token).threw =
      !token.claimableData.isSome := fun token => by rw [adjustStakingReward_some]
  refine ⟨?_, ?_, ?_⟩
  · simp only [forEach_threw, hthrew]
  · rw [forEach_added, takeWhile_claimable hthrew]
    · simp only [adjustStakingReward_some]
    · intro reward _ hthrew
      rw [adjustStakingReward_some] at hthrew ⊢
      have hnone : reward.claimableData = none := by simpa using hthrew
      rw [ClaimableToken.stakingWorth, hnone]
  · rw [forEach_rewards_iff hthrew]
    simp only [adjustStakingReward_some, stakingValued_iff]

theorem adjustStaking_values (item : StakingPosition) :
    (adjustStaking (some prices)).Values item item.WellFormed (item.contribution prices)
      (item.reached prices) (item.Settled prices) := by
  obtain ⟨hthrew, hadded, hobject⟩ := forEach_adjustStakingReward prices item.rewards
  have heq : adjustStaking (some prices) = ((adjustStakingReward (some prices)).forEach.onField
      (·.rewards) fun ts position => { position with rewards := ts }).seq
        (valueStakingToken (some prices)) := rfl
  suffices H : _ ∧ _ ∧ _ ∧ _ from ⟨H.1, H.2.1, H.2.2.1, H.2.2.2⟩
  rw [heq, seq_threw, seq_added, seq_object, onField_threw, hthrew]
  cases hany : item.rewards.any fun reward => !reward.claimableData.isSome
  · have hall : ∀ reward ∈ item.rewards, reward.claimableData.isSome := by
      simpa [Option.isSome_iff_ne_none] using hany
    have hrewards : ((adjustStakingReward (some prices)).forEach item.rewards).object =
        item.rewards.map (ClaimableToken.stakingValued prices) := by
      rw [forEach_done fun reward hr => by rw [adjustStakingReward_some, hall reward hr]; rfl]
      simp only [adjustStakingReward_some]
    have hall' : ∀ reward ∈ item.rewards.map (ClaimableToken.stakingValued prices),
        reward.claimableData.isSome := by
      rw [List.forall_mem_map]
      exact fun reward hr => by simpa [ClaimableToken.stakingValued] using hall reward hr
    have htake : item.rewards.takeWhile (·.claimableData.isSome) = item.rewards :=
      List.takeWhile_eq_self_iff.mpr hall
    have hthere : ({ item with rewards := item.rewards.map (ClaimableToken.stakingValued prices) } :
        StakingPosition).TokenThere ↔ item.TokenThere := by simp [StakingPosition.TokenThere]
    have hwf : item.WellFormed ↔ item.TokenThere := and_iff_right hall
    obtain ⟨htoken, hcounted, hnone, hkept, hsettled⟩ := @valueStakingToken_some prices
      { item with rewards := item.rewards.map (ClaimableToken.stakingValued prices) } hall'
    rw [htake] at hadded
    simp only [onField_object, hrewards, hthere, Bool.false_or, Bool.false_eq_true,
      if_false] at htoken hcounted hnone hkept hsettled ⊢
    rw [hwf]
    refine ⟨htoken, fun h => ?_, fun h => ?_, ?_⟩
    · rw [hcounted h, StakingPosition.contribution, ← hadded]
      rfl
    · rw [hnone h, add_zero, StakingPosition.reached, htake, ← hadded]
      rfl
    · rw [← hrewards] at hkept hsettled ⊢
      rw [StakingPosition.Settled, ← hobject]
      constructor
      · intro h
        have hsame := hkept.symm.trans (congrArg StakingPosition.rewards h)
        rw [hsame] at hsettled h
        exact ⟨hsame, fun _ => hsettled.mp (congrArg StakingPosition.stakingToken h)⟩
      · rintro ⟨hsame, htokens⟩
        rw [hsame] at hsettled hkept ⊢
        obtain ⟨stakingToken, rewards⟩ := item
        have htoken' := hsettled.mpr (htokens hall)
        generalize valueStakingToken (some prices) _ = visit at hkept htoken' ⊢
        obtain ⟨⟨stakingToken', rewards'⟩, added, threw⟩ := visit
        cases hkept
        cases htoken'
        rfl
  · have hwf : ¬ item.WellFormed := fun h => by
      obtain ⟨reward, hr, hnone⟩ := List.any_eq_true.mp hany
      rw [h.1 reward hr] at hnone
      cases hnone
    have hmissing : ¬ ∀ reward ∈ item.rewards, reward.claimableData.isSome := by
      simpa [Option.isSome_iff_ne_none] using hany
    simp only [Bool.true_or, if_true, onField_object]
    refine ⟨iff_of_false nofun hwf, fun h => absurd h hwf, fun _ => hadded, ?_⟩
    rw [StakingPosition.Settled, ← hobject, and_iff_left fun h => absurd h hmissing]
    obtain ⟨stakingToken, rewards⟩ := item
    rw [StakingPosition.mk.injEq]
    exact and_iff_right rfl

/-! ### Other items -/

theorem adjustLending_values (item : LendingPosition) :
    (adjustLending (some prices)).Values item item.token.isSome (toTotal (item.contribution prices))
      0 (item.Settled prices) := by
  suffices H : _ ∧ _ ∧ _ ∧ _ from ⟨H.1, H.2.1, H.2.2.1, H.2.2.2⟩
  obtain ⟨token, balance, value⟩ := item
  rw [adjustLending]
  cases token with
  | none =>
    rw [seq_of_threw rfl]
    exact values_of_threw rfl (fun h => by cases h) rfl (iff_of_true rfl fun _ h => by cases h)
  | some token =>
    have hset : (setPrice (some prices)).needed (some token) =
        ⟨some { token with price := token.priceWith prices }, 0, false⟩ := by
      rw [needed, setPrice_some]
    rw [onField_seq hset (by rfl), assign_seq]
    refine values_of_done rfl rfl rfl ?_
    simp only [LendingPosition.Settled, LendingPosition.contribution, count_object, Option.map_some,
      LendingPosition.mk.injEq, Option.some.injEq, priced_iff, Option.getD_some, true_and,
      Option.mem_def, forall_eq', eq_comm (a := value)]

theorem adjustAirdrop_values (item : AirdropPosition) :
    (adjustAirdrop (some prices)).Values item item.token.isSome (toTotal (item.contribution prices))
      0 (item.Settled prices) := by
  suffices H : _ ∧ _ ∧ _ ∧ _ from ⟨H.1, H.2.1, H.2.2.1, H.2.2.2⟩
  obtain ⟨token⟩ := item
  cases token with
  | none => exact values_of_threw rfl (fun h => by cases h) rfl (iff_of_true rfl fun _ h => by cases h)
  | some token =>
    have heq : adjustAirdrop (some prices) ⟨some token⟩ =
        ⟨⟨some (token.valued prices)⟩, toTotal (token.worth prices), false⟩ := by
      simp only [adjustAirdrop, Pass.onField, needed, countToken_some]
    rw [heq]
    refine values_of_done rfl rfl rfl ?_
    simp [AirdropPosition.Settled, valued_iff]

theorem adjustMint_values (item : MintPosition) :
    (adjustMint (some prices)).Values item item.WellFormed (toTotal (item.contribution prices)) 0
      (item.Settled prices) := by
  suffices H : _ ∧ _ ∧ _ ∧ _ from ⟨H.1, H.2.1, H.2.2.1, H.2.2.2⟩
  obtain ⟨mintedToken, collateral⟩ := item
  rw [adjustMint]
  cases mintedToken with
  | none =>
    rw [seq_of_threw rfl]
    exact values_of_threw rfl (fun h => by cases h.1) rfl (iff_of_true rfl fun _ h => by cases h)
  | some mintedToken =>
    have hset : ∀ token, (setTokenPriceAndValue (some prices)).needed (some token) =
        ⟨some (token.valued prices), 0, false⟩ := by
      intro token
      rw [needed, setTokenPriceAndValue_some]
    rw [onField_seq (hset _) (by rfl)]
    cases collateral with
    | none =>
      rw [seq_of_threw rfl]
      refine values_of_threw rfl (fun h => by cases h.2) rfl ?_
      simp [MintPosition.Settled, Pass.onField, needed, Pass.throwing, valued_iff]
    | some collateral =>
      rw [onField_seq (hset _) (by rfl)]
      refine values_of_done rfl ⟨rfl, rfl⟩ rfl ?_
      simp [MintPosition.Settled, valued_iff]

theorem adjustShortFarm_values (item : ShortFarmPosition) :
    (adjustShortFarm (some prices)).Values item item.WellFormed (toTotal (item.contribution prices)) 0
      (item.Settled prices) := by
  suffices H : _ ∧ _ ∧ _ ∧ _ from ⟨H.1, H.2.1, H.2.2.1, H.2.2.2⟩
  obtain ⟨stakingToken, locked, rewards⟩ := item
  have hset : ∀ token, (setTokenPriceAndValue (some prices)).needed (some token) =
      ⟨some (token.valued prices), 0, false⟩ := by
    intro token
    rw [needed, setTokenPriceAndValue_some]
  rw [adjustShortFarm]
  cases stakingToken with
  | none =>
    rw [seq_of_threw rfl]
    exact values_of_threw rfl (fun h => by cases h.1) rfl (iff_of_true rfl fun _ h => by cases h)
  | some stakingToken =>
    rw [onField_seq (hset _) (by rfl)]
    cases locked with
    | none =>
      rw [seq_of_threw rfl]
      refine values_of_threw rfl (fun h => by cases h.2.1) rfl ?_
      simp [ShortFarmPosition.Settled, Pass.onField, needed, Pass.throwing, valued_iff]
    | some locked =>
      rw [onField_seq (hset _) (by rfl)]
      cases rewards with
      | nil =>
        rw [seq_of_threw rfl]
        refine values_of_threw rfl (fun h => by cases h.2.2) rfl ?_
        simp [ShortFarmPosition.Settled, Pass.onField, onHead, Pass.throwing, valued_iff]
      | cons reward rewards =>
        have hvalue := @valueClaimable_some prices
          (fun price data => data.balance.toNumber * price.toNumber) (fun _ _ => rfl) reward
        obtain ⟨⟨address, price⟩, data⟩ := reward
        cases data with
        | none =>
          rw [seq_of_threw (by simp [onHead, hvalue])]
          refine values_of_threw (by simp [Pass.onField, onHead, hvalue]) (fun h => by cases h.2.2)
            (by simp [Pass.onField, onHead, hvalue]) ?_
          simp [ShortFarmPosition.Settled, Pass.onField, onHead, hvalue, valued_iff,
            claimableValued_iff]
        | some data =>
          have hhead : (valueClaimable (some prices) fun price data =>
              data.balance.toNumber * price.toNumber).onHead
                (⟨⟨address, price⟩, some data⟩ :: rewards) =
              ⟨ClaimableToken.valued prices ⟨⟨address, price⟩, some data⟩ :: rewards, 0, false⟩ := by
            rw [onHead, hvalue]
            rfl
          rw [onField_seq hhead (by rfl)]
          have hwf : ShortFarmPosition.WellFormed
              ⟨some stakingToken, some locked, ⟨⟨address, price⟩, some data⟩ :: rewards⟩ :=
            ⟨rfl, rfl, rfl⟩
          refine values_of_done rfl hwf rfl ?_
          simp [ShortFarmPosition.Settled, valued_iff, claimableValued_iff]

/-! ### Leveraged farming -/

theorem adjustFarmToken_some {token : FarmToken} (h : token.tokens.isSome) :
    ∃ farmToken, adjustFarmToken (some prices) token = ⟨farmToken, 0, false⟩ ∧
      farmToken.leverageTotal = token.worth prices ∧
      (farmToken = token ↔ token.Settled prices) := by
  obtain ⟨token, tokens⟩ := token
  obtain ⟨tokens, rfl⟩ := Option.isSome_iff_exists.mp h
  rw [adjustFarmToken, require_seq rfl]
  by_cases hnil : tokens = []
  · subst hnil
    refine ⟨⟨token.valued prices, some []⟩, ?_, zero_add _, ?_⟩
    · rw [cond_of_false (by rfl), onField_of_eq (setTokenPriceAndValue_some prices _)]
    · simp [FarmToken.Settled, valued_iff]
  · refine ⟨⟨token, some (tokens.map (Token.valued prices))⟩, ?_, ?_, ?_⟩
    · rw [cond_of_true (by simpa using hnil)]
      simp only [Pass.onField, needed, forEach_setTokenPriceAndValue]
    · cases tokens with
      | nil => exact absurd rfl hnil
      | cons t tokens => exact foldl_worth prices (t :: tokens)
    · simp [FarmToken.Settled, hnil, map_valued_iff]

theorem adjustLeverageFarming_values (item : LeverageFarmingPosition) :
    (adjustLeverageFarming (some prices)).Values item item.WellFormed
      (toTotal (item.contribution prices)) 0 (item.Settled prices) := by
  suffices H : _ ∧ _ ∧ _ ∧ _ from ⟨H.1, H.2.1, H.2.2.1, H.2.2.2⟩
  obtain ⟨farmToken, borrowToken, earned, debtRatio⟩ := item
  rw [adjustLeverageFarming]
  cases farmToken with
  | none =>
    rw [seq_of_threw rfl]
    exact values_of_threw rfl (fun h => by cases h.1) rfl (iff_of_true rfl fun _ h => by cases h)
  | some farmToken =>
    by_cases htokens : farmToken.tokens.isSome
    · obtain ⟨farmToken', hfarm, htotal, hsettled⟩ := adjustFarmToken_some prices htokens
      have hneeded : (adjustFarmToken (some prices)).needed (some farmToken) =
          ⟨some farmToken', 0, false⟩ := by
        rw [needed, hfarm]
      rw [onField_seq hneeded (by rfl)]
      cases borrowToken with
      | none =>
        rw [seq_of_threw rfl]
        refine values_of_threw rfl (fun h => by cases h.2) rfl ?_
        simp [LeverageFarmingPosition.Settled, Pass.onField, needed, Pass.throwing, hsettled]
      | some borrowToken =>
        have hborrow : (setTokenPriceAndValue (some prices)).needed (some borrowToken) =
            ⟨some (borrowToken.valued prices), 0, false⟩ := by
          rw [needed, setTokenPriceAndValue_some]
        rw [onField_seq hborrow (by rfl), assign_seq]
        simp only [Option.map_some, Option.getD_some, htotal, valued_value]
        refine values_of_done rfl ⟨htokens, rfl⟩ rfl ?_
        simp [LeverageFarmingPosition.Settled, LeverageFarmingPosition.contribution, hsettled,
          htokens, valued_iff, eq_comm (a := earned), eq_comm (a := debtRatio)]
    · obtain ⟨token, tokens⟩ := farmToken
      obtain rfl : tokens = none := Option.not_isSome_iff_eq_none.mp htokens
      rw [seq_of_threw rfl]
      refine values_of_threw rfl (fun h => by cases h.1) rfl (iff_of_true rfl ?_)
      rintro _ ⟨⟩
      exact ⟨fun _ h => (by cases h), fun h => (by cases h)⟩

/-! ### Locked tokens -/

theorem adjustUnderlying_locked (locked : BalanceData) (unlocked : Option BalanceData)
    (token : Token) : adjustUnderlying (some prices) ((some locked, unlocked), token) =
      ⟨((some (locked.add (token.worth prices)), unlocked), token.valued prices), 0, false⟩ := by
  rw [adjustUnderlying, onField_seq (setTokenPriceAndValue_some prices token) (by rfl),
    addUnderlying, require_seq rfl]
  rfl

theorem adjustUnderlying_unlocked (unlocked : BalanceData) (token : Token) :
    adjustUnderlying (some prices) ((none, some unlocked), token) =
      ⟨((none, some (unlocked.add (token.worth prices))), token.valued prices), 0, false⟩ := by
  rw [adjustUnderlying, onField_seq (setTokenPriceAndValue_some prices token) (by rfl),
    addUnderlying, require_seq rfl]
  rfl

theorem adjustUnderlying_none (token : Token) :
    adjustUnderlying (some prices) ((none, none), token) =
      ⟨((none, none), token.valued prices), 0, true⟩ := by
  rw [adjustUnderlying, onField_seq (setTokenPriceAndValue_some prices token) (by rfl),
    addUnderlying, require_seq_of_false rfl]

/-- The worths of the underlying tokens are added to a balance one after the other. -/
theorem foldl_add (data : BalanceData) {tokens : List Token} (h : tokens ≠ []) :
    tokens.foldl (fun data token => data.add (token.worth prices)) data =
      { data with
        value := .number (data.value.toNumber + (tokens.map (Token.worth prices)).sum) } := by
  induction tokens generalizing data with
  | nil => exact absurd rfl h
  | cons token tokens ih =>
    rw [List.foldl_cons, List.map_cons, List.sum_cons]
    by_cases hnil : tokens = []
    · subst hnil
      rw [List.foldl_nil, BalanceData.add, List.map_nil, List.sum_nil, add_zero]
    · rw [ih _ hnil, BalanceData.add, Field.toNumber, add_assoc]

theorem forEachSharing_locked (locked : BalanceData) (unlocked : Option BalanceData)
    (tokens : List Token) :
    (adjustUnderlying (some prices)).forEachSharing ((some locked, unlocked), tokens) =
      ⟨((some (tokens.foldl (fun data token => data.add (token.worth prices)) locked), unlocked),
        tokens.map (Token.valued prices)), 0, false⟩ := by
  induction tokens generalizing locked with
  | nil =>
    rw [forEachSharing]
    rfl
  | cons token tokens ih =>
    rw [forEachSharing, adjustUnderlying_locked]
    simp [ih]

theorem forEachSharing_unlocked (unlocked : BalanceData) (tokens : List Token) :
    (adjustUnderlying (some prices)).forEachSharing ((none, some unlocked), tokens) =
      ⟨((none, some (tokens.foldl (fun data token => data.add (token.worth prices)) unlocked)),
        tokens.map (Token.valued prices)), 0, false⟩ := by
  induction tokens generalizing unlocked with
  | nil =>
    rw [forEachSharing]
    rfl
  | cons token tokens ih =>
    rw [forEachSharing, adjustUnderlying_unlocked]
    simp [ih]

theorem adjustLockedTokens_some (item : LockedToken) :
    adjustLockedTokens (some prices) item =
      ((adjustUnderlying (some prices)).forEachSharing.onField
        (fun item : LockedToken => ((item.locked, item.unlocked), item.tokens))
        (fun s item => { item with locked := s.1.1, unlocked := s.1.2, tokens := s.2 })).seq
      (.count fun item =>
        toTotal (((item.locked.or item.unlocked).map (·.value.toNumber)).getD .nan))
      { item with
        rewards := item.rewards.map (Token.valued prices)
        locked := item.locked.map fun data =>
          { data with value := .number (item.rewardsWorth prices) } } := by
  have hrewards : (setTokenPriceAndValue (some prices)).optional item.rewards =
      ⟨item.rewards.map (Token.valued prices), 0, false⟩ := by
    cases item.rewards with
    | none => rfl
    | some rewards => rw [Pass.optional, setTokenPriceAndValue_some, Option.map_some]
  rw [adjustLockedTokens, onField_seq hrewards rfl, assign_seq, LockedToken.rewardsWorth]
  cases item.rewards <;> rfl

/-- A locked token without tokens under it has a locked and an unlocked balance. -/
theorem adjustLockedBalances_values {item : LockedToken} (htokens : item.tokens = []) :
    (adjustLockedBalances (some prices)).Values item (item.locked.isSome ∧ item.unlocked.isSome)
      (toTotal (item.contribution prices)) 0 (item.Settled prices) := by
  suffices H : _ ∧ _ ∧ _ ∧ _ from ⟨H.1, H.2.1, H.2.2.1, H.2.2.2⟩
  obtain ⟨⟨address, price⟩, locked, unlocked, totalValue, rewards, tokens⟩ := item
  simp only at htokens
  subst htokens
  rw [adjustLockedBalances, onField_seq (setPrice_some prices _) rfl]
  cases locked with
  | none =>
    rw [require_seq_of_false rfl]
    refine values_of_threw rfl (fun h => by cases h.1) rfl ?_
    simp [LockedToken.Settled, ERC20Token.Priced, eq_comm (a := price)]
  | some locked =>
    obtain ⟨balance, value⟩ := locked
    rw [require_seq rfl, assign_seq]
    cases unlocked with
    | none =>
      rw [require_seq_of_false rfl]
      refine values_of_threw rfl (fun h => by cases h.2) rfl ?_
      simp only [LockedToken.Settled, ERC20Token.Priced, Option.map_some, LockedToken.mk.injEq,
        ERC20Token.mk.injEq, Option.some.injEq, BalanceData.mk.injEq, true_and, and_self, and_true,
        ne_eq, not_true_eq_false, if_false, reduceCtorEq, Option.mem_def, forall_eq',
        IsEmpty.forall_iff, implies_true, eq_comm (a := price), eq_comm (a := value),
        and_congr_right_iff]
      intro hprice
      rw [hprice]
    | some unlocked =>
      obtain ⟨balance', value'⟩ := unlocked
      rw [require_seq rfl, assign_seq]
      refine values_of_done rfl ⟨rfl, rfl⟩ rfl ?_
      simp only [LockedToken.Settled, LockedToken.contribution, ERC20Token.Priced, count_object,
        Option.map_some, Option.getD_some, LockedToken.mk.injEq, ERC20Token.mk.injEq,
        Option.some.injEq, BalanceData.mk.injEq, true_and, and_self, and_true, ne_eq,
        not_true_eq_false, if_false, Option.mem_def, forall_eq', eq_comm (a := price),
        eq_comm (a := value), eq_comm (a := value'), eq_comm (a := totalValue),
        and_congr_right_iff]
      intro hprice
      rw [hprice]
      rfl

/-- The tokens under a locked token are added to a balance, the locked one if there is one. -/
theorem adjustLockedTokens_values {item : LockedToken} (htokens : item.tokens ≠ []) :
    (adjustLockedTokens (some prices)).Values item (item.locked.isSome ∨ item.unlocked.isSome)
      (toTotal (item.contribution prices)) 0 (item.Settled prices) := by
  suffices H : _ ∧ _ ∧ _ ∧ _ from ⟨H.1, H.2.1, H.2.2.1, H.2.2.2⟩
  rw [adjustLockedTokens_some]
  obtain ⟨token, locked, unlocked, totalValue, rewards, tokens⟩ := item
  simp only at htokens
  have hrewards : rewards.map (Token.valued prices) = rewards ↔
      ∀ token ∈ rewards, Token.Valued prices token := by
    cases rewards <;> simp [valued_iff]
  cases locked with
  | some locked =>
    obtain ⟨balance, value⟩ := locked
    rw [onField_seq (forEachSharing_locked prices _ _ _) (by rfl), foldl_add prices _ htokens]
    refine values_of_done rfl (.inl rfl) ?_ ?_
    · rw [LockedToken.contribution, if_pos htokens]
      rfl
    · simp only [LockedToken.Settled, LockedToken.contribution, count_object, LockedToken.mk.injEq,
        Option.some.injEq, BalanceData.mk.injEq, true_and, ne_eq, htokens, not_false_eq_true,
        if_true, map_valued_iff, hrewards, eq_comm (a := value), Field.toNumber]
      exact and_rotate
  | none =>
    cases unlocked with
    | some unlocked =>
      obtain ⟨balance, value⟩ := unlocked
      rw [onField_seq (forEachSharing_unlocked prices _ _) (by rfl), foldl_add prices _ htokens]
      refine values_of_done rfl (.inr rfl) ?_ ?_
      · rw [LockedToken.contribution, if_pos htokens]
        rfl
      · simp only [LockedToken.Settled, LockedToken.contribution, count_object,
          LockedToken.mk.injEq, Option.some.injEq, BalanceData.mk.injEq, true_and, ne_eq, htokens,
          not_false_eq_true, if_true, map_valued_iff, hrewards, eq_comm (a := value)]
        exact and_rotate
    | none =>
      -- the first underlying token is valued, but there is no balance to add it to
      cases tokens with
      | nil => exact absurd rfl htokens
      | cons t tokens =>
        have hfirst : (adjustUnderlying (some prices)).forEachSharing ((none, none), t :: tokens) =
            ⟨((none, none), t.valued prices :: tokens), 0, true⟩ := by
          rw [forEachSharing, adjustUnderlying_none]
          rfl
        rw [onField_seq_of_threw hfirst (by rfl)]
        refine values_of_threw rfl (by simp) rfl ?_
        simp [LockedToken.Settled, hrewards, valued_iff]

theorem adjustLocked_values (item : LockedToken) :
    (adjustLocked (some prices)).Values item item.WellFormed (toTotal (item.contribution prices)) 0
      (item.Settled prices) := by
  rw [LockedToken.WellFormed]
  by_cases htokens : item.tokens = []
  · rw [if_pos htokens]
    exact (adjustLockedBalances_values prices htokens).of_eq (cond_of_false (by simpa using htokens))
  · rw [if_neg htokens]
    exact (adjustLockedTokens_values prices htokens).of_eq (cond_of_true (by simpa using htokens))

end

/-! ## Valuations without prices -/

theorem setPrice_stops : (setPrice none).Stops := stops_throwing

theorem setTokenPriceAndValue_stops : (setTokenPriceAndValue none).Stops :=
  Stops.seq (setPrice_stops.onField fun _ => rfl) _

theorem countToken_stops : (countToken none).Stops := Stops.seq setTokenPriceAndValue_stops _

theorem valueClaimable_stops (value : Field → Claimable → JsNumber) :
    (valueClaimable none value).Stops := Stops.seq (setPrice_stops.onField fun _ => rfl) _

theorem adjustReward_stops : (adjustReward none).Stops := Stops.seq (valueClaimable_stops _) _

theorem adjustClaimable_stops : (adjustClaimable none).Stops := Stops.seq (valueClaimable_stops _) _

theorem adjustStakingReward_stops : (adjustStakingReward none).Stops :=
  Stops.seq (setPrice_stops.onField fun _ => rfl) _

/-- The valuation of a pool looks a price up for a token or a reward. -/
theorem adjustPool_stopsAt {item : LiquidityPoolFeature} (h : item.tokens ≠ [] ∨ item.rewards ≠ []) :
    (adjustPool none).StopsAt item := by
  unfold adjustPool
  by_cases htokens : item.tokens = []
  · have hrewards : item.rewards ≠ [] := h.resolve_left fun hne => hne htokens
    refine StopsAt.after (onField_eq_skip htokens rfl ?_) ?_
    · rw [← htokens]
    · exact StopsAt.onField (adjustReward_stops.forEach hrewards) rfl
  · exact StopsAt.seq (StopsAt.onField (countToken_stops.forEach htokens) rfl) _

theorem adjustStakedToken_stops : (adjustStakedToken none).Stops := by
  intro token
  refine StopsAt.cond (fun htokens => ?_) fun _ => ?_
  · have hne : token.tokens ≠ [] := by simpa using htokens
    exact StopsAt.seq (StopsAt.onField (setTokenPriceAndValue_stops.forEach hne) rfl) _
  · exact StopsAt.seq (StopsAt.onField (setTokenPriceAndValue_stops _) rfl) _

theorem adjustStaking_stops : (adjustStaking none).Stops := by
  intro item
  unfold adjustStaking
  by_cases hrewards : item.rewards = []
  · refine StopsAt.after (onField_eq_skip hrewards rfl ?_) ?_
    · rw [← hrewards]
    · refine StopsAt.cond (fun htokens => ?_) fun _ => StopsAt.cond (fun _ => ?_) fun _ => ?_
      · refine StopsAt.onField (StopsAt.needed fun token htoken => StopsAt.onField ?_ rfl) rfl
        rw [htoken] at htokens
        exact adjustStakedToken_stops.forEach (by simpa using htokens)
      · -- a debt token has no reward to take its value from
        refine StopsAt.require fun hreward => ?_
        rw [hrewards] at hreward
        cases hreward
      · exact StopsAt.onField (StopsAt.needed fun token _ =>
          StopsAt.onField (countToken_stops _) rfl) rfl
  · exact StopsAt.seq (StopsAt.onField (adjustStakingReward_stops.forEach hrewards) rfl) _

theorem adjustLending_stops : (adjustLending none).Stops :=
  Stops.seq (setPrice_stops.needed.onField fun _ => rfl) _

theorem adjustFarmToken_stops : (adjustFarmToken none).Stops := by
  intro token
  refine StopsAt.require fun htokens => StopsAt.cond (fun hne => ?_) fun _ => ?_
  · refine StopsAt.onField (StopsAt.needed fun tokens h => ?_) rfl
    rw [h] at hne
    exact setTokenPriceAndValue_stops.forEach (by simpa using hne)
  · exact StopsAt.onField (setTokenPriceAndValue_stops _) rfl

theorem adjustLeverageFarming_stops : (adjustLeverageFarming none).Stops :=
  Stops.seq (adjustFarmToken_stops.needed.onField fun _ => rfl) _

theorem adjustUnderlying_stops : (adjustUnderlying none).Stops :=
  Stops.seq (setTokenPriceAndValue_stops.onField fun _ => rfl) _

/-- A locked token with underlying tokens and without rewards: its value is reset. -/
def LockedToken.Reset (item : LockedToken) : Prop :=
  item.tokens ≠ [] → item.rewards = none → ∀ locked ∈ item.locked, locked.value = .number 0

theorem adjustLocked_none (item : LockedToken) :
    (adjustLocked none item).threw = true ∧ (adjustLocked none item).added = 0 ∧
      ((adjustLocked none item).object = item ↔ item.Reset) := by
  by_cases htokens : item.tokens = []
  · have hstops : (adjustLocked none).StopsAt item := by
      refine StopsAt.cond (fun hne => absurd htokens (by simpa using hne)) fun _ => ?_
      exact StopsAt.seq (StopsAt.onField (setPrice_stops _) rfl) _
    rw [hstops]
    exact ⟨rfl, rfl, iff_of_true rfl fun hne => absurd htokens hne⟩
  · cases hrewards : item.rewards with
    | none =>
      have hbalance : adjustLocked none item =
          ⟨{ item with locked := item.locked.map fun data => { data with value := .number 0 } },
            0, true⟩ := by
        rw [adjustLocked, cond_of_true (by simpa using htokens), adjustLockedTokens,
          seq_of_silent (onField_eq_skip hrewards rfl (by rw [← hrewards])), assign_seq, hrewards]
        refine StopsAt.seq (StopsAt.onField ?_ (by rfl)) _
        exact adjustUnderlying_stops.forEachSharing _ htokens
      rw [hbalance]
      obtain ⟨token, locked, unlocked, totalValue, rewards, tokens⟩ := item
      simp only at htokens hrewards
      cases locked with
      | none => simp [LockedToken.Reset]
      | some locked =>
        obtain ⟨balance, value⟩ := locked
        simp [LockedToken.Reset, htokens, hrewards, eq_comm (a := value)]
    | some token =>
      have hstops : (adjustLocked none).StopsAt item := by
        refine StopsAt.cond (fun _ => StopsAt.seq (StopsAt.onField ?_ rfl) _) fun hnil =>
          absurd (by simpa using hnil) htokens
        rw [hrewards]
        exact (setTokenPriceAndValue_stops token).optional
      rw [hstops]
      refine ⟨rfl, rfl, iff_of_true rfl fun _ hnone => ?_⟩
      rw [hrewards] at hnone
      cases hnone

theorem adjustMint_stops : (adjustMint none).Stops :=
  Stops.seq (setTokenPriceAndValue_stops.needed.onField fun _ => rfl) _

theorem adjustShortFarm_stops : (adjustShortFarm none).Stops :=
  Stops.seq (setTokenPriceAndValue_stops.needed.onField fun _ => rfl) _

theorem adjustAirdrop_stops : (adjustAirdrop none).Stops := countToken_stops.needed.onField fun _ => rfl

end PriceAdjustment
end Integration
end DefiBackend
