import DefiBackend.Common.JsMap
import DefiBackend.Common.JsNumber
import DefiBackend.Theory.Visits
import Mathlib.Algebra.Group.Prod

/-! # The adjustment of prices

`adjustPrices` of `protocol.service.ts`: the addresses of the tokens of all entries are collected,
the prices of each chain are requested, and every entry is valued item by item. An exception ends
the valuation of its entry and is only logged.

The nine kinds of entries are those that the code tells apart by `instanceof`. The items have the
fields that the valuation reads or writes; an object that a position may lack is an `Option`, and a
list that it may lack is empty. No object stands in two places. Numbers that come as text are read
as numbers. -/

namespace DefiBackend
namespace Integration
namespace PriceAdjustment
open Theory

abbrev ChainId := Nat
abbrev Address := String

/-! ## Numbers and their sums -/

instance : AddMonoid JsNumber where
  zero := 0
  add_assoc a b c := by
    change (a.add b).add c = a.add (b.add c)
    rcases a with a | (_ | _) | _ <;> rcases b with b | (_ | _) | _ <;>
      rcases c with c | (_ | _) | _ <;> simp [JsNumber.add, add_assoc]
  zero_add a := by
    change (JsNumber.finite 0).add a = a
    cases a <;> simp [JsNumber.add]
  add_zero a := by
    change a.add (.finite 0) = a
    cases a <;> simp [JsNumber.add]
  nsmul := nsmulRec

/-- A field that holds a number, or none. -/
inductive Field
  | undefined
  | null
  | number (n : JsNumber)
  deriving DecidableEq

namespace Field

/-- The number in an arithmetical operation, and `Number(field)`. -/
def toNumber : Field → JsNumber
  | undefined => .nan
  | null => 0
  | number n => n

/-- `a ?? b`. -/
def orElse : Field → Field → Field
  | number n, _ => number n
  | _, b => b

/-- The field counts as true. -/
def truthy : Field → Bool
  | number n => !n.falsy
  | _ => false

end Field

/-! ## Tokens -/

structure ERC20Token where
  address : Address
  price : Field
  deriving DecidableEq

/-- A token with a balance: `PoolTokenDto`, `IntegrationERC20TokenDto` and their like. -/
structure Token extends ERC20Token where
  balance : Field
  value : Field
  deriving DecidableEq

/-- `ClaimableDto`; a locked balance is there if it counts as true. -/
structure Claimable where
  balance : Field
  value : Field
  lockedBalance : Option JsNumber
  lockedValue : Field
  deriving DecidableEq

/-- `IntegrationClaimableTokenDto`. -/
structure ClaimableToken extends ERC20Token where
  claimableData : Option Claimable
  deriving DecidableEq

/-- A token of `stakingToken`, with underlying tokens for an `UnderlyingStakingLp`. -/
structure StakedToken extends Token where
  tokens : List Token
  deriving DecidableEq

/-- `stakingToken` of a staking position. -/
structure StakingToken extends Token where
  tokens : List StakedToken
  deriving DecidableEq

/-- `LeverageErcToken`. -/
structure FarmToken extends Token where
  tokens : Option (List Token)
  deriving DecidableEq

/-- `BalanceData`. -/
structure BalanceData where
  balance : Field
  value : Field
  deriving DecidableEq

/-! ## Items -/

structure LiquidityPoolFeature where
  tokens : List Token
  rewards : List ClaimableToken
  deriving DecidableEq

structure StakingPosition where
  stakingToken : Option StakingToken
  rewards : List ClaimableToken
  deriving DecidableEq

structure LendingPosition where
  token : Option ERC20Token
  balance : Field
  value : Field
  deriving DecidableEq

structure LeverageFarmingPosition where
  farmToken : Option FarmToken
  borrowToken : Option Token
  earned : Field
  debtRatio : Field
  deriving DecidableEq

/-- `LockedToken`. -/
structure LockedToken extends ERC20Token where
  locked : Option BalanceData
  unlocked : Option BalanceData
  totalValue : Field
  rewards : Option Token
  tokens : List Token
  deriving DecidableEq

structure MintPosition where
  mintedToken : Option Token
  collateral : Option Token
  deriving DecidableEq

structure ShortFarmPosition where
  stakingToken : Option Token
  locked : Option Token
  rewards : List ClaimableToken
  deriving DecidableEq

structure AirdropPosition where
  token : Option Token
  deriving DecidableEq

/-- The items of an entry, by the class of the entry. -/
inductive Items
  | lp (items : List LiquidityPoolFeature)
  | claimable (items : List ClaimableToken)
  | staking (items : List StakingPosition)
  | lending (items : List LendingPosition)
  | leverageFarming (items : List LeverageFarmingPosition)
  | locked (items : List LockedToken)
  | mint (items : List MintPosition)
  | shortFarm (items : List ShortFarmPosition)
  | airdrop (items : List AirdropPosition)
  deriving DecidableEq

structure BaseData where
  chain : ChainId
  total : Field
  locked : Field
  items : Items
  deriving DecidableEq

/-! ## The addresses -/

/-- The objects of an item that go to `setChainAsset` one after the other, nothing for one that is
not there. -/
def LiquidityPoolFeature.assets (item : LiquidityPoolFeature) : List (Option ERC20Token) :=
  item.tokens.map (some ·.toERC20Token) ++ item.rewards.map (some ·.toERC20Token)

def ClaimableToken.assets (item : ClaimableToken) : List (Option ERC20Token) :=
  [some item.toERC20Token]

def StakedToken.assets (token : StakedToken) : List (Option ERC20Token) :=
  if token.tokens = [] then [some token.toERC20Token] else token.tokens.map (some ·.toERC20Token)

def StakingPosition.assets (item : StakingPosition) : List (Option ERC20Token) :=
  match item.stakingToken with
  | none => [none]
  | some token =>
    (if token.tokens = [] then [some token.toERC20Token] else token.tokens.flatMap StakedToken.assets)
      ++ item.rewards.map (some ·.toERC20Token)

def LendingPosition.assets (item : LendingPosition) : List (Option ERC20Token) := [item.token]

def LeverageFarmingPosition.assets (item : LeverageFarmingPosition) : List (Option ERC20Token) :=
  match item.farmToken with
  | none => [none]
  | some token =>
    match token.tokens with
    | none => [none]
    | some [] => [some token.toERC20Token, item.borrowToken.map (·.toERC20Token)]
    | some tokens => tokens.map (some ·.toERC20Token) ++ [item.borrowToken.map (·.toERC20Token)]

def LockedToken.assets (item : LockedToken) : List (Option ERC20Token) :=
  if item.tokens = [] then [some item.toERC20Token]
  else item.tokens.map (some ·.toERC20Token) ++ item.rewards.toList.map (some ·.toERC20Token)

def MintPosition.assets (item : MintPosition) : List (Option ERC20Token) :=
  [item.mintedToken.map (·.toERC20Token), item.collateral.map (·.toERC20Token)]

def ShortFarmPosition.assets (item : ShortFarmPosition) : List (Option ERC20Token) :=
  [item.locked.map (·.toERC20Token), item.stakingToken.map (·.toERC20Token),
    item.rewards.head?.map (·.toERC20Token)]

def AirdropPosition.assets (item : AirdropPosition) : List (Option ERC20Token) :=
  [item.token.map (·.toERC20Token)]

def Items.assets : Items → List (Option ERC20Token)
  | lp items => items.flatMap LiquidityPoolFeature.assets
  | claimable items => items.flatMap ClaimableToken.assets
  | staking items => items.flatMap StakingPosition.assets
  | lending items => items.flatMap LendingPosition.assets
  | leverageFarming items => items.flatMap LeverageFarmingPosition.assets
  | locked items => items.flatMap LockedToken.assets
  | mint items => items.flatMap MintPosition.assets
  | shortFarm items => items.flatMap ShortFarmPosition.assets
  | airdrop items => items.flatMap AirdropPosition.assets

/-- The addresses up to the first object that is not there. -/
def Items.collected (items : Items) : List Address :=
  (items.assets.takeWhile Option.isSome).filterMap (Option.map (·.address))

abbrev ChainAssets := JsMap ChainId (List Address)

/-- The callback of the first `data.forEach`. -/
def collectAssets (state : ChainAssets × List String) (baseData : BaseData) :
    ChainAssets × List String :=
  let known := (state.1.get baseData.chain).getD []
  (state.1.set baseData.chain (baseData.items.collected.foldl addToSet known),
    if baseData.items.assets.all Option.isSome then state.2
    else state.2 ++ [s!"Failed collecting assets for chain {baseData.chain}"])

/-! ## The prices -/

/-- `PriceResponseDto`, with what is made of the prices: nothing for one that counts as false. -/
structure PriceResponse where
  chain : ChainId
  prices : JsMap Address (Option JsNumber)

/-- The prices of a chain. -/
abbrev Prices := JsMap Address (Option JsNumber)

/-- `getTokenPricesFetch`: nothing if the request is rejected. -/
abbrev PriceService := List Address → ChainId → Option PriceResponse

def chainAssetPrices (getTokenPricesFetch : PriceService) (chainAssets : ChainAssets) :
    JsMap ChainId Prices :=
  .ofEntries ((chainAssets.filterMap fun e => getTokenPricesFetch e.2 e.1).map fun response =>
    (response.chain, response.prices))

/-! ## The valuation

A pass adds to `baseData.total` and to `baseData.locked`. The prices are absent when the map has
none for the chain of the entry; then `chainAssetPrices.get(baseData.chain.id).get` throws. -/

abbrev Counted := JsNumber × JsNumber

/-- What is added to the total alone. -/
def toTotal (n : JsNumber) : Counted := (n, 0)

/-- `token.price = chainAssetPrices.get(chainId).get(token.address) ?? token.price`. -/
def setPrice : Option Prices → Pass Counted ERC20Token
  | none => .throwing
  | some prices => .assign fun token =>
    { token with price := ((prices.get token.address).join.map .number).getD token.price }

def setTokenPriceAndValue (prices : Option Prices) : Pass Counted Token :=
  ((setPrice prices).onField (·.toERC20Token) fun t token => { token with toERC20Token := t }).seq <|
  .assign fun token =>
    { token with value := .number (token.balance.toNumber * (token.price.orElse (.number 0)).toNumber) }

/-- A token that is valued and counted. -/
def countToken (prices : Option Prices) : Pass Counted Token :=
  (setTokenPriceAndValue prices).seq <| .count fun token => toTotal token.value.toNumber

/-- A claimable token; its value is made of its price and its claimable balance. -/
def valueClaimable (prices : Option Prices) (value : Field → Claimable → JsNumber) :
    Pass Counted ClaimableToken :=
  ((setPrice prices).onField (·.toERC20Token) fun t token => { token with toERC20Token := t }).seq <|
  (Pass.require (·.claimableData.isSome)).seq <|
  .assign fun token =>
    { token with
      claimableData := token.claimableData.map fun data =>
        { data with value := .number (value token.price data) } }

def ClaimableToken.claimableValue (token : ClaimableToken) : JsNumber :=
  (token.claimableData.map (·.value.toNumber)).getD .nan

def adjustReward (prices : Option Prices) : Pass Counted ClaimableToken :=
  (valueClaimable prices fun price data => data.balance.toNumber * price.toNumber).seq <|
  .count fun reward => toTotal reward.claimableValue

def adjustPool (prices : Option Prices) : Pass Counted LiquidityPoolFeature :=
  (((countToken prices).forEach).onField (·.tokens) fun ts item => { item with tokens := ts }).seq <|
  ((adjustReward prices).forEach).onField (·.rewards) fun ts item => { item with rewards := ts }

def adjustClaimable (prices : Option Prices) : Pass Counted ClaimableToken :=
  (valueClaimable prices fun price data => price.toNumber * data.balance.toNumber).seq <|
  .count fun token => toTotal token.claimableValue

/-- A reward of a staking position keeps a value that it has, and may have a locked balance. -/
def adjustStakingReward (prices : Option Prices) : Pass Counted ClaimableToken :=
  ((setPrice prices).onField (·.toERC20Token) fun t token => { token with toERC20Token := t }).seq <|
  (Pass.require (·.claimableData.isSome)).seq <|
  (Pass.assign fun reward =>
    { reward with
      claimableData := reward.claimableData.map fun data =>
        { data with
          value := data.value.orElse (.number (data.balance.toNumber * reward.price.toNumber))
          lockedValue := (data.lockedBalance.map fun balance =>
            Field.number (balance * reward.price.toNumber)).getD data.lockedValue } }).seq <|
  .count fun reward =>
    (reward.claimableValue, (reward.claimableData.map fun data =>
      if data.lockedBalance.isSome then data.lockedValue.toNumber else 0).getD 0)

def underlyingStakingTokensHandling (prices : Option Prices) : Pass Counted StakedToken :=
  (((setTokenPriceAndValue prices).forEach).onField (·.tokens) fun ts token =>
    { token with tokens := ts }).seq <|
  (Pass.assign fun poolToken =>
    let derivedLpValue := poolToken.tokens.foldl (fun sum token => sum + token.value.toNumber) 0
    { poolToken with
      value := .number (if poolToken.price.truthy
        then poolToken.balance.toNumber * poolToken.price.toNumber else derivedLpValue) }).seq <|
  (Pass.count fun poolToken => toTotal poolToken.value.toNumber).seq <|
  .assign fun poolToken => { poolToken with tokens := [] }

def adjustStakedToken (prices : Option Prices) : Pass Counted StakedToken :=
  .cond (·.tokens ≠ []) (underlyingStakingTokensHandling prices) <|
  ((setTokenPriceAndValue prices).onField (·.toToken) fun t token => { token with toToken := t }).seq <|
  .count fun poolToken => toTotal poolToken.value.toNumber.orZero

def alpacaDebtTokens : List Address :=
  ["0xd19d6253d979ccf663869fee30b8e0ac86029ebd", "0x6a3487ce84fd83c66b83e598b18412bd1d2a55f9",
   "0x02da7035bed00ae645516bdb0c282a7fd4aa7442", "0x92110af24d280e412b3a89691f6b0b9e09258fe6",
   "0x11362ea137a799298306123eea014b7809a9db40", "0xbde156e6a814f7a56d3e389e681088649d24a07c",
   "0x3b4fbb2b8536ab144048abafdd27eaf52f0fa4dc", "0x262de19b5fde97ed5bdba10d630e34fb9a1b59b2",
   "0xb76ed435b93477511e4604c441550a23d5aeaf84", "0x5138133f0671071d8b8f1c4c180881bfcfe22cec"]

/-- `stakingToken.value = rewards[0].claimableData.value`. -/
def valueDebtToken : Pass Counted StakingPosition :=
  (Pass.require fun position => (position.rewards.head?.bind (·.claimableData)).isSome).seq <|
  .assign fun position =>
    { position with
      stakingToken := position.stakingToken.map fun token =>
        { token with
          value := ((position.rewards.head?.bind (·.claimableData)).map (·.value)).getD token.value } }

/-- A pass over the staking token of a position. -/
def onStakingToken (p : Pass Counted StakingToken) : Pass Counted StakingPosition :=
  p.needed.onField (·.stakingToken) fun t position => { position with stakingToken := t }

def adjustStaking (prices : Option Prices) : Pass Counted StakingPosition :=
  (((adjustStakingReward prices).forEach).onField (·.rewards) fun ts position =>
    { position with rewards := ts }).seq <|
  .cond (fun position => position.stakingToken.any fun token => token.tokens ≠ [])
    (onStakingToken <| ((adjustStakedToken prices).forEach).onField (·.tokens) fun ts token =>
      { token with tokens := ts }) <|
  .cond (fun position => position.stakingToken.any fun token => token.address ∈ alpacaDebtTokens)
    valueDebtToken <|
  onStakingToken <| (countToken prices).onField (·.toToken) fun t token => { token with toToken := t }

def adjustLending (prices : Option Prices) : Pass Counted LendingPosition :=
  ((setPrice prices).needed.onField (·.token) fun t position => { position with token := t }).seq <|
  (Pass.assign fun position =>
    { position with
      value := .number (position.balance.toNumber *
        (position.token.map (·.price.toNumber)).getD .nan) }).seq <|
  .count fun position => toTotal position.value.toNumber

/-- `leverageTotal`. -/
def FarmToken.leverageTotal (token : FarmToken) : JsNumber :=
  match token.tokens with
  | none | some [] => 0 + token.value.toNumber
  | some tokens => tokens.foldl (fun total poolToken => total + poolToken.value.toNumber) 0

def adjustFarmToken (prices : Option Prices) : Pass Counted FarmToken :=
  (Pass.require (·.tokens.isSome)).seq <|
  .cond (fun token => token.tokens ≠ some [])
    (((setTokenPriceAndValue prices).forEach.needed).onField (·.tokens) fun ts token =>
      { token with tokens := ts })
    ((setTokenPriceAndValue prices).onField (·.toToken) fun t token => { token with toToken := t })

def adjustLeverageFarming (prices : Option Prices) : Pass Counted LeverageFarmingPosition :=
  ((adjustFarmToken prices).needed.onField (·.farmToken) fun t position =>
    { position with farmToken := t }).seq <|
  ((setTokenPriceAndValue prices).needed.onField (·.borrowToken) fun t position =>
    { position with borrowToken := t }).seq <|
  (Pass.assign fun position =>
    let leverageTotal := (position.farmToken.map FarmToken.leverageTotal).getD .nan
    let borrowed := (position.borrowToken.map (·.value.toNumber)).getD .nan
    { position with
      earned := .number (leverageTotal - borrowed)
      debtRatio := .number (borrowed / leverageTotal * 100) }).seq <|
  .count fun position => toTotal position.earned.toNumber

/-- The balances of a locked token. -/
abbrev Balances := Option BalanceData × Option BalanceData

def BalanceData.add (data : BalanceData) (n : JsNumber) : BalanceData :=
  { data with value := .number (data.value.toNumber + n) }

/-- `item.locked ? item.locked.value += value : item.unlocked.value += value`. -/
def addUnderlying : Pass Counted (Balances × Token) :=
  (Pass.require fun s => s.1.1.isSome || s.1.2.isSome).seq <|
  .assign fun s =>
    match s with
    | ((some locked, unlocked), token) => ((some (locked.add token.value.toNumber), unlocked), token)
    | ((none, unlocked), token) => ((none, unlocked.map (·.add token.value.toNumber)), token)

def adjustUnderlying (prices : Option Prices) : Pass Counted (Balances × Token) :=
  ((setTokenPriceAndValue prices).onField Prod.snd fun t s => (s.1, t)).seq addUnderlying

/-- A locked token with underlying tokens. -/
def adjustLockedTokens (prices : Option Prices) : Pass Counted LockedToken :=
  ((setTokenPriceAndValue prices).optional.onField (·.rewards) fun t item =>
    { item with rewards := t }).seq <|
  (Pass.assign fun item =>
    { item with
      locked := item.locked.map fun data =>
        { data with
          value := .number ((item.rewards.map (·.value.toNumber.orZero)).getD 0) } }).seq <|
  ((adjustUnderlying prices).forEachSharing.onField (fun item => ((item.locked, item.unlocked), item.tokens))
    fun s item => { item with locked := s.1.1, unlocked := s.1.2, tokens := s.2 }).seq <|
  .count fun item => toTotal (((item.locked.or item.unlocked).map (·.value.toNumber)).getD .nan)

def adjustLockedBalances (prices : Option Prices) : Pass Counted LockedToken :=
  ((setPrice prices).onField (·.toERC20Token) fun t item => { item with toERC20Token := t }).seq <|
  (Pass.require (·.locked.isSome)).seq <|
  (Pass.assign fun item =>
    { item with
      locked := item.locked.map fun data =>
        { data with value := .number (item.price.toNumber * data.balance.toNumber) } }).seq <|
  (Pass.require (·.unlocked.isSome)).seq <|
  (Pass.assign fun item =>
    let unlocked := item.unlocked.map fun data =>
      { data with value := .number (item.price.toNumber * data.balance.toNumber) }
    { item with
      unlocked
      totalValue := .number ((item.locked.map (·.value.toNumber)).getD .nan +
        (unlocked.map (·.value.toNumber)).getD .nan) }).seq <|
  .count fun item => toTotal item.totalValue.toNumber

def adjustLocked (prices : Option Prices) : Pass Counted LockedToken :=
  .cond (·.tokens ≠ []) (adjustLockedTokens prices) (adjustLockedBalances prices)

def adjustMint (prices : Option Prices) : Pass Counted MintPosition :=
  ((setTokenPriceAndValue prices).needed.onField (·.mintedToken) fun t item =>
    { item with mintedToken := t }).seq <|
  ((setTokenPriceAndValue prices).needed.onField (·.collateral) fun t item =>
    { item with collateral := t }).seq <|
  .count fun item => toTotal ((item.collateral.map (·.value.toNumber)).getD .nan -
    (item.mintedToken.map (·.value.toNumber)).getD .nan)

def adjustShortFarm (prices : Option Prices) : Pass Counted ShortFarmPosition :=
  ((setTokenPriceAndValue prices).needed.onField (·.stakingToken) fun t item =>
    { item with stakingToken := t }).seq <|
  ((setTokenPriceAndValue prices).needed.onField (·.locked) fun t item =>
    { item with locked := t }).seq <|
  ((valueClaimable prices fun price data => data.balance.toNumber * price.toNumber).onHead.onField
    (·.rewards) fun ts item => { item with rewards := ts }).seq <|
  .count fun item => toTotal (((item.rewards.head?.map ClaimableToken.claimableValue).getD .nan).orZero +
    (item.locked.map (·.value.toNumber)).getD .nan)

def adjustAirdrop (prices : Option Prices) : Pass Counted AirdropPosition :=
  (countToken prices).needed.onField (·.token) fun t item => { item with token := t }

/-- The loops over the items. -/
def Items.adjust (prices : Option Prices) : Items → Visit Counted Items
  | lp items => ((adjustPool prices).forEach).onField (fun _ => items) (fun items _ => lp items) (lp items)
  | claimable items =>
    ((adjustClaimable prices).forEach).onField (fun _ => items) (fun items _ => claimable items)
      (claimable items)
  | staking items =>
    ((adjustStaking prices).forEach).onField (fun _ => items) (fun items _ => staking items)
      (staking items)
  | lending items =>
    ((adjustLending prices).forEach).onField (fun _ => items) (fun items _ => lending items)
      (lending items)
  | leverageFarming items =>
    ((adjustLeverageFarming prices).forEach).onField (fun _ => items)
      (fun items _ => leverageFarming items) (leverageFarming items)
  | locked items =>
    ((adjustLocked prices).forEach).onField (fun _ => items) (fun items _ => locked items)
      (locked items)
  | mint items =>
    ((adjustMint prices).forEach).onField (fun _ => items) (fun items _ => mint items) (mint items)
  | shortFarm items =>
    ((adjustShortFarm prices).forEach).onField (fun _ => items) (fun items _ => shortFarm items)
      (shortFarm items)
  | airdrop items =>
    ((adjustAirdrop prices).forEach).onField (fun _ => items) (fun items _ => airdrop items)
      (airdrop items)

/-- The valuation of an entry, and whether it has thrown: what has been counted till then stays. -/
def BaseData.adjust (prices : Option Prices) (baseData : BaseData) : BaseData × Bool :=
  let visit := baseData.items.adjust prices
  ({ baseData with
      total := .number visit.added.1
      locked :=
        match baseData.items with
        | .staking _ => .number visit.added.2
        | _ => baseData.locked
      items := visit.object }, visit.threw)

/-- The prices that the valuation finds, by their chain. -/
def fetched (getTokenPricesFetch : PriceService) (data : List BaseData) : JsMap ChainId Prices :=
  chainAssetPrices getTokenPricesFetch (data.foldl collectAssets ([], [])).1

def adjustPrices (getTokenPricesFetch : PriceService) (data : List BaseData) (errors : List String) :
    List BaseData × List String :=
  let prices := fetched getTokenPricesFetch data
  let adjusted := data.map fun baseData => baseData.adjust (prices.get baseData.chain)
  (adjusted.map Prod.fst,
    (data.foldl collectAssets ([], errors)).2 ++
      (adjusted.filter Prod.snd).map fun _ => "Failed calculating price")

end PriceAdjustment
end Integration
end DefiBackend
