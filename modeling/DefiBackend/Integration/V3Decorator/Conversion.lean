import DefiBackend.Common.Collections
import DefiBackend.Integration.Support.Opportunity
import DefiBackend.Theory.Fallible
import Mathlib.Logic.Function.Basic

/-! # From the answer of a platform to a response of the second version

`IntegrationsServiceV3Decorator.toV2Response`. A platform answers with the positions of each wallet
on each chain, by feature; the response of the second version has for each feature the items and
their `totalValue`, and one total for all of it. Values are exact decimals.

* `stakingToV2`, `lockedBalanceToV2`, `liquidityToV2`, `claimableToV2`, `delegationToV2` and
  `lendingToV2` convert a position; they throw where the code reads a property of `undefined`.
* `toV2Chain` does the features of one chain, one block of the code after the other, and passes the
  total on.
* `toV2Response` does all wallets.

Of the items, the texts made of their numbers (`staked`, the pool number) are left out. -/

namespace DefiBackend
namespace Integration
namespace V3Decorator

/-! ## What platforms answer -/

/-- The features of the framework. -/
inductive PlatformFeature
  | pools
  | staking
  | claimable
  | lending
  | delegation
  deriving DecidableEq

/-- A token, as the asset service assembles it. -/
structure AssembledAsset where
  address : String
  name : String
  symbol : String
  decimals : Nat
  price : JsNumber
  deriving DecidableEq

/-- A token inside a token. -/
structure UnderlyingAsset extends AssembledAsset where
  reserve : JsNumber
  value : JsNumber
  balance : Option JsNumber
  amount : Option JsNumber
  position : Option Nat
  deriving DecidableEq

structure PositionToken extends AssembledAsset where
  underlying : List UnderlyingAsset
  deriving DecidableEq

/-- `apy` of a token of a lending position. -/
structure Apy where
  year : Option JsNumber
  supplyApy : Option JsNumber
  borrowApy : Option JsNumber
  stableApy : Option JsNumber
  variableApy : Option JsNumber
  deriving DecidableEq

/-- A supplied, rewarded or borrowed token of a position. Each stands in a place of its own in the
answer. -/
structure UserToken where
  place : Nat
  token : PositionToken
  amount : ℚ
  value : ℚ
  tvl : JsNumber
  unlockTime : Option ℚ
  /-- `apr?.year` -/
  apr : Option JsNumber
  apy : Option Apy
  isCollateral : Bool
  healthFactor : Option JsNumber
  deriving DecidableEq

/-- The token that a position itself is. -/
structure ReceiptToken extends AssembledAsset where
  amount : JsNumber
  totalSupply : JsNumber
  deriving DecidableEq

/-- A position. Its lists of tokens may be missing. -/
structure WalletUserEntry where
  id : String
  token : Option ReceiptToken
  supplied : Option (List UserToken)
  rewarded : Option (List UserToken)
  borrowed : Option (List UserToken)
  /-- `meta`: a validator. -/
  «meta» : Option String
  debtRatio : Option ℚ
  deriving DecidableEq

/-- Positions by feature; the conversion reads those of five features and no others. -/
structure Positions where
  staking : Option (List WalletUserEntry)
  pools : Option (List WalletUserEntry)
  claimable : Option (List WalletUserEntry)
  delegation : Option (List WalletUserEntry)
  lending : Option (List WalletUserEntry)
  others : List WalletUserEntry
  deriving DecidableEq

structure ChainDto where
  id : ChainId
  name : String
  abbr : String
  deriving DecidableEq

structure ChainUserEntry where
  positions : Positions
  features : List PlatformFeature
  chain : ChainDto
  deriving DecidableEq

structure PlatformUserEntry where
  address : String
  chains : List ChainUserEntry
  deriving DecidableEq

/-- `IPlatformMeta`: the name, and the chains of the features. -/
structure PlatformMeta where
  name : String
  features : List ChainDto
  deriving DecidableEq

/-- All tokens of a position. -/
def WalletUserEntry.tokens (p : WalletUserEntry) : List UserToken :=
  p.supplied.getD [] ++ p.rewarded.getD [] ++ p.borrowed.getD []

def Positions.all (ps : Positions) : List WalletUserEntry :=
  ps.staking.getD [] ++ ps.pools.getD [] ++ ps.claimable.getD [] ++ ps.delegation.getD [] ++
    ps.lending.getD [] ++ ps.others

def ChainUserEntry.tokens (c : ChainUserEntry) : List UserToken :=
  c.positions.all.flatMap WalletUserEntry.tokens

def PlatformUserEntry.tokens (w : PlatformUserEntry) : List UserToken :=
  w.chains.flatMap ChainUserEntry.tokens

/-- `IUserEntryResponse`. No two of its tokens stand in the same place. -/
structure UserEntryResponse where
  errors : List String
  protocol : PlatformMeta
  wallets : List PlatformUserEntry
  places : ((wallets.flatMap PlatformUserEntry.tokens).map UserToken.place).Nodup

def UserEntryResponse.tokens (r : UserEntryResponse) : List UserToken :=
  r.wallets.flatMap PlatformUserEntry.tokens

/-! ## Responses of the second version -/

/-- The features of responses. -/
inductive FeatureEnum
  | pools
  | staking
  | farming
  | claimable
  | lending
  | borrowing
  | transactions
  | lockedBalances
  | health
  | collateral
  | delegation
  deriving DecidableEq

def FeatureEnum.all : List FeatureEnum :=
  [pools, staking, farming, claimable, lending, borrowing, transactions, lockedBalances, health,
    collateral, delegation]

/-- The two enumerations have the same texts. -/
def PlatformFeature.toV2 : PlatformFeature → FeatureEnum
  | pools => .pools
  | staking => .staking
  | claimable => .claimable
  | lending => .lending
  | delegation => .delegation

structure ClaimableData where
  balance : ℚ
  value : ℚ
  deriving DecidableEq

/-- `IntegrationClaimableTokenDto` -/
structure ClaimableToken where
  token : AssembledAsset
  claimableData : ClaimableData
  apr : Option JsNumber
  deriving DecidableEq

/-- A token of `IntegrationERC20TokenDto`'s `tokens`. -/
structure StakingLpToken where
  token : AssembledAsset
  reserve : JsNumber
  value : JsNumber
  balance : Option JsNumber
  positionInPool : Option Nat
  deriving DecidableEq

/-- `IntegrationERC20TokenDto` -/
structure StakingToken where
  token : AssembledAsset
  value : ℚ
  balance : ℚ
  tokens : List StakingLpToken
  unlockTime : Option ℚ
  deriving DecidableEq

/-- `IntegrationStakingPositionDto` -/
structure StakingPosition where
  address : String
  tvl : JsNumber
  poolApy : JsNumber
  stakingToken : StakingToken
  rewards : List ClaimableToken
  deriving DecidableEq

/-- `IntegrationLockedBalanceTokenDto` -/
structure LockedBalance where
  token : AssembledAsset
  unlockTime : Option ℚ
  balance : ℚ
  value : ℚ
  totalBalance : ℚ
  totalValue : ℚ
  deriving DecidableEq

structure PoolToken where
  token : AssembledAsset
  value : ℚ
  balance : ℚ
  deriving DecidableEq

/-- `LiquidityPoolFeature` -/
structure LiquidityPool where
  address : String
  lpToken : Option ReceiptToken
  tokens : List PoolToken
  tvl : JsNumber
  share : JsNumber
  rewards : Option (List ClaimableToken)
  deriving DecidableEq

structure Delegation where
  validator : String
  stakingToken : StakingToken
  rewards : List ClaimableToken
  deriving DecidableEq

/-- `LendingPositionDto` -/
structure LendingPosition where
  address : String
  balance : ℚ
  value : ℚ
  apy : Option JsNumber
  token : AssembledAsset
  isCollateral : Bool
  healthFactor : Option JsNumber
  deriving DecidableEq

inductive Item
  | staking (item : StakingPosition)
  | locked (item : LockedBalance)
  | pool (item : LiquidityPool)
  | claimable (item : ClaimableToken)
  | delegation (item : Delegation)
  | lending (item : LendingPosition)
  | health (healthFactor : ℚ)
  deriving DecidableEq

structure FeatureResult where
  totalValue : ℚ
  items : List Item
  deriving DecidableEq

/-- `IntChainsDataDto`: the features it lists, and the results it has. -/
structure IntChainsData where
  chain : ChainDto
  features : List FeatureEnum
  results : FeatureEnum → Option FeatureResult

structure IntegrationWallet where
  address : String
  chains : List IntChainsData

structure ProtocolInfo where
  name : String
  project : String
  label : String
  chains : List String
  deriving DecidableEq

/-- `IntegrationsResponseV2Dto` -/
structure IntegrationsResponseV2 where
  errors : List String
  protocol : ProtocolInfo
  wallets : List IntegrationWallet
  total : ℚ

/-! ## Positions -/

/-- `[]` of an array that may be missing, and a property of what is found. -/
def first (property : String) (tokens : Option (List UserToken)) : Except Exception UserToken := do
  deref property (← deref "0" tokens).head?

/-- The rewards of a staking position or a pool. -/
def rewardToV2 (reward : UserToken) : ClaimableToken where
  token := reward.token.toAssembledAsset
  claimableData := ⟨reward.amount, reward.value⟩
  apr := some (reward.apr.elim .nan (· * 100))

/-- A token of the token that is staked. -/
def underlyingToV2 (u : UnderlyingAsset) : StakingLpToken where
  token := u.toAssembledAsset
  reserve := u.reserve
  value := u.value
  balance := if u.balance.all JsNumber.falsy then u.amount else u.balance
  positionInPool := u.position

def poolApy (rewarded : Option (List UserToken)) : JsNumber :=
  match rewarded with
  | some rewarded =>
    rewarded.foldl (fun total reward => reward.apr.elim 0 JsNumber.orZero + total) 0 * 100
  | none => 0

def stakingToV2 (item : WalletUserEntry) : Except Exception StakingPosition := do
  let lpToken ← first "tvl" item.supplied
  return {
    address := ((item.id.splitOn "::").headD "").toLower
    tvl := lpToken.tvl
    poolApy := poolApy item.rewarded
    stakingToken := {
      token := lpToken.token.toAssembledAsset
      value := lpToken.value
      balance := lpToken.amount
      tokens := lpToken.token.underlying.map underlyingToV2
      unlockTime := lpToken.unlockTime }
    rewards := (item.rewarded.getD []).map rewardToV2 }

def lockedBalanceToV2 (item : WalletUserEntry) : Except Exception LockedBalance := do
  let supplied ← first "token" item.supplied
  return {
    token := supplied.token.toAssembledAsset
    unlockTime := supplied.unlockTime
    balance := supplied.amount
    value := supplied.value
    totalBalance := supplied.amount
    totalValue := supplied.value }

def liquidityToV2 (liquidity : WalletUserEntry) : Except Exception LiquidityPool := do
  let supplied ← deref "map" liquidity.supplied
  let tokens := supplied.map fun t => PoolToken.mk t.token.toAssembledAsset t.value t.amount
  let tvl := supplied.foldl (fun p c => p + c.tvl) 0
  return {
    address := liquidity.id
    lpToken := liquidity.token
    tokens
    tvl
    share := match liquidity.token with
      | some token => token.amount / token.totalSupply
      | none => JsNumber.finite (tokens.foldl (fun _ token => token.value) 0) / tvl
    rewards := liquidity.rewarded.map (·.map rewardToV2) }

/-- The first supplied token, or else the first rewarded one. -/
def claimableToV2 (claimable : WalletUserEntry) : Except Exception ClaimableToken := do
  let supplied ← match (← deref "0" claimable.supplied).head? with
    | some supplied => pure supplied
    | none => first "token" claimable.rewarded
  return {
    token := supplied.token.toAssembledAsset
    claimableData := ⟨supplied.amount, supplied.value⟩
    apr := none }

def delegationToV2 (item : WalletUserEntry) : Except Exception Delegation := do
  let supplied ← deref "Symbol.iterator" item.supplied
  let rewarded ← deref "Symbol.iterator" item.rewarded
  let validator ← deref "validator" item.meta
  let supply ← deref "token" supplied.head?
  let reward ← deref "token" rewarded.head?
  return {
    validator
    stakingToken := {
      token := supply.token.toAssembledAsset
      value := supply.value
      balance := supply.amount
      tokens := []
      unlockTime := none }
    rewards := [rewardToV2 reward] }

/-- The yearly yield in percent, or else the first of the four others that there is. -/
def apyToV2 (apy : Apy) : Option JsNumber :=
  if apy.year.all JsNumber.falsy then
    apy.supplyApy <|> apy.borrowApy <|> apy.stableApy <|> apy.variableApy
  else apy.year.map (· * 100)

def lendingToV2 (items : Option (List UserToken)) : Except Exception (List LendingPosition) := do
  return (← deref "map" items).map fun item => {
    address := item.token.address
    balance := item.amount
    value := item.value
    apy := item.apy.bind apyToV2
    token := item.token.toAssembledAsset
    isCollateral := item.isCollateral
    healthFactor := item.healthFactor.filter (!·.falsy) }

/-! ## Features -/

/-- The sum of two numbers, as decimals. -/
def safelyAddDecimals (dec1 dec2 : ℚ) : ℚ := dec1 + dec2

/-- The total of the response and that of a feature. -/
structure Totals where
  total : ℚ
  totalValue : ℚ

def Totals.add (t : Totals) (value : ℚ) : Totals :=
  ⟨safelyAddDecimals t.total value, safelyAddDecimals t.totalValue value⟩

/-- `if (value)` -/
def Totals.addTruthy (t : Totals) (value : ℚ) : Totals := if value = 0 then t else t.add value

def Totals.addRewards (t : Totals) (rewards : List ClaimableToken) : Totals :=
  rewards.foldl (fun t r => t.addTruthy r.claimableData.value) t

/-- The total of the response and the chain, on the way. -/
structure Progress where
  total : ℚ
  chain : IntChainsData

def IntChainsData.put (c : IntChainsData) (feature : FeatureEnum) (result : FeatureResult) :
    IntChainsData :=
  { c with results := Function.update c.results feature (some result) }

def IntChainsData.push (c : IntChainsData) (features : List FeatureEnum) : IntChainsData :=
  { c with features := c.features ++ features }

/-- The result of a feature with the totals that were counted for it. -/
def Progress.put (p : Progress) (feature : FeatureEnum) (t : Totals) (items : List Item) :
    Progress :=
  ⟨t.total, p.chain.put feature ⟨t.totalValue, items⟩⟩

/-- `unlockTime` of the first supplied token, if it is not zero. -/
def isLocked (position : WalletUserEntry) : Except Exception Bool := do
  return (← first "unlockTime" position.supplied).unlockTime.any (· ≠ 0)

/-- The locked positions and the others. -/
def splitLocked : List WalletUserEntry →
    Except Exception (List WalletUserEntry × List WalletUserEntry)
  | [] => return ([], [])
  | position :: positions => do
    let locked ← isLocked position
    let split ← splitLocked positions
    return if locked then (position :: split.1, split.2) else (split.1, position :: split.2)

def Totals.addStaking (t : Totals) (item : StakingPosition) : Totals :=
  (t.add item.stakingToken.value).addRewards item.rewards

/-- Locked balances count for their feature only. -/
def lockedTotal (items : List LockedBalance) : ℚ :=
  items.foldl (fun totalValue item => safelyAddDecimals totalValue item.totalValue) 0

def stakingBlock (p : Progress) (positions : List WalletUserEntry) :
    Except Exception Progress := do
  let (locked, staking) ← splitLocked positions
  let items ← staking.mapM stakingToV2
  let p := p.put .staking (items.foldl Totals.addStaking ⟨p.total, 0⟩) (items.map .staking)
  if locked.length > 0 then
    let items ← locked.mapM lockedBalanceToV2
    let chain := p.chain.push [.lockedBalances]
    return { p with chain := chain.put .lockedBalances ⟨lockedTotal items, items.map .locked⟩ }
  else
    return p

def Totals.addPool (t : Totals) (item : LiquidityPool) : Totals :=
  (item.tokens.foldl (fun t token => t.addTruthy token.value) t).addRewards (item.rewards.getD [])

def poolsBlock (p : Progress) (positions : List WalletUserEntry) : Except Exception Progress := do
  let items ← positions.mapM liquidityToV2
  return p.put .pools (items.foldl Totals.addPool ⟨p.total, 0⟩) (items.map .pool)

/-- One item for each rewarded and each supplied token. -/
def claimableItems (claimable : WalletUserEntry) : Except Exception (List ClaimableToken) := do
  let mergedItems :=
    (← deref "Symbol.iterator" claimable.rewarded) ++ claimable.supplied.getD []
  mergedItems.mapM fun x => claimableToV2 { claimable with rewarded := some [x] }

def Totals.addClaimable (t : Totals) (item : ClaimableToken) : Totals :=
  t.add item.claimableData.value

def claimableBlock (p : Progress) (positions : List WalletUserEntry) :
    Except Exception Progress := do
  let items := (← positions.mapM claimableItems).flatten
  return p.put .claimable (items.foldl Totals.addClaimable ⟨p.total, 0⟩) (items.map .claimable)

def Totals.addDelegation (t : Totals) (item : Delegation) : Totals := t.add item.stakingToken.value

def delegationBlock (p : Progress) (positions : List WalletUserEntry) :
    Except Exception Progress := do
  let items ← positions.mapM delegationToV2
  return p.put .delegation (items.foldl Totals.addDelegation ⟨p.total, 0⟩) (items.map .delegation)

/-- What a feature has so far. -/
def IntChainsData.current (c : IntChainsData) (feature : FeatureEnum) : FeatureResult :=
  (c.results feature).getD ⟨0, []⟩

/-- One side of a lending position. The total of the feature starts anew if it was zero. -/
def lendingSide (p : Progress) (feature : FeatureEnum) (tokens : Option (List UserToken)) :
    Except Exception Progress := do
  let featureItems ← lendingToV2 tokens
  let totalValue := featureItems.foldl (fun t item => safelyAddDecimals t item.value) 0
  let current := p.chain.current feature
  return {
    total := safelyAddDecimals p.total
      (if feature = .borrowing then totalValue * -1 else totalValue)
    chain := p.chain.put feature {
      totalValue :=
        if current.totalValue = 0 then totalValue
        else safelyAddDecimals current.totalValue totalValue
      items := current.items ++ featureItems.map .lending } }

/-- The rewards of a lending position as a claimable item. -/
def lendingRewardToV2 (reward : UserToken) : ClaimableToken where
  token := reward.token.toAssembledAsset
  claimableData := ⟨reward.amount, reward.value⟩
  apr := none

/-- What a lending position means for a feature. -/
def lendingStep (feature : FeatureEnum) (p : Progress) (position : WalletUserEntry) :
    Except Exception Progress :=
  match feature with
  | .health =>
    let items := match position.debtRatio.filter (· ≠ 0) with
      | some debtRatio => (p.chain.current .health).items ++ [.health debtRatio]
      | none => []
    return { p with chain := p.chain.put .health ⟨0, items⟩ }
  | .lending => lendingSide p .lending position.supplied
  | .borrowing => lendingSide p .borrowing position.borrowed
  | .claimable =>
    let current := p.chain.current .claimable
    let items := (position.rewarded.getD []).map lendingRewardToV2
    return p.put .claimable (items.foldl Totals.addClaimable ⟨p.total, current.totalValue⟩)
      (current.items ++ items.map .claimable)
  | _ => return p

def lendingBlock (p : Progress) (positions : List WalletUserEntry) : Except Exception Progress := do
  let chain := p.chain.push [.claimable, .borrowing, .health]
  chain.features.foldlM (fun p feature => positions.foldlM (lendingStep feature) p)
    { p with chain }

/-- A block runs if the chain has positions of its feature. -/
def block (run : Progress → List WalletUserEntry → Except Exception Progress)
    (positions : Option (List WalletUserEntry)) (p : Progress) : Except Exception Progress :=
  match positions with
  | some positions => run p positions
  | none => return p

/-- The chain before its positions. -/
def start (total : ℚ) (v3 : ChainUserEntry) : Progress :=
  ⟨total, ⟨v3.chain, v3.features.map PlatformFeature.toV2, fun _ => none⟩⟩

def toV2Chain (total : ℚ) (v3 : ChainUserEntry) : Except Exception (ℚ × IntChainsData) := do
  let p ← block stakingBlock v3.positions.staking (start total v3)
  let p ← block poolsBlock v3.positions.pools p
  let p ← block claimableBlock v3.positions.claimable p
  let p ← block delegationBlock v3.positions.delegation p
  let p ← block lendingBlock v3.positions.lending p
  return (p.total, { p.chain with features := unique p.chain.features })

def toV2Wallet (total : ℚ) (v3 : PlatformUserEntry) : Except Exception (ℚ × IntegrationWallet) := do
  let (total, chains) ← Theory.mapAccumM toV2Chain total v3.chains
  return (total, ⟨v3.address, chains⟩)

def toV2Response (inputData : UserEntryResponse) : Except Exception IntegrationsResponseV2 := do
  let protocol := inputData.protocol
  let (total, wallets) ← Theory.mapAccumM toV2Wallet 0 inputData.wallets
  return {
    errors := inputData.errors
    protocol := {
      name := protocol.name
      project := protocol.name
      label := protocol.name
      chains := unique (protocol.features.map ChainDto.abbr) }
    wallets
    total }

end V3Decorator
end Integration
end DefiBackend
