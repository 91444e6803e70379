import DefiBackend.Common.Address
import DefiBackend.Common.Collections
import DefiBackend.Integration.Support.ProtocolKeys
import Mathlib.Algebra.BigOperators.Group.List.Basic
import Mathlib.Algebra.Order.Ring.Rat
import Mathlib.Tactic.Ring

/-! # Platforms

`RootPlatform.getUsersData`: a platform asks its protocols on the requested chains for the positions
of the requested addresses and merges the answers by address, chain and feature. Values are exact.
Errors of fulfilled protocols stand here in the order of the protocols; the code has them in the
order in which the protocols settle. -/

namespace DefiBackend
namespace Integration

/-- A token of a user's position. -/
structure UserToken where
  address : Address
  amount : ℚ
  value : Option ℚ
  deriving DecidableEq

/-- Tokens of one kind: none, one, or an array. The types of positions exclude both. -/
inductive TokenField
  | none
  | single (token : UserToken)
  | many (tokens : List UserToken)
  deriving DecidableEq

/-- A user's position. -/
structure Position where
  id : String
  feature : String
  chain : ChainId
  supplied : TokenField
  rewarded : TokenField
  borrowed : TokenField
  deriving DecidableEq

def TokenField.enforceArray : TokenField → TokenField
  | .single token => .many [token]
  | field => field

/-- A position with arrays of tokens. -/
def Position.enforceArray (p : Position) : Position :=
  { p with
    supplied := p.supplied.enforceArray
    rewarded := p.rewarded.enforceArray
    borrowed := p.borrowed.enforceArray }

def enforceTokenArrayOutput (positions : List Position) : List Position :=
  positions.map Position.enforceArray

/-! ## Totals -/

/-- A token without a value is skipped. -/
def addToken (tokenAcc : ℚ) (token : UserToken) : ℚ :=
  match token.value with
  | some value => if value = 0 then tokenAcc else tokenAcc + value
  | none => tokenAcc

def tokensTotal : TokenField → ℚ
  | .many tokens => tokens.foldl addToken 0
  | _ => 0

def addPosition (total : ℚ) (position : Position) : ℚ :=
  total + tokensTotal position.supplied + tokensTotal position.rewarded -
    tokensTotal position.borrowed

def getPositionsTotal (positions : List Position) : ℚ := positions.foldl addPosition 0

/-! ## Protocols and their answers -/

/-- What becomes of a call of a protocol's `getUsersData`: a map with the asked addresses as its
keys and some errors, or a reason. -/
inductive Outcome
  | fulfilled (wallets : Address → List Position) (errors : List String)
  | rejected (reason : String)

/-- A registered protocol: its `getMeta`, and its `getUsersData` if it has one. -/
structure PlatformProtocol where
  chain : ChainId
  features : List String
  getUsersData : Option (List Address → Outcome)

/-- The answer of a fulfilled protocol. -/
structure ChainGroupedWallet where
  chain : ChainId
  features : List String
  asked : List Address
  wallets : Address → List Position

structure ChainUserEntry where
  positions : Groups String Position
  features : List String
  total : ℚ
  chain : ChainId
  deriving DecidableEq

structure PlatformUserEntry where
  address : Address
  total : ℚ
  chains : List ChainUserEntry
  deriving DecidableEq

structure PlatformData where
  data : List PlatformUserEntry
  errors : List String
  deriving DecidableEq

section
variable (A : AddressChecks) (chains : List ChainId) (addresses : List Address)

/-- The answer of a protocol, if it is asked: for a requested chain and some valid address. -/
def ask (protocol : PlatformProtocol) : Option Outcome :=
  let asked := A.keepAddressesByChainId addresses protocol.chain
  match protocol.getUsersData with
  | some getUsersData =>
    if protocol.chain ∈ chains ∧ asked ≠ [] then some (getUsersData asked) else none
  | none => none

/-- The fulfilled answers, in the order of the protocols. -/
def resolvedProtocols (protocols : List PlatformProtocol) : List ChainGroupedWallet :=
  protocols.filterMap fun protocol =>
    match ask A chains addresses protocol with
    | some (.fulfilled wallets _) => some {
        chain := protocol.chain
        features := protocol.features
        asked := A.keepAddressesByChainId addresses protocol.chain
        wallets }
    | _ => none

/-- The errors of the fulfilled protocols. -/
def userErrors (protocols : List PlatformProtocol) : List String :=
  protocols.flatMap fun protocol =>
    match ask A chains addresses protocol with
    | some (.fulfilled _ errors) => errors
    | _ => []

/-- The reasons of the rejected protocols. -/
def reasons (protocols : List PlatformProtocol) : List String :=
  protocols.filterMap fun protocol =>
    match ask A chains addresses protocol with
    | some (.rejected reason) => some reason
    | _ => none

def unsupportedChains (protocols : List PlatformProtocol) : List String :=
  (chains.filter (· ∉ protocols.map (·.chain))).map
    fun chain => "Protocol does not support Chain: " ++ toString chain

end

/-- The positions of a user on a chain, over all answers. -/
def mergedPositions (user : Address) (chain : ChainId)
    (resolvedProtocols : List ChainGroupedWallet) : List Position :=
  resolvedProtocols.flatMap fun protocol =>
    if protocol.chain = chain ∧ user ∈ protocol.asked then
      enforceTokenArrayOutput (protocol.wallets user)
    else []

def mergeUserProtocolDataPerChain (user : Address) (chain : ChainId)
    (resolvedProtocols : List ChainGroupedWallet) : ChainUserEntry :=
  let positions := mergedPositions user chain resolvedProtocols
  let features := (resolvedProtocols.filter (·.chain = chain)).foldl
    (fun features protocol => protocol.features.foldl addToSet features) []
  { positions := features.foldl Groups.ensure (groupBy Position.feature positions)
    features
    total := getPositionsTotal positions
    chain }

def getWalletTotal (chains : List ChainUserEntry) : ℚ :=
  chains.foldl (fun total chain => total + chain.total) 0

/-- `getUsersData`, the protocols and the errors of their initialization being given. -/
def getUsersData (A : AddressChecks) (protocols : List PlatformProtocol) (errors : List String)
    (chains : List ChainId) (addresses : List Address) : PlatformData :=
  let resolved := resolvedProtocols A chains addresses protocols
  { data := addresses.map fun address =>
      let chainData := chains.map fun chain =>
        mergeUserProtocolDataPerChain address chain resolved
      { address, total := getWalletTotal chainData, chains := chainData }
    errors := errors ++ unsupportedChains chains protocols ++
      userErrors A chains addresses protocols ++ reasons A chains addresses protocols }

/-! ## Totals as sums -/

/-- The value of a token in sums. -/
def UserToken.worth (token : UserToken) : ℚ := token.value.getD 0

def TokenField.tokens : TokenField → List UserToken
  | .none => []
  | .single token => [token]
  | .many tokens => tokens

def TokenField.worth (field : TokenField) : ℚ := (field.tokens.map UserToken.worth).sum

/-- Supplied and rewarded values minus borrowed ones. -/
def Position.worth (p : Position) : ℚ := p.supplied.worth + p.rewarded.worth - p.borrowed.worth

/-- A sum accumulated from the left. -/
theorem foldl_eq_sum {add : ℚ → α → ℚ} {f : α → ℚ} (h : ∀ x a, add x a = x + f a)
    (list : List α) (x : ℚ) : list.foldl add x = x + (list.map f).sum := by
  induction list generalizing x with
  | nil => simp
  | cons a list ih => rw [List.foldl_cons, ih, h, List.map_cons, List.sum_cons, add_assoc]

theorem addToken_eq (x : ℚ) (token : UserToken) : addToken x token = x + token.worth := by
  unfold addToken UserToken.worth
  cases token.value with
  | none => simp
  | some v => by_cases h : v = 0 <;> simp [h]

/-- The tokens of a kind are counted when they are in an array. -/
theorem tokensTotal_enforceArray (field : TokenField) :
    tokensTotal field.enforceArray = field.worth := by
  have hmany (tokens : List UserToken) :
      tokensTotal (.many tokens) = (tokens.map UserToken.worth).sum := by
    rw [tokensTotal, foldl_eq_sum addToken_eq, zero_add]
  cases field with
  | none => rfl
  | single token => exact hmany [token]
  | many tokens => exact hmany tokens

theorem addPosition_enforceArray (x : ℚ) (p : Position) :
    addPosition x p.enforceArray = x + p.worth := by
  simp only [addPosition, Position.enforceArray, tokensTotal_enforceArray, Position.worth]
  ring

theorem getPositionsTotal_enforceTokenArrayOutput (positions : List Position) :
    getPositionsTotal (enforceTokenArrayOutput positions) = (positions.map Position.worth).sum := by
  rw [getPositionsTotal, enforceTokenArrayOutput, List.foldl_map,
    foldl_eq_sum addPosition_enforceArray, zero_add]

theorem enforceArray_enforceArray (p : Position) : p.enforceArray.enforceArray = p.enforceArray := by
  have hfield (field : TokenField) : field.enforceArray.enforceArray = field.enforceArray := by
    cases field <;> rfl
  simp only [Position.enforceArray, hfield]

/-- Merged positions have arrays of tokens. -/
theorem enforceTokenArrayOutput_mergedPositions (user : Address) (chain : ChainId)
    (resolvedProtocols : List ChainGroupedWallet) :
    enforceTokenArrayOutput (mergedPositions user chain resolvedProtocols) =
      mergedPositions user chain resolvedProtocols := by
  unfold mergedPositions enforceTokenArrayOutput
  rw [List.map_flatMap]
  refine List.flatMap_congr fun protocol _ => ?_
  split
  · rw [List.map_map]
    exact List.map_congr_left fun p _ => enforceArray_enforceArray p
  · rfl

/-- The total of a user on a chain. -/
theorem getPositionsTotal_mergedPositions (user : Address) (chain : ChainId)
    (resolvedProtocols : List ChainGroupedWallet) :
    getPositionsTotal (mergedPositions user chain resolvedProtocols) =
      ((mergedPositions user chain resolvedProtocols).map Position.worth).sum := by
  rw [← getPositionsTotal_enforceTokenArrayOutput, enforceTokenArrayOutput_mergedPositions]

theorem getWalletTotal_eq (chains : List ChainUserEntry) :
    getWalletTotal chains = (chains.map ChainUserEntry.total).sum := by
  rw [getWalletTotal, foldl_eq_sum fun _ _ => rfl, zero_add]

end Integration
end DefiBackend
