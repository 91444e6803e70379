import DefiBackend.Common.JsNumber
import DefiBackend.Integration.Support.ProtocolKeys

/-! # Formatting of opportunities

Minimal opportunities as protocols return them, with every part that may be missing, the tokens of
the asset service, and `formatOpportunity`, which turns the former into full opportunities with the
help of the latter. Big numbers and powers are parameters. -/

namespace DefiBackend
namespace Integration

/-- A property of an object: not there, there without a value, or with one. -/
inductive Field (α : Type)
  | absent
  | null
  | value (a : α)

/-- An underlying token of a minimal token. -/
structure UnderlyingMinimal where
  address : Option String

/-- A minimal token: its address, and underlying tokens if the protocol knows them. -/
structure TokenMinimal where
  address : Option String
  underlying : Option (List (Option UnderlyingMinimal))

structure SupplyTokenMinimal where
  token : Option TokenMinimal
  totalSupplied : Option String

structure RewardTokenMinimal where
  token : Option TokenMinimal
  rewardPerSecond : Option String
  rewardedForLendingSide : Option String
  rewardedForTokenAddress : Option String

structure BorrowTokenMinimal where
  token : Option TokenMinimal
  totalBorrowed : Option String

/-- A minimal opportunity. `M` is the type of what is handed through. -/
structure OpportunityMinimal (M : Type) where
  id : Option String
  feature : String
  chain : ChainId
  «meta» : Option M
  interactive : Option M
  supplied : Field (List (Option SupplyTokenMinimal))
  supply : Field SupplyTokenMinimal
  rewarded : Field (List (Option RewardTokenMinimal))
  reward : Field RewardTokenMinimal
  borrowed : Field (List (Option BorrowTokenMinimal))
  borrow : Field BorrowTokenMinimal

/-- A token of the asset service. -/
structure ERC20Token where
  address : String
  decimals : Nat
  price : Option JsNumber
  underlying : List String
  deriving DecidableEq

/-- The tokens by address; a falsy one counts as missing. -/
def TokenMap := String → Option ERC20Token

def TokenMap.get (tokens : TokenMap) (address : Option String) : Option ERC20Token :=
  address.bind tokens

/-! ## Exceptions -/

inductive Exception
  | missingOpportunity (message : String)
  | missingToken (message : String)
  /-- A property of null or undefined was read. -/
  | typeError (property : String)
  | other (message : String)
  deriving DecidableEq

/-- A value inside a text. -/
def textOf (value : Option String) : String := value.getD "undefined"

def MissingOpportunityException (id : Option String) (chain : ChainId) : Exception :=
  .missingOpportunity ("Missing Opportunity Exception - " ++ toString chain ++ "/" ++ textOf id)

def MissingTokenException (address id : Option String) (chain : ChainId) : Exception :=
  .missingToken ("Failed to find token: " ++ toString chain ++ "/" ++ textOf address ++
    " from pool " ++ toString chain ++ "/" ++ textOf id)

/-- The object whose `property` is read. -/
def deref (property : String) : Option α → Except Exception α
  | some a => .ok a
  | none => .error (.typeError property)

def Field.deref (property : String) : Field α → Except Exception α
  | .value a => .ok a
  | _ => .error (.typeError property)

/-! ## Yields -/

structure RewardRates where
  day : JsNumber
  week : JsNumber
  month : JsNumber
  year : JsNumber
  deriving DecidableEq

/-- The numbers the formatting needs from elsewhere: reading a big number, and powers. -/
structure Numerics where
  toBN : Option String → JsNumber
  pow : JsNumber → JsNumber → JsNumber

namespace Numerics
variable (N : Numerics)

def normalizeDecimals (number : Option String) (decimals : Nat) : JsNumber :=
  N.toBN number / .finite (10 ^ decimals)

/-- `aprToApy` with a number of compounds. -/
def aprToApy (rateForPeriod numberOfCompounds : JsNumber) : JsNumber :=
  (N.pow (1 + rateForPeriod / numberOfCompounds) numberOfCompounds - 1).orZero

/-- The rates and the compounded rates. -/
def getYieldBreakdown (perSecond ratio : JsNumber) : RewardRates × RewardRates :=
  let perDay := perSecond * 60 * 60 * 24
  let apr : RewardRates := {
    day := (perDay / ratio).orZero
    week := (perDay * 7 / ratio).orZero
    month := (perDay * 365 / 12 / ratio).orZero
    year := (perDay * 365 / ratio).orZero }
  (apr, {
    day := (N.aprToApy apr.day 1).orZero
    week := (N.aprToApy apr.week 7).orZero
    month := (N.aprToApy apr.month (365 / 12)).orZero
    year := (N.aprToApy apr.year 365).orZero })

def getHarvestBreakdown (perSecond : JsNumber) : RewardRates × RewardRates :=
  N.getYieldBreakdown perSecond 1

end Numerics

/-! ## Full opportunities -/

structure SupplyTokenOpportunity where
  token : ERC20Token
  apy : Option RewardRates
  tvl : JsNumber
  deriving DecidableEq

structure RewardTokenOpportunity where
  token : ERC20Token
  harvests : RewardRates
  apr : RewardRates
  apy : RewardRates
  rewardedForLendingSide : Option String
  rewardedForTokenAddress : Option String
  deriving DecidableEq

structure BorrowTokenOpportunity where
  token : ERC20Token
  apy : Option RewardRates
  tvl : JsNumber
  deriving DecidableEq

/-- A receipt token: a token without its underlying ones. -/
structure ReceiptToken where
  address : String
  decimals : Nat
  price : Option JsNumber
  deriving DecidableEq

structure Opportunity (M : Type) where
  feature : String
  id : Option String
  chain : ChainId
  links : Option String
  «meta» : Option M
  interactive : Option M
  token : Option ReceiptToken
  supplied : Option (List SupplyTokenOpportunity)
  supply : Option SupplyTokenOpportunity
  rewarded : Option (List RewardTokenOpportunity)
  reward : Option RewardTokenOpportunity
  borrowed : Option (List BorrowTokenOpportunity)
  borrow : Option BorrowTokenOpportunity
  deriving DecidableEq

/-- What a protocol adds to the formatting: the chain of its metadata, the link of an opportunity
and the rates of its tokens. -/
structure FormattingProtocol (M : Type) where
  chain : ChainId
  getOpportunityLink : Option (OpportunityMinimal M → Except Exception String)
  formatSupplyApy : Option (SupplyTokenMinimal → Except Exception RewardRates)
  formatBorrowApy : Option (BorrowTokenMinimal → Except Exception RewardRates)

namespace FormattingProtocol
variable {M : Type} (Q : FormattingProtocol M) (N : Numerics)

/-- An optional method, called if there is one. -/
def callOptional {α β : Type} (method : Option (α → Except Exception β)) (a : α) :
    Except Exception (Option β) :=
  match method with
  | none => .ok none
  | some f => (f a).map some

def generateLinks (opportunity : OpportunityMinimal M) : Except Exception (Option String) :=
  callOptional Q.getOpportunityLink opportunity

def formatOpportunityReceiptToken (token : Option ERC20Token) : Option ReceiptToken :=
  token.map fun token => ⟨token.address, token.decimals, token.price⟩

/-- A price in a product; null counts as zero. -/
def priceOf (token : ERC20Token) : JsNumber := token.price.getD 0

def formatOpportunitySuppliedToken (supplied : SupplyTokenMinimal) (token : ERC20Token) :
    Except Exception SupplyTokenOpportunity := do
  let totalSupplied := N.normalizeDecimals supplied.totalSupplied token.decimals
  let apy ← callOptional Q.formatSupplyApy supplied
  return ⟨token, apy, totalSupplied * priceOf token⟩

def formatOpportunityRewardedToken (poolToken : RewardTokenMinimal) (token : ERC20Token)
    (tvl : JsNumber) : RewardTokenOpportunity :=
  let tokensPerSecond := N.normalizeDecimals poolToken.rewardPerSecond token.decimals
  let pricePerSecond := tokensPerSecond * priceOf token
  let (harvests, _) := N.getHarvestBreakdown tokensPerSecond
  let (apr, apy) := N.getYieldBreakdown pricePerSecond tvl
  ⟨token, harvests, apr, apy, poolToken.rewardedForLendingSide, poolToken.rewardedForTokenAddress⟩

def formatOpportunityBorrowedToken (borrowed : BorrowTokenMinimal) (token : ERC20Token) :
    Except Exception BorrowTokenOpportunity := do
  let totalBorrowed := N.normalizeDecimals borrowed.totalBorrowed token.decimals
  let apy ← callOptional Q.formatBorrowApy borrowed
  return ⟨token, apy, totalBorrowed * priceOf token⟩

/-- `getTokenPositionTVL`. -/
def getTokenPositionTVL (token : Option ERC20Token) (total : Option String) :
    Except Exception JsNumber := do
  let token ← deref "price" token
  match token.price, total with
  | some price, some total =>
    if price.falsy ∨ total = "" then return 0
    else return price * N.normalizeDecimals total token.decimals
  | _, _ => return 0

def getOpportunityTVL (opportunity : OpportunityMinimal M) (tokens : TokenMap) :
    Except Exception JsNumber :=
  let position (item : SupplyTokenMinimal) : Except Exception JsNumber := do
    let token ← deref "address" item.token
    getTokenPositionTVL N (tokens.get token.address) item.totalSupplied
  match opportunity.supplied, opportunity.supply with
  | .absent, .absent => .ok 0
  | .absent, supply => do position (← supply.deref "token")
  | supplied, _ => do
    (← supplied.deref "reduce").foldlM (fun tvl item => do
      return tvl + (← position (← deref "token" item))) 0

/-- The token of an item, which has to be known. -/
def findToken (opportunity : OpportunityMinimal M) (tokens : TokenMap)
    (token : Option TokenMinimal) : Except Exception ERC20Token := do
  let token ← deref "address" token
  match tokens.get token.address with
  | some found => return found
  | none => throw (MissingTokenException token.address opportunity.id Q.chain)

/-- The tokens of one kind: those in the array, or else the single one. -/
def formatTokens (opportunity : OpportunityMinimal M) (tokens : TokenMap)
    (many : Field (List (Option α))) (one : Field α) (tokenOf : α → Option TokenMinimal)
    (format : α → ERC20Token → Except Exception β) :
    Except Exception (Option (List β) × Option β) :=
  match many, one with
  | .absent, .absent => .ok (none, none)
  | .absent, one => do
    let item ← one.deref "token"
    let token ← Q.findToken opportunity tokens (tokenOf item)
    return (none, some (← format item token))
  | many, _ => do
    let items ← (← many.deref "map").mapM fun item => do
      let item ← deref "token" item
      let token ← Q.findToken opportunity tokens (tokenOf item)
      format item token
    return (some items, none)

/-- `formatOpportunity`. -/
def formatOpportunity (opportunity : Option (OpportunityMinimal M)) (tokens : TokenMap) :
    Except Exception (Opportunity M) := do
  let opportunity ← deref "feature" opportunity
  let links ← Q.generateLinks opportunity
  let token := formatOpportunityReceiptToken (tokens.get opportunity.id)
  let (supplied, supply) ← Q.formatTokens opportunity tokens opportunity.supplied opportunity.supply
    (·.token) (Q.formatOpportunitySuppliedToken N)
  let tvl ← getOpportunityTVL N opportunity tokens
  let (rewarded, reward) ← Q.formatTokens opportunity tokens opportunity.rewarded opportunity.reward
    (·.token) fun poolToken token => .ok (formatOpportunityRewardedToken N poolToken token tvl)
  let (borrowed, borrow) ← Q.formatTokens opportunity tokens opportunity.borrowed opportunity.borrow
    (·.token) (Q.formatOpportunityBorrowedToken N)
  return {
    feature := opportunity.feature, id := opportunity.id, chain := opportunity.chain, links
    «meta» := opportunity.meta, interactive := opportunity.interactive, token
    supplied, supply, rewarded, reward, borrowed, borrow }

end FormattingProtocol
end Integration
end DefiBackend
