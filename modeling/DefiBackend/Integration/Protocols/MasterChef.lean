import DefiBackend.Integration.Support.SingleContractProtocol
import Mathlib.Algebra.Ring.Int.Defs
import Mathlib.Data.List.Sort

/-! # MasterChef

What `MasterChef` does to its context: `formatContext` turns the results of its four inputless
functions into numbers, a lower-case address and an amount per second, and `fetchOpportunityData`
sorts the bad pools in place. The division of big numbers is a parameter. -/

namespace DefiBackend
namespace Integration
namespace MasterChef

/-- `averageBlockTimeByChain[chain] || 1`, in seconds. -/
def averageBlockTime : ChainId → Nat
  | 2 => 3
  | _ => 1

/-- The functions without inputs among those found by the predicates. -/
def inputless : List String := ["poolLength", "rewardPerSecond", "rewardToken", "totalAllocPoint"]

/-- Fails at a reward token that is no string, after the pool length has been replaced. -/
def formatContext (dividedBy : JsValue → Nat → String) (chain : ChainId) (context : JsObject) :
    JsObject × Bool :=
  let context := context.assign "poolLength" (context.get "poolLength").parseInt
  match (context.get "rewardToken").toLowerCase with
  | none => (context, false)
  | some rewardToken =>
    let context := context.assign "rewardToken" rewardToken
    let context := context.assign "totalAllocPoint" (context.get "totalAllocPoint").parseInt
    let perSecond := dividedBy (context.get "rewardPerSecond") (averageBlockTime chain)
    (context.assign "rewardPerSecond" (.str perSecond), true)

/-- `a > b`, between numbers. -/
def greater : JsValue → JsValue → Bool
  | .num a, .num b => b < a
  | _, _ => false

/-- The part before the first await: `Array(poolLength)` fails at what is no array length, and the
bad pools are sorted in descending order. -/
def fetchStart (context : JsObject) : JsObject :=
  match context.get "poolLength" with
  | .num n =>
    if 0 ≤ n ∧ n < 2 ^ 32 then
      match context.get "badPools" with
      | .arr items =>
        context.assign "badPools" (.arr (items.insertionSort fun a b => ¬ greater b a))
      | _ => context
    else context
  | _ => context

def cls (dividedBy : JsValue → Nat → String) : SingleContractClass where
  constructorName := ⟨"MasterChef", 'M', _, rfl, by decide⟩
  inputless := inputless
  formatContext := formatContext dividedBy
  fetchStart := fetchStart
  fetchParts := []

/-- The id of `formatStakingOpportunityMinimal`, from the address in the metadata and the pool's
number, and the token to stake. -/
structure OpportunityMinimal where
  id : String
  stakedToken : String
  deriving DecidableEq

instance : IWalletMinimal OpportunityMinimal := ⟨fun o => some o.id⟩

def formatStakingOpportunityMinimal (address : String) (poolId : Nat) (stakedToken : String) :
    OpportunityMinimal :=
  ⟨address ++ "::" ++ toString poolId, stakedToken⟩

end MasterChef
end Integration
end DefiBackend
