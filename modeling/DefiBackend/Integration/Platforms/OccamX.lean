import DefiBackend.Integration.Support.CacheableProtocol

/-! # The OccamX platform

The two protocols that `OccamX` registers on Milkomeda. Both ask one exchange for its pools and use
the contract of a pool's liquidity token as the id of their own opportunity for the pool. -/

namespace DefiBackend
namespace Integration

/-- What the two protocols take from a pool of the exchange. -/
structure OccamXPool where
  /-- `liquidity_token.contract`. -/
  liquidityToken : String

/-- The id and the feature of a minimal opportunity. -/
structure OccamXMinimal where
  id : String
  feature : String
  deriving DecidableEq

instance : IWalletMinimal OccamXMinimal := ⟨fun o => some o.id⟩

inductive OccamX
  | liquidity
  | farms
  deriving DecidableEq

namespace OccamX

/-- The feature in a protocol's metadata. -/
def feature : OccamX → String
  | .liquidity => "pools"
  | .farms => "staking"

/-- The identities of the protocols, with the digests of their registered metadata. -/
def protocol : OccamX → RootProtocol
  | .liquidity => {
      constructorName := ⟨"OccamXLiquidity", 'O', _, rfl, by decide⟩
      chain := 30
      hash := ⟨"cb7666c1673ca3f3dd91f0bb65add43239dd3cb56b9ea8a6eabfbf4d838d8700",
        "cb7666c1673ca3f3dd91f0bb65add43239dd3cb56b9ea8a6eabfbf4d838d870".toList, '0',
        by decide, by decide⟩ }
  | .farms => {
      constructorName := ⟨"OccamXFarms", 'O', _, rfl, by decide⟩
      chain := 30
      hash := ⟨"df79a01a5b008928f362172502219159f07eccf20481e76d0aee63819457a9fe",
        "df79a01a5b008928f362172502219159f07eccf20481e76d0aee63819457a9f".toList, 'e',
        by decide, by decide⟩ }

theorem protocolId_injective : Function.Injective fun i => (protocol i).protocolId := by
  intro i j h
  cases i <;> cases j <;> first | rfl | exact absurd h (by decide)

/-- `toFeatureMinimal` and `toStakingFeatureMinimal`. -/
def toMinimal (i : OccamX) (pool : OccamXPool) : OccamXMinimal := ⟨pool.liquidityToken, i.feature⟩

/-- `fetchOpportunityData`. -/
def fetchOpportunityData (i : OccamX) (pools : List OccamXPool) : List (Option OccamXMinimal) :=
  pools.map fun pool => some (i.toMinimal pool)

end OccamX
end Integration
end DefiBackend
