import DefiBackend.Common.CacheKey

/-! # Identity and cache keys of a protocol

`RootProtocol.protocolId` and the three kinds of keys `RootProtocolCacheable` caches under:

* `pool_list_${protocolId}`: the ids of the protocol's pools;
* `${chain}_${poolId}`: one pool; the protocol is not part of the key;
* `${protocolId}_hydrated_pool_list`: the hydrated opportunities, for a minute.

Keys of different kinds never coincide, list keys are as different as the protocol ids, and pool
keys coincide exactly for one id on one chain. -/

namespace DefiBackend
namespace Integration

abbrev ChainId := Nat

/-- The text of `RootProtocol.protocolId`, from the class name, the chain of the metadata and the
hex digest of the printed metadata. -/
def protocolIdOf (constructorName : String) (chain : ChainId) (hash : String) : String :=
  constructorName ++ "_" ++ keyField chain hash

def poolListCacheKeyOf (protocolId : String) : String := "pool_list_" ++ protocolId

def singlePoolCacheKeyOf (chain : ChainId) (poolId : String) : String := keyField chain poolId

def hydratedCacheKeyOf (protocolId : String) : String := protocolId ++ "_hydrated_pool_list"

/-- The name of a class: an identifier, which starts with no digit. -/
structure ClassName where
  text : String
  head : ∃ c cs, text.toList = c :: cs ∧ c.isDigit = false

/-- A digest, printed in the hex digits `0-9a-f`. -/
structure HexDigest where
  text : String
  last : ∃ cs c, text.toList = cs ++ [c] ∧ (c.isDigit ∨ c ∈ ['a', 'b', 'c', 'd', 'e', 'f'])

/-- What an instance contributes to its protocol id. -/
structure RootProtocol where
  constructorName : ClassName
  chain : ChainId
  hash : HexDigest

namespace RootProtocol

def protocolId (P : RootProtocol) : String := protocolIdOf P.constructorName.text P.chain P.hash.text

def poolListCacheKey (P : RootProtocol) : String := poolListCacheKeyOf P.protocolId

def singlePoolCacheKey (P : RootProtocol) (poolId : String) : String :=
  singlePoolCacheKeyOf P.chain poolId

def hydratedCacheKey (P : RootProtocol) : String := hydratedCacheKeyOf P.protocolId

variable {P Q : RootProtocol}

theorem singlePoolCacheKey_inj :
    P.singlePoolCacheKey i = Q.singlePoolCacheKey j ↔ P.chain = Q.chain ∧ i = j := keyField_inj

theorem poolListCacheKey_inj : P.poolListCacheKey = Q.poolListCacheKey ↔
    P.protocolId = Q.protocolId := String.append_right_inj _

theorem poolListCacheKey_ne_single : P.poolListCacheKey ≠ Q.singlePoolCacheKey i := by
  intro h
  obtain ⟨c, cs, hc, hdigit⟩ := keyField_head Q.chain i
  have h' := congrArg String.toList h
  rw [singlePoolCacheKey, singlePoolCacheKeyOf, hc, poolListCacheKey, poolListCacheKeyOf,
    String.toList_append] at h'
  obtain rfl : 'p' = c := (List.cons.inj h').1
  exact absurd hdigit (by decide)

theorem hydratedCacheKey_ne_single : P.hydratedCacheKey ≠ Q.singlePoolCacheKey i := by
  intro h
  obtain ⟨c, cs, hc, hdigit⟩ := keyField_head Q.chain i
  obtain ⟨d, ds, hd, hnot⟩ := P.constructorName.head
  have h' := congrArg String.toList h
  rw [singlePoolCacheKey, singlePoolCacheKeyOf, hc, hydratedCacheKey, hydratedCacheKeyOf,
    protocolId, protocolIdOf] at h'
  simp only [String.toList_append, hd, List.cons_append, List.cons.injEq] at h'
  rw [h'.1, hdigit] at hnot
  contradiction

theorem hydratedCacheKey_ne_poolList : P.hydratedCacheKey ≠ Q.poolListCacheKey := by
  intro h
  obtain ⟨cs, c, hc, hhex⟩ := Q.hash.last
  have h' := congrArg (·.toList.getLast?) h
  simp only [hydratedCacheKey, hydratedCacheKeyOf, poolListCacheKey, poolListCacheKeyOf,
    protocolId, protocolIdOf, String.toList_append, keyField_toList, hc] at h'
  have hlast : "_hydrated_pool_list".toList.getLast? = some 't' := by decide
  rw [List.getLast?_append, hlast] at h'
  simp only [Option.some_or, List.getLast?_append, List.getLast?_cons, List.getLast?_nil,
    Option.getD_none, Option.some.injEq, Option.getD_some] at h'
  subst h'
  exact absurd hhex (by decide)

end RootProtocol
end Integration
end DefiBackend
