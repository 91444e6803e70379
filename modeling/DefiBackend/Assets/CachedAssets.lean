import DefiBackend.Common.Address
import DefiBackend.Common.CallData
import DefiBackend.Common.Collections
import DefiBackend.Common.JsMap
import DefiBackend.Theory.Fallible
import DefiBackend.Theory.Run
import Mathlib.Data.Finset.Card
import Mathlib.Data.List.AList

/-! # The cached repository of assets

`AssetsCachedRepository` of `apps/assets`. The database has assets with underlying assets; the
cache has single assets, which refer to their underlying ones by address.

* `Database.load` is a query with relations of a given depth, below which nothing is known of the
  underlying assets.
* `findManyByAddressesAndChainIds` follows the references of the cached assets level by level, with
  one list of the keys that have been followed, and builds the trees of all assets it finds.
* `step` is the system: calls of the three functions, writes to the cache that follow later, or
  fail, and expiries.

An address has no pattern characters, so that `ILike` compares without case. -/

namespace DefiBackend
namespace Assets
open Theory

/-- A chain and an address: a request, or what identifies an asset. -/
structure AssetReference where
  chainId : Nat
  address : Address
  deriving DecidableEq

/-- `getAssetCacheKey`. -/
structure AssetCacheKey where
  chainId : Nat
  lower : Address
  deriving DecidableEq

/-- The cache key of an asset, and of a request for it. -/
def AssetReference.key (asset : AssetReference) : AssetCacheKey :=
  ⟨asset.chainId, lowerCase asset.address⟩

/-- `isRequestMatchingAsset`. -/
def isRequestMatchingAsset (request asset : AssetReference) : Prop :=
  request.chainId = asset.chainId ∧ lowerCase request.address = lowerCase asset.address

instance : Decidable (isRequestMatchingAsset request asset) :=
  inferInstanceAs (Decidable (_ ∧ _))

/-- `AssetEntity`, with its underlying assets and their positions where they are loaded. One made of
nothing has no attributes. -/
inductive AssetEntity
  | mk (asset : Option AssetReference) (underlying : Option (List (Nat × AssetEntity)))

namespace AssetEntity

def asset : AssetEntity → Option AssetReference
  | ⟨asset, _⟩ => asset

def underlying : AssetEntity → Option (List (Nat × AssetEntity))
  | ⟨_, underlying⟩ => underlying

/-- The underlying assets, none where they are not loaded. -/
def links (e : AssetEntity) : List (Nat × AssetEntity) := e.underlying.getD []

end AssetEntity

/-! ## The database -/

/-- A row of `assets_underlying`, of a given asset. -/
structure UnderlyingRow where
  position : Nat
  underlyingAsset : Nat

structure AssetRow where
  asset : AssetReference
  underlying : List UnderlyingRow

/-- The rows under their ids. -/
structure Database where
  ids : List Nat
  row : Nat → AssetRow
  nodup : ids.Nodup
  unique : ∀ i ∈ ids, ∀ j ∈ ids, (row i).asset = (row j).asset → i = j
  closed : ∀ i ∈ ids, ∀ u ∈ (row i).underlying, u.underlyingAsset ∈ ids

namespace Database
variable (db : Database)

/-- An asset with the relations `underlying.underlyingAsset` down to a depth. -/
def load : Nat → Nat → AssetEntity
  | 0, i => ⟨some (db.row i).asset, none⟩
  | depth + 1, i =>
    ⟨some (db.row i).asset,
      some ((db.row i).underlying.map fun u => (u.position, load depth u.underlyingAsset))⟩

/-- The depth of `UNDERLYING_RELATIONS`. -/
def relationsDepth : Nat := 2

/-- `AssetsRepository.findManyByAddressesAndChainIds`. -/
def findManyByAddressesAndChainIds (requests : List AssetReference) : List AssetEntity :=
  if requests.length = 0 then []
  else
    (db.ids.filter fun i => requests.any fun r => isRequestMatchingAsset r (db.row i).asset).map
      (db.load relationsDepth)

/-- `AssetsRepository.findOneByAddressAndChain`. -/
def findOneByAddressAndChain (request : AssetReference) : Option AssetEntity :=
  (db.ids.find? fun i => isRequestMatchingAsset request (db.row i).asset).map
    (db.load relationsDepth)

end Database

/-! ## What is cached -/

/-- An entry of the underlying assets of a cached asset. One of a stored entity has the asset itself
instead of its address. -/
structure CachedUnderlying where
  address : Option Address
  position : Nat

/-- What is stored for an asset: an `AssetCacheDto`, or an entity. -/
structure CachedAsset where
  asset : AssetReference
  underlying : Option (List CachedUnderlying)

namespace CachedAsset

def refs (a : CachedAsset) : List CachedUnderlying := a.underlying.getD []

/-- The key of a reference, on the chain of the asset that has it. -/
def underlyingKey (a : CachedAsset) (u : CachedUnderlying) : Except String AssetCacheKey :=
  match u.address with
  | some address => .ok (AssetReference.key ⟨a.asset.chainId, address⟩)
  | none => .error typeError

end CachedAsset

mutual

/-- `getAssetCacheDtosWithUnderlyingReferences`: an asset after its underlying ones. One without
attributes has no key. An asset that has no underlying ones gives itself only. -/
def getAssetCacheDtosWithUnderlyingReferences : AssetEntity → List (Option CachedAsset)
  | ⟨asset, none⟩ => [asset.map fun asset => ⟨asset, none⟩]
  | ⟨asset, some underlying⟩ =>
    underlyingAssetDtos underlying ++
      [asset.map fun asset =>
        ⟨asset, some (underlying.map fun u => ⟨u.2.asset.map AssetReference.address, u.1⟩)⟩]

/-- The assets that are pushed in the loop over the underlying ones. -/
def underlyingAssetDtos : List (Nat × AssetEntity) → List (Option CachedAsset)
  | [] => []
  | (_, e) :: underlying =>
    getAssetCacheDtosWithUnderlyingReferences e ++ underlyingAssetDtos underlying

end

/-- `mapAssetsToCachePlain`. -/
def mapAssetsToCachePlain (cachedAssets : List AssetEntity) : List (Option CachedAsset) :=
  cachedAssets.flatMap getAssetCacheDtosWithUnderlyingReferences

/-- What `findOneByAddressAndChain` stores. -/
def AssetEntity.stored (e : AssetEntity) : Option CachedAsset :=
  e.asset.map fun asset => ⟨asset, e.underlying.map fun us => us.map fun u => ⟨none, u.1⟩⟩

abbrev AssetCache := AList fun _ : AssetCacheKey => CachedAsset

namespace AssetCache

/-- `cache.mget`, less the missing ones. -/
def mget (cache : AssetCache) (keys : List AssetCacheKey) : List CachedAsset :=
  keys.filterMap fun k => cache.lookup k

/-- `cache.mset` with the cached assets under their keys. -/
def mset (cache : AssetCache) (assets : List CachedAsset) : AssetCache :=
  assets.foldl (fun cache a => cache.insert a.asset.key a) cache

/-- The keys of all references. -/
def refKeys (cache : AssetCache) : List AssetCacheKey :=
  cache.entries.flatMap fun e => e.2.refs.filterMap fun u => (e.2.underlyingKey u).toOption

end AssetCache

/-- The items of `saveAssetsToCache`, none when an asset has no key. -/
def cacheItems (assetsToCache : List AssetEntity) : Option (List CachedAsset) :=
  (mapAssetsToCachePlain assetsToCache).mapM id

/-! ## Reading -/

section
variable (cache : AssetCache)

/-- The keys of the references of a level, in order. -/
def levelKeys (cachedAssets : List CachedAsset) : Except String (List AssetCacheKey) := do
  let keys ← cachedAssets.mapM fun a => a.refs.mapM a.underlyingKey
  return keys.flatten

theorem mem_refKeys {level keys : List AssetCacheKey}
    (h : levelKeys (cache.mget level) = .ok keys) {k : AssetCacheKey}
    (hk : k ∈ keys) : k ∈ cache.refKeys := by
  obtain ⟨keyss, hkeyss, h⟩ := bind_eq_ok.mp h
  cases h
  obtain ⟨ks, hks, hk⟩ := List.mem_flatten.mp hk
  obtain ⟨a, ha, hrefs⟩ := (mem_of_mapM_ok hkeyss).mp hks
  obtain ⟨u, hu, hkey⟩ := (mem_of_mapM_ok hrefs).mp hk
  obtain ⟨k', -, ha⟩ := List.mem_filterMap.mp ha
  refine List.mem_flatMap.mpr ⟨⟨k', a⟩, AList.mem_lookup_iff.mp ha, ?_⟩
  exact List.mem_filterMap.mpr ⟨u, hu, by rw [hkey]; rfl⟩

/-- The keys that can still be followed. -/
def toFollow (allCacheKeys : List AssetCacheKey) : Finset AssetCacheKey :=
  cache.refKeys.toFinset \ allCacheKeys.toFinset

theorem toFollow_lt {level keys allCacheKeys : List AssetCacheKey}
    (h : levelKeys (cache.mget level) = .ok keys)
    (hne : (fresh allCacheKeys keys).length ≠ 0) :
    (toFollow cache (allCacheKeys ++ fresh allCacheKeys keys)).card <
      (toFollow cache allCacheKeys).card := by
  obtain ⟨k, hk⟩ := List.exists_mem_of_length_pos (Nat.pos_of_ne_zero hne)
  obtain ⟨hkeys, hall⟩ := mem_fresh.mp hk
  refine Finset.card_lt_card (Finset.ssubset_iff_subset_ne.mpr ⟨?_, fun heq => ?_⟩)
  · refine Finset.sdiff_subset_sdiff (Finset.Subset.refl _) fun k' hk' => ?_
    rw [List.mem_toFinset] at hk' ⊢
    exact List.mem_append_left _ hk'
  · have hmem : k ∈ toFollow cache allCacheKeys := by
      rw [toFollow, Finset.mem_sdiff, List.mem_toFinset, List.mem_toFinset]
      exact ⟨mem_refKeys cache h hkeys, hall⟩
    rw [← heq, toFollow, Finset.mem_sdiff, List.mem_toFinset, List.mem_toFinset] at hmem
    exact hmem.2 (List.mem_append_right _ hk)

/-- `getAssetsFromCacheWithUnderlying`. Each level has keys that have not been followed. -/
def getAssetsFromCacheWithUnderlying (cacheKeys allCacheKeys : List AssetCacheKey) :
    Except String (List CachedAsset) :=
  let cachedAssets := cache.mget cacheKeys
  match _h : levelKeys cachedAssets with
  | .error e => .error e
  | .ok keys =>
    let assetCacheKeys := fresh allCacheKeys keys
    if _h' : assetCacheKeys.length ≠ 0 then do
      let rest ← getAssetsFromCacheWithUnderlying assetCacheKeys (allCacheKeys ++ assetCacheKeys)
      return cachedAssets ++ rest
    else .ok cachedAssets
termination_by (toFollow cache allCacheKeys).card
decreasing_by exact toFollow_lt cache _h _h'

end

/-- `RangeError: Maximum call stack size exceeded`. -/
def rangeError : String := "RangeError"

/-- `getUnderlying`, with the calls that the stack has left. A call for no references does not
count. -/
def getUnderlying (cachedAssetsMap : AssetCacheKey → Option CachedAsset) :
    Nat → CachedAsset → Except String (List (Nat × AssetEntity))
  | 0, cachedAsset => cachedAsset.refs.mapM fun _ => .error rangeError
  | stack + 1, cachedAsset => cachedAsset.refs.mapM fun u => do
    let key ← cachedAsset.underlyingKey u
    match cachedAssetsMap key with
    | none => return (u.position, ⟨none, some []⟩)
    | some underlyingAssetDto =>
      let underlying ←
        if underlyingAssetDto.underlying.isSome then
          getUnderlying cachedAssetsMap stack underlyingAssetDto
        else pure []
      return (u.position, ⟨some underlyingAssetDto.asset, some underlying⟩)

/-- `cachedAssetsMap`. -/
def cachedAssetsMap (cachedAssets : List CachedAsset) : JsMap AssetCacheKey CachedAsset :=
  .ofEntries (cachedAssets.map fun a => (a.asset.key, a))

/-- The entity of a cached asset, if all its references have been followed. -/
def cachedAssetEntity (stack : Nat) (map : AssetCacheKey → Option CachedAsset) (a : CachedAsset) :
    Except String (Option AssetEntity) := do
  let underlying ← (if a.refs.length ≠ 0 then getUnderlying map stack a else .ok [])
  return if a.underlying.map List.length = some underlying.length then
    some ⟨some a.asset, some underlying⟩ else none

/-- `mapCachedAssetsToEntities`. -/
def mapCachedAssetsToEntities (stack : Nat) (cachedAssets : List CachedAsset) :
    Except String (List AssetEntity) := do
  let entities ← cachedAssets.mapM (cachedAssetEntity stack (cachedAssetsMap cachedAssets).get)
  return entities.reduceOption

/-- An entity is one that a request is for. -/
def isRequestMatchingEntity (request : AssetReference) (e : AssetEntity) : Prop :=
  ∃ asset ∈ e.asset, isRequestMatchingAsset request asset

instance : Decidable (isRequestMatchingEntity request e) :=
  inferInstanceAs (Decidable (∃ asset ∈ e.asset, isRequestMatchingAsset request asset))

def excludeAssetsByRequests (requests : List AssetReference) (assets : List AssetEntity) :
    List AssetEntity :=
  assets.filter fun asset => requests.any fun request => isRequestMatchingEntity request asset

def excludeFoundAssets (requests : List AssetReference) (assets : List AssetEntity) :
    List AssetReference :=
  requests.filter fun request => ¬ assets.any fun asset => isRequestMatchingEntity request asset

/-- `getCachedAssetsByAddressesAndChainIds`. -/
def getCachedAssetsByAddressesAndChainIds (stack : Nat) (cache : AssetCache)
    (requests : List AssetReference) : Except String (List AssetEntity) := do
  let cachedAssets ←
    getAssetsFromCacheWithUnderlying cache (requests.map AssetReference.key) []
  let assets ← mapCachedAssetsToEntities stack cachedAssets
  return excludeAssetsByRequests requests assets

/-! ## The system -/

/-- The database, the cache, and the items that are still to be written. -/
structure CacheState where
  db : Database
  cache : AssetCache
  pending : List (List CachedAsset)

namespace CacheState

/-- `findManyByAddressesAndChainIds`: the assets that it returns, first those from the cache and
then the ones it has loaded. -/
def findManyByAddressesAndChainIds (stack : Nat) (s : CacheState)
    (requests : List AssetReference) : Except String (List AssetEntity × List AssetEntity) := do
  let cachedAssets ← getCachedAssetsByAddressesAndChainIds stack s.cache requests
  let notCachedAssetsRequests := excludeFoundAssets requests cachedAssets
  return (cachedAssets,
    if notCachedAssetsRequests.length ≠ 0 then
      s.db.findManyByAddressesAndChainIds notCachedAssetsRequests
    else [])

/-- `saveAssetsToCache`, which nobody waits for. -/
def saveAssetsToCache (s : CacheState) (assetsToCache : List AssetEntity) : CacheState :=
  match cacheItems assetsToCache with
  | some items => { s with pending := s.pending ++ [items] }
  | none => s

end CacheState

inductive CacheAction
  | findMany (requests : List AssetReference)
  | findOne (request : AssetReference)
  | save (db : Database) (saved : AssetEntity)
  | write (i : Nat)
  | fail (i : Nat)
  | expire (key : AssetCacheKey)

/-- The steps of the repository. `save` returns any entity, and leaves any database behind. -/
def cacheStep (stack : Nat) (s : CacheState) : CacheAction → Option CacheState
  | .findMany requests =>
    match s.findManyByAddressesAndChainIds stack requests with
    | .ok (_, assetsToCache) => some (s.saveAssetsToCache assetsToCache)
    | .error _ => some s
  | .findOne request =>
    match s.cache.lookup request.key with
    | some _ => some s
    | none =>
      match (s.db.findOneByAddressAndChain request).bind AssetEntity.stored with
      | some asset => some { s with cache := s.cache.insert request.key asset }
      | none => some s
  | .save db saved => some ({ s with db := db }.saveAssetsToCache [saved])
  | .write i =>
    match s.pending[i]? with
    | some items => some { s with cache := s.cache.mset items, pending := s.pending.eraseIdx i }
    | none => none
  | .fail i =>
    if i < s.pending.length then some { s with pending := s.pending.eraseIdx i } else none
  | .expire key => some { s with cache := s.cache.erase key }

end Assets
end DefiBackend
