import DefiBackend.Assets.CachedAssets
import DefiBackend.Theory.Correspondence
import Mathlib.Logic.Relation

/-! # Trees of assets

* `SameTree`: an entity has the addresses and positions of an asset of the database, at every level.
* `Followed`: the keys that the reader follows from those it is given
  (`getAssetsFromCacheWithUnderlying_eq_ok`).
* What is built from the cache for an asset is its tree exactly when the cache has the asset, and
  all assets under it, with the references of the database (`sameTree_of_allStored`,
  `allStored_of_sameTree`). -/

namespace DefiBackend
namespace Assets
open Theory Relation

theorem isRequestMatchingAsset_iff {request asset : AssetReference} :
    isRequestMatchingAsset request asset ↔ request.key = asset.key := by
  rw [AssetReference.key, AssetReference.key, AssetCacheKey.mk.injEq]
  rfl

/-! ## Trees -/

section
variable (db : Database)

def address (i : Nat) : Address := (db.row i).asset.address

/-- The addresses and positions of an entity are those of an asset, down to a level. -/
def SameTo : Nat → AssetEntity → Nat → Prop
  | 0, e, i => e.asset.map AssetReference.address = some (address db i)
  | level + 1, e, i => e.asset.map AssetReference.address = some (address db i) ∧
    List.Forall₂ (fun link u => link.1 = u.position ∧ SameTo level link.2 u.underlyingAsset)
      e.links (db.row i).underlying

/-- An entity has the tree of an asset. -/
def SameTree (e : AssetEntity) (i : Nat) : Prop := ∀ level, SameTo db level e i

/-- The second asset is an underlying one of the first. -/
def HasUnderlying (i j : Nat) : Prop := ∃ u ∈ (db.row i).underlying, u.underlyingAsset = j

/-- There are at most so many levels under an asset. -/
def DepthLe : Nat → Nat → Prop
  | 0, i => (db.row i).underlying = []
  | depth + 1, i => ∀ u ∈ (db.row i).underlying, DepthLe depth u.underlyingAsset

end

variable {db : Database}

theorem sameTree_iff {e : AssetEntity} {i : Nat} :
    SameTree db e i ↔ e.asset.map AssetReference.address = some (address db i) ∧
      List.Forall₂ (fun link u => link.1 = u.position ∧ SameTree db link.2 u.underlyingAsset)
        e.links (db.row i).underlying := by
  constructor
  · intro h
    refine ⟨h 0, (forall₂_forall.mp fun n => (h (n + 1)).2).imp ?_⟩
    exact fun link u h => ⟨(h 0).1, fun n => (h n).2⟩
  · rintro ⟨haddress, h⟩ level
    cases level with
    | zero => exact haddress
    | succ level => exact ⟨haddress, h.imp fun link u h => ⟨h.1, h.2 level⟩⟩

theorem DepthLe.succ {depth i : Nat} (h : DepthLe db depth i) : DepthLe db (depth + 1) i := by
  induction depth generalizing i with
  | zero =>
    intro u hu
    change (db.row i).underlying = [] at h
    rw [h] at hu
    cases hu
  | succ depth ih => exact fun u hu => ih (h u hu)

theorem DepthLe.underlying {depth i : Nat} (h : DepthLe db depth i) {j : Nat}
    (hj : ReflTransGen (HasUnderlying db) i j) : DepthLe db depth j := by
  induction hj with
  | refl => exact h
  | tail _ hstep ih =>
    obtain ⟨u, hu, rfl⟩ := hstep
    exact ih.succ u hu

/-- What a query loads is the tree of an asset exactly when its relations go deep enough. -/
theorem sameTree_load {depth i : Nat} : SameTree db (db.load depth i) i ↔ DepthLe db depth i := by
  induction depth generalizing i with
  | zero =>
    rw [sameTree_iff]
    constructor
    · intro h
      exact List.forall₂_nil_left_iff.mp h.2
    · intro h
      refine ⟨rfl, ?_⟩
      rw [show (db.row i).underlying = [] from h]
      exact .nil
  | succ depth ih =>
    rw [sameTree_iff]
    constructor
    · rintro ⟨-, h⟩ u hu
      have hlinks : (db.load (depth + 1) i).links =
          (db.row i).underlying.map fun u => (u.position, db.load depth u.underlyingAsset) := rfl
      rw [hlinks, List.forall₂_map_left_iff, List.forall₂_same] at h
      exact ih.mp (h u hu).2
    · intro h
      refine ⟨rfl, ?_⟩
      have hlinks : (db.load (depth + 1) i).links =
          (db.row i).underlying.map fun u => (u.position, db.load depth u.underlyingAsset) := rfl
      rw [hlinks, List.forall₂_map_left_iff, List.forall₂_same]
      exact fun u hu => ⟨rfl, ih.mpr (h u hu)⟩

/-! ## What the reader follows -/

section
variable (cache : AssetCache)

/-- The entry of the first key refers to the second. -/
def Refers (k k' : AssetCacheKey) : Prop :=
  ∃ a, cache.lookup k = some a ∧ ∃ u ∈ a.refs, a.underlyingKey u = .ok k'

/-- All references of an entry lead to keys with a property. -/
def RefsTo (P : AssetCacheKey → Prop) (k : AssetCacheKey) : Prop :=
  ∀ a, cache.lookup k = some a → ∀ u ∈ a.refs, ∃ k', a.underlyingKey u = .ok k' ∧ P k'

/-- The keys that are followed from given ones. -/
structure Followed (cacheKeys allCacheKeys new : List AssetCacheKey) : Prop where
  nodup : new.Nodup
  notMem : ∀ k ∈ new, k ∉ allCacheKeys
  closed : ∀ k ∈ cacheKeys ++ new, RefsTo cache (· ∈ allCacheKeys ++ new) k
  reached : ∀ k ∈ new, ∃ k' ∈ cacheKeys, TransGen (Refers cache) k' k

end

variable {cache : AssetCache}

theorem mem_mget {keys : List AssetCacheKey} {a : CachedAsset} :
    a ∈ cache.mget keys ↔ ∃ k ∈ keys, cache.lookup k = some a := List.mem_filterMap

theorem mget_append (keys keys' : List AssetCacheKey) :
    cache.mget (keys ++ keys') = cache.mget keys ++ cache.mget keys' := List.filterMap_append ..

/-- The keys of a level are those of the references of its entries. -/
theorem levelKeys_eq_ok {level keys : List AssetCacheKey}
    (h : levelKeys (cache.mget level) = .ok keys) :
    (∀ k ∈ level, RefsTo cache (· ∈ keys) k) ∧ ∀ k ∈ keys, ∃ k' ∈ level, Refers cache k' k := by
  obtain ⟨keyss, hkeyss, h⟩ := bind_eq_ok.mp h
  cases h
  constructor
  · intro k hk a ha u hu
    have hmem : a ∈ cache.mget level := mem_mget.mpr ⟨k, hk, ha⟩
    obtain ⟨ks, hks⟩ := succeeds_mapM.mp ⟨_, hkeyss⟩ a hmem
    obtain ⟨k', hk'⟩ := succeeds_mapM.mp ⟨_, hks⟩ u hu
    refine ⟨k', hk', List.mem_flatten.mpr ⟨ks, (mem_of_mapM_ok hkeyss).mpr ⟨a, hmem, hks⟩, ?_⟩⟩
    exact (mem_of_mapM_ok hks).mpr ⟨u, hu, hk'⟩
  · intro k hk
    obtain ⟨ks, hks, hk⟩ := List.mem_flatten.mp hk
    obtain ⟨a, ha, hrefs⟩ := (mem_of_mapM_ok hkeyss).mp hks
    obtain ⟨u, hu, hkey⟩ := (mem_of_mapM_ok hrefs).mp hk
    obtain ⟨k', hk', ha⟩ := mem_mget.mp ha
    exact ⟨k', hk', a, ha, u, hu, hkey⟩

theorem levelKeys_succeeds {level : List AssetCacheKey} {P : AssetCacheKey → Prop}
    (h : ∀ k ∈ level, RefsTo cache P k) : Succeeds (levelKeys (cache.mget level)) := by
  refine (succeeds_bind_of_forall fun _ => succeeds_pure).mpr (succeeds_mapM.mpr fun a ha => ?_)
  obtain ⟨k, hk, ha⟩ := mem_mget.mp ha
  refine succeeds_mapM.mpr fun u hu => ?_
  obtain ⟨k', hk', -⟩ := h k hk a ha u hu
  exact ⟨k', hk'⟩

theorem RefsTo.imp {P Q : AssetCacheKey → Prop} {k : AssetCacheKey} (h : RefsTo cache P k)
    (hPQ : ∀ k, P k → Q k) : RefsTo cache Q k := by
  intro a ha u hu
  obtain ⟨k', hk', hP⟩ := h a ha u hu
  exact ⟨k', hk', hPQ k' hP⟩

theorem getAssetsFromCacheWithUnderlying_eq (cacheKeys allCacheKeys : List AssetCacheKey) :
    getAssetsFromCacheWithUnderlying cache cacheKeys allCacheKeys =
      (levelKeys (cache.mget cacheKeys) >>= fun keys =>
        if (fresh allCacheKeys keys).length ≠ 0 then do
          let rest ← getAssetsFromCacheWithUnderlying cache (fresh allCacheKeys keys)
            (allCacheKeys ++ fresh allCacheKeys keys)
          return cache.mget cacheKeys ++ rest
        else .ok (cache.mget cacheKeys)) := by
  rw [getAssetsFromCacheWithUnderlying]
  split
  next e herror => rw [herror]; rfl
  next keys hkeys =>
    rw [hkeys]
    change dite _ _ _ = ite _ _ _
    split <;> rfl

/-- The keys of a level, and those that are followed from them. -/
theorem Followed.append {level allCacheKeys keys new : List AssetCacheKey}
    (hkeys : levelKeys (cache.mget level) = .ok keys)
    (hnew : Followed cache (fresh allCacheKeys keys) (allCacheKeys ++ fresh allCacheKeys keys) new) :
    Followed cache level allCacheKeys (fresh allCacheKeys keys ++ new) := by
  obtain ⟨hrefs, hof⟩ := levelKeys_eq_ok hkeys
  constructor
  case nodup =>
    refine List.nodup_append.mpr ⟨nodup_fresh .., hnew.nodup, ?_⟩
    rintro k hk k' hk' rfl
    exact hnew.notMem k hk' (List.mem_append_right _ hk)
  case notMem =>
    intro k hk
    rcases List.mem_append.mp hk with hk | hk
    · exact (mem_fresh.mp hk).2
    · exact fun hall => hnew.notMem k hk (List.mem_append_left _ hall)
  case closed =>
    intro k hk
    rw [← List.append_assoc]
    rcases List.mem_append.mp hk with hk | hk
    · refine (hrefs k hk).imp fun k' hk' => List.mem_append_left _ ?_
      by_cases hall : k' ∈ allCacheKeys
      · exact List.mem_append_left _ hall
      · exact List.mem_append_right _ (mem_fresh.mpr ⟨hk', hall⟩)
    · exact hnew.closed k hk
  case reached =>
    have hfresh : ∀ k ∈ fresh allCacheKeys keys, ∃ k' ∈ level, Refers cache k' k :=
      fun k hk => hof k (mem_fresh.mp hk).1
    intro k hk
    rcases List.mem_append.mp hk with hk | hk
    · obtain ⟨k', hk', hstep⟩ := hfresh k hk
      exact ⟨k', hk', .single hstep⟩
    · obtain ⟨k₁, hk₁, hreach⟩ := hnew.reached k hk
      obtain ⟨k', hk', hstep⟩ := hfresh k₁ hk₁
      exact ⟨k', hk', .head hstep hreach⟩

/-- A level whose references all lead to keys that have been followed. -/
theorem Followed.nil {level allCacheKeys keys : List AssetCacheKey}
    (hkeys : levelKeys (cache.mget level) = .ok keys)
    (hnil : fresh allCacheKeys keys = []) : Followed cache level allCacheKeys [] where
  nodup := .nil
  notMem := fun k hk => by cases hk
  closed := by
    intro k hk
    rw [List.append_nil] at hk ⊢
    refine ((levelKeys_eq_ok hkeys).1 k hk).imp fun k' hk' => ?_
    by_contra hall
    have hmem : k' ∈ fresh allCacheKeys keys := mem_fresh.mpr ⟨hk', hall⟩
    rw [hnil] at hmem
    cases hmem
  reached := fun k hk => by cases hk

/-- What the reader returns are the entries of the keys it has been given and has followed. -/
theorem getAssetsFromCacheWithUnderlying_eq_ok (cacheKeys allCacheKeys : List AssetCacheKey)
    {assets : List CachedAsset}
    (h : getAssetsFromCacheWithUnderlying cache cacheKeys allCacheKeys = .ok assets) :
    ∃ new, Followed cache cacheKeys allCacheKeys new ∧
      assets = cache.mget (cacheKeys ++ new) := by
  induction cacheKeys, allCacheKeys using getAssetsFromCacheWithUnderlying.induct cache
    generalizing assets with
  | case1 cacheKeys allCacheKeys cachedAssets e =>
    rename_i herror
    rw [getAssetsFromCacheWithUnderlying_eq, herror] at h
    cases h
  | case2 cacheKeys allCacheKeys cachedAssets keys hkeys assetCacheKeys hne =>
    rename_i ih
    rw [getAssetsFromCacheWithUnderlying_eq, hkeys, ok_bind, if_pos hne] at h
    obtain ⟨rest, hrest, h⟩ := bind_eq_ok.mp h
    cases h
    obtain ⟨new, hnew, rfl⟩ := ih hrest
    exact ⟨assetCacheKeys ++ new, hnew.append hkeys, (mget_append ..).symm⟩
  | case3 cacheKeys allCacheKeys cachedAssets keys hkeys assetCacheKeys =>
    rename_i hnil
    rw [getAssetsFromCacheWithUnderlying_eq, hkeys, ok_bind, if_neg hnil] at h
    cases h
    have hfresh : fresh allCacheKeys keys = [] := List.length_eq_zero_iff.mp (not_not.mp hnil)
    exact ⟨[], .nil hkeys hfresh, by rw [List.append_nil]⟩

/-- The reader comes to its end when all it can reach refers to keys. -/
theorem getAssetsFromCacheWithUnderlying_succeeds (P : AssetCacheKey → Prop)
    (hP : ∀ k, P k → RefsTo cache P k) (cacheKeys allCacheKeys : List AssetCacheKey)
    (h : ∀ k ∈ cacheKeys, P k) :
    Succeeds (getAssetsFromCacheWithUnderlying cache cacheKeys allCacheKeys) := by
  induction cacheKeys, allCacheKeys using getAssetsFromCacheWithUnderlying.induct cache with
  | case1 cacheKeys allCacheKeys cachedAssets e =>
    rename_i herror
    obtain ⟨keys, hkeys⟩ := levelKeys_succeeds fun k hk => hP k (h k hk)
    rw [herror] at hkeys
    cases hkeys
  | case2 cacheKeys allCacheKeys cachedAssets keys hkeys assetCacheKeys hne =>
    rename_i ih
    rw [getAssetsFromCacheWithUnderlying_eq, hkeys, ok_bind, if_pos hne]
    refine (succeeds_bind_of_forall fun _ => succeeds_pure).mpr (ih fun k hk => ?_)
    obtain ⟨k', hk', a, ha, u, hu, hkey⟩ := (levelKeys_eq_ok hkeys).2 k (mem_fresh.mp hk).1
    obtain ⟨k₁, hk₁, hP₁⟩ := hP k' (h k' hk') a ha u hu
    rw [hkey] at hk₁
    cases hk₁
    exact hP₁
  | case3 cacheKeys allCacheKeys cachedAssets keys hkeys assetCacheKeys =>
    rename_i hnil
    rw [getAssetsFromCacheWithUnderlying_eq, hkeys, ok_bind, if_neg hnil]
    exact succeeds_ok

/-! ## Trees from the cache -/

/-- Every asset is stored under its own key. -/
def KeysMatch (cache : AssetCache) : Prop :=
  ∀ k a, cache.lookup k = some a → a.asset.key = k

/-- The key of an asset of the database on a chain. -/
def keyOn (db : Database) (chain i : Nat) : AssetCacheKey :=
  AssetReference.key ⟨chain, address db i⟩

/-- The cache has an asset, on a chain, with the references that the database has. -/
def Stored (db : Database) (cache : AssetCache) (chain i : Nat) : Prop :=
  ∃ a, cache.lookup (keyOn db chain i) = some a ∧ a.asset = ⟨chain, address db i⟩ ∧
    List.Forall₂ (fun ref u => ref.position = u.position ∧
      a.underlyingKey ref = .ok (keyOn db chain u.underlyingAsset)) a.refs (db.row i).underlying

/-- An asset and all assets under it are stored. -/
def AllStored (db : Database) (cache : AssetCache) (chain i : Nat) : Prop :=
  ∀ j, ReflTransGen (HasUnderlying db) i j → Stored db cache chain j

theorem AllStored.underlying {chain i j : Nat} (h : AllStored db cache chain i)
    (hij : HasUnderlying db i j) : AllStored db cache chain j :=
  fun k hjk => h k (.head hij hjk)

theorem underlyingKey_chain {a : CachedAsset} {ref : CachedUnderlying} {k : AssetCacheKey}
    (h : a.underlyingKey ref = .ok k) : k.chainId = a.asset.chainId := by
  rw [CachedAsset.underlyingKey] at h
  cases haddress : ref.address with
  | none => rw [haddress] at h; cases h
  | some address => rw [haddress] at h; cases h; rfl

/-- The underlying asset that a reference leads to, when there is a call left for it. -/
def followRef (map : AssetCacheKey → Option CachedAsset) (stack : Nat) (a : CachedAsset)
    (ref : CachedUnderlying) : Except String (Nat × AssetEntity) := do
  let key ← a.underlyingKey ref
  match map key with
  | none => return (ref.position, ⟨none, some []⟩)
  | some b =>
    let underlying ← getUnderlying map stack b
    return (ref.position, ⟨some b.asset, some underlying⟩)

theorem getUnderlying_succ (map : AssetCacheKey → Option CachedAsset) (stack : Nat)
    (a : CachedAsset) : getUnderlying map (stack + 1) a = a.refs.mapM (followRef map stack a) := by
  rw [getUnderlying]
  congr 1
  funext ref
  rw [followRef]
  congr 1
  funext key
  cases map key with
  | none => rfl
  | some b =>
    obtain ⟨asset, underlying⟩ := b
    cases underlying with
    | none => cases stack <;> rfl
    | some us => rfl

theorem followRef_eq_ok {map : AssetCacheKey → Option CachedAsset} {stack : Nat}
    {a : CachedAsset} {ref : CachedUnderlying} {link : Nat × AssetEntity} {asset : AssetReference}
    (hasset : link.2.asset = some asset) :
    followRef map stack a ref = .ok link ↔ ∃ key b underlying, a.underlyingKey ref = .ok key ∧
      map key = some b ∧ getUnderlying map stack b = .ok underlying ∧
        link = (ref.position, ⟨some b.asset, some underlying⟩) := by
  rw [followRef]
  constructor
  · intro h
    obtain ⟨key, hkey, h⟩ := bind_eq_ok.mp h
    cases hb : map key with
    | none =>
      rw [hb] at h
      cases h
      cases hasset
    | some b =>
      rw [hb] at h
      obtain ⟨underlying, hunderlying, h⟩ := bind_eq_ok.mp h
      cases h
      exact ⟨key, b, underlying, hkey, hb, hunderlying, rfl⟩
  · rintro ⟨key, b, underlying, hkey, hb, hunderlying, rfl⟩
    rw [hkey, ok_bind, hb]
    change (getUnderlying map stack b >>= _) = _
    rw [hunderlying]
    rfl

/-- What is built from the cache for an asset that is stored with all assets under it. -/
theorem sameTree_of_allStored {chain : Nat} {stack i : Nat} (hall : AllStored db cache chain i)
    (hdepth : DepthLe db stack i) {a : CachedAsset}
    (ha : cache.lookup (keyOn db chain i) = some a) :
    ∃ underlying, getUnderlying (fun k => cache.lookup k) stack a = .ok underlying ∧
      SameTree db ⟨some a.asset, some underlying⟩ i := by
  induction stack generalizing i a with
  | zero =>
    obtain ⟨a', ha', hasset, hrefs⟩ := hall i .refl
    rw [ha] at ha'
    cases ha'
    rw [show (db.row i).underlying = [] from hdepth] at hrefs
    have hnil : a.refs = [] := List.forall₂_nil_right_iff.mp hrefs
    refine ⟨[], by rw [getUnderlying, hnil]; rfl, sameTree_iff.mpr ⟨?_, ?_⟩⟩
    · rw [hasset]
      rfl
    · rw [show (db.row i).underlying = [] from hdepth]
      exact .nil
  | succ stack ih =>
    obtain ⟨a', ha', hasset, hrefs⟩ := hall i .refl
    rw [ha] at ha'
    cases ha'
    have hlinks : List.Forall₂ (fun ref u => ∃ link,
        followRef (fun k => cache.lookup k) stack a ref = .ok link ∧
          link.1 = u.position ∧ SameTree db link.2 u.underlyingAsset)
        a.refs (db.row i).underlying := by
      refine (forall₂_mem_right hrefs).imp fun ref u h => ?_
      obtain ⟨hu, hposition, hkey⟩ := h
      have hall' := hall.underlying ⟨u, hu, rfl⟩
      obtain ⟨b, hb, -⟩ := hall' u.underlyingAsset .refl
      obtain ⟨underlying, hunderlying, htree⟩ := ih hall' (hdepth u hu) hb
      refine ⟨(ref.position, ⟨some b.asset, some underlying⟩), ?_, hposition, htree⟩
      exact (followRef_eq_ok rfl).mpr ⟨_, b, underlying, hkey, hb, hunderlying, rfl⟩
    obtain ⟨underlying, hmap, hunderlying⟩ := forall₂_through.mpr hlinks
    refine ⟨underlying, ?_, sameTree_iff.mpr ⟨?_, hunderlying⟩⟩
    · rw [getUnderlying_succ]
      exact mapM_forall₂.mpr hmap
    · rw [hasset]
      rfl

theorem AllStored.intro {chain i : Nat} (hi : Stored db cache chain i)
    (h : ∀ u ∈ (db.row i).underlying, AllStored db cache chain u.underlyingAsset) :
    AllStored db cache chain i := by
  intro j hj
  rcases ReflTransGen.cases_head hj with rfl | ⟨k, ⟨u, hu, rfl⟩, hkj⟩
  · exact hi
  · exact h u hu j hkj

theorem SameTree.asset_eq {a : CachedAsset} {i : Nat}
    {underlying : Option (List (Nat × AssetEntity))}
    (h : SameTree db ⟨some a.asset, underlying⟩ i) :
    a.asset = ⟨a.asset.chainId, address db i⟩ := by
  rw [← Option.some.inj (h 0)]

/-- An asset whose tree is built from the cache is stored with all assets under it. -/
theorem allStored_of_sameTree (hkeys : KeysMatch cache) {stack i : Nat} {a : CachedAsset}
    (ha : cache.lookup a.asset.key = some a) {underlying : List (Nat × AssetEntity)}
    (hunderlying : getUnderlying (fun k => cache.lookup k) stack a = .ok underlying)
    (htree : SameTree db ⟨some a.asset, some underlying⟩ i) :
    AllStored db cache a.asset.chainId i ∧ DepthLe db stack i := by
  have hlookup : cache.lookup (keyOn db a.asset.chainId i) = some a := by
    rw [keyOn, ← htree.asset_eq]
    exact ha
  have hlinks := (sameTree_iff.mp htree).2
  cases stack with
  | zero =>
    have hnil : a.refs = [] := by
      rw [getUnderlying] at hunderlying
      cases hrefs : a.refs with
      | nil => rfl
      | cons ref refs =>
        rw [hrefs, List.mapM_cons] at hunderlying
        cases hunderlying
    rw [getUnderlying, hnil] at hunderlying
    cases hunderlying
    have hrow : (db.row i).underlying = [] := List.forall₂_nil_left_iff.mp hlinks
    refine ⟨.intro ⟨a, hlookup, htree.asset_eq, ?_⟩ fun u hu => ?_, hrow⟩
    · rw [hnil, hrow]
      exact .nil
    · rw [hrow] at hu
      cases hu
  | succ stack =>
    rw [getUnderlying_succ, mapM_forall₂] at hunderlying
    have hchild : List.Forall₂ (fun ref u => (ref.position = u.position ∧
        a.underlyingKey ref = .ok (keyOn db a.asset.chainId u.underlyingAsset)) ∧
          AllStored db cache a.asset.chainId u.underlyingAsset ∧
            DepthLe db stack u.underlyingAsset) a.refs (db.row i).underlying := by
      refine (forall₂_through.mp ⟨underlying, hunderlying, hlinks⟩).imp fun ref u h => ?_
      obtain ⟨⟨position, e⟩, hfollow, hposition, htree'⟩ := h
      obtain ⟨asset, hasset, -⟩ := Option.map_eq_some_iff.mp (htree' 0)
      obtain ⟨key, b, us, hkey, hb, hus, hlink⟩ := (followRef_eq_ok hasset).mp hfollow
      cases hlink
      have hkeyb : b.asset.key = key := hkeys key b hb
      have hchain : b.asset.chainId = a.asset.chainId := by
        rw [← underlyingKey_chain hkey, ← hkeyb]
        rfl
      have hkeyOn : key = keyOn db a.asset.chainId u.underlyingAsset := by
        rw [keyOn, ← hkeyb, ← hchain, ← htree'.asset_eq]
      have hb' : cache.lookup b.asset.key = some b := hkeyb ▸ hb
      refine ⟨⟨hposition, hkeyOn ▸ hkey⟩, ?_⟩
      rw [← hchain]
      exact allStored_of_sameTree hkeys hb' hus htree'
    refine ⟨.intro ⟨a, hlookup, htree.asset_eq, hchild.imp fun _ _ h => h.1⟩ fun u hu => ?_,
      fun u hu => ?_⟩
    · obtain ⟨ref, -, h⟩ := exists_of_mem_right hchild hu
      exact h.2.1
    · obtain ⟨ref, -, h⟩ := exists_of_mem_right hchild hu
      exact h.2.2

end Assets
end DefiBackend
