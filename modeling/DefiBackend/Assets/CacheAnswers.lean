import DefiBackend.Assets.CacheEntities

/-! # Answers of the cached repository

When the answer of `findManyByAddressesAndChainIds` is that of the database (`Refines`): the entries
that serve a request are those of the database, with all assets under them, each is read once, and
what is loaded has no more levels than the query (`Served`). Proved for every cache
(`answers_iff_served`), and so for every run of calls (`refinesDatabase_iff_served`). -/

namespace DefiBackend
namespace Assets
open Theory Relation

variable {db : Database} {cache : AssetCache} {stack : Nat} {requests : List AssetReference}

/-! ## Answers -/

/-- An answer has every requested asset once, and nothing else, each with its tree. -/
structure Refines (db : Database) (requests : List AssetReference) (answer : List AssetEntity) :
    Prop where
  once : ∀ i ∈ db.ids, Requested requests (db.row i).asset →
    answer.countP (fun e => e.asset = some (db.row i).asset) = 1
  tree : ∀ e ∈ answer, ∃ i ∈ db.ids, Requested requests (db.row i).asset ∧
    e.asset = some (db.row i).asset ∧ SameTree db e i

/-- A requested asset of the database for which the cache has an entry with references. -/
structure FromCache (db : Database) (cache : AssetCache) (requests : List AssetReference)
    (i : Nat) : Prop where
  mem : i ∈ db.ids
  requested : Requested requests (db.row i).asset
  servable : Servable cache (db.row i).asset.key

/-- The entries that serve a request are those of the database, each is read once, and what is not
served is loaded with all its levels. -/
structure Served (db : Database) (cache : AssetCache) (stack : Nat)
    (requests : List AssetReference) : Prop where
  once : ∀ r ∈ requests, Servable cache r.key → (requestKeys requests).count r.key = 1
  exists_row : ∀ r ∈ requests, Servable cache r.key → ∃ i ∈ db.ids, (db.row i).asset.key = r.key
  stored : ∀ i, FromCache db cache requests i → AllStored db cache (db.row i).asset.chainId i
  fits : ∀ i, FromCache db cache requests i → DepthLe db stack i
  apart : ∀ i j, FromCache db cache requests i → FromCache db cache requests j →
    ∀ k, TransGen (HasUnderlying db) i k →
      keyOn db (db.row i).asset.chainId k ≠ (db.row j).asset.key
  loaded : ∀ i ∈ db.ids, Requested requests (db.row i).asset →
    ¬ Servable cache (db.row i).asset.key → DepthLe db Database.relationsDepth i

theorem keyOn_self (db : Database) (i : Nat) :
    keyOn db (db.row i).asset.chainId i = (db.row i).asset.key := rfl

/-- Below an asset that is stored with all under it, the references are the underlying assets. -/
theorem refers_iff {chain i : Nat} (h : Stored db cache chain i) {k : AssetCacheKey} :
    Refers cache (keyOn db chain i) k ↔ ∃ j, HasUnderlying db i j ∧ k = keyOn db chain j := by
  obtain ⟨a, ha, -, hrefs⟩ := h
  constructor
  · rintro ⟨a', ha', ref, href, hkey⟩
    rw [ha] at ha'
    cases ha'
    obtain ⟨u, hu, -, hkey'⟩ := exists_of_mem_left hrefs href
    rw [hkey] at hkey'
    exact ⟨u.underlyingAsset, ⟨u, hu, rfl⟩, Except.ok.inj hkey'⟩
  · rintro ⟨j, ⟨u, hu, rfl⟩, rfl⟩
    obtain ⟨ref, href, -, hkey⟩ := exists_of_mem_right hrefs hu
    exact ⟨a, ha, ref, href, hkey⟩

theorem transGen_refers_iff {chain i : Nat} (h : AllStored db cache chain i) {k : AssetCacheKey} :
    TransGen (Refers cache) (keyOn db chain i) k ↔
      ∃ j, TransGen (HasUnderlying db) i j ∧ k = keyOn db chain j := by
  constructor
  · intro hk
    induction hk with
    | single hstep =>
      obtain ⟨j, hj, rfl⟩ := (refers_iff (h i .refl)).mp hstep
      exact ⟨j, .single hj, rfl⟩
    | tail _ hstep ih =>
      obtain ⟨j, hj, rfl⟩ := ih
      obtain ⟨j', hj', rfl⟩ := (refers_iff (h j hj.to_reflTransGen)).mp hstep
      exact ⟨j', hj.tail hj', rfl⟩
  · rintro ⟨j, hj, rfl⟩
    induction hj with
    | single hstep => exact .single ((refers_iff (h i .refl)).mpr ⟨_, hstep, rfl⟩)
    | tail hj hstep ih =>
      exact .tail ih ((refers_iff (h _ hj.to_reflTransGen)).mpr ⟨_, hstep, rfl⟩)

/-- Whatever a key that is read refers to, directly or not, is followed. -/
theorem Followed.mem_new {keys new : List AssetCacheKey} (h : Followed cache keys [] new)
    {k k' : AssetCacheKey} (hk : k ∈ keys) (hkk' : TransGen (Refers cache) k k') : k' ∈ new := by
  have hstep {k k'} (hk : k ∈ keys ++ new) (hrefers : Refers cache k k') : k' ∈ new := by
    obtain ⟨a, ha, u, hu, hkey⟩ := hrefers
    obtain ⟨k₁, hk₁, hmem⟩ := h.closed k hk a ha u hu
    rw [hkey] at hk₁
    cases hk₁
    exact hmem
  induction hkk' with
  | single hrefers => exact hstep (List.mem_append_left _ hk) hrefers
  | tail _ hrefers ih => exact hstep (List.mem_append_right _ ih) hrefers

/-- A call answers from a cache, and from the database. -/
def Answers (db : Database) (cache : AssetCache) (stack : Nat) (requests : List AssetReference) :
    Prop :=
  ∃ found, getCachedAssetsByAddressesAndChainIds stack cache requests = .ok found ∧
    Refines db requests (found ++ loadedAssets db (excludeFoundAssets requests found))

section
variable {new : List AssetCacheKey} {found : List AssetEntity}

/-- The entry of a request for which the answer is right. -/
theorem Refines.entry (hkeys : KeysMatch cache) (H : Finds cache stack requests new found)
    (R : Refines db requests (found ++ loadedAssets db (excludeFoundAssets requests found)))
    {r : AssetReference} (hr : r ∈ requests) {a : CachedAsset} (ha : cache.lookup r.key = some a)
    (hloaded : a.underlying.isSome) :
    ∃ i ∈ db.ids, (db.row i).asset = a.asset ∧ AllStored db cache (db.row i).asset.chainId i ∧
      DepthLe db stack i ∧ (requestKeys requests).count r.key = 1 ∧ r.key ∉ new := by
  have hrkey : r.key ∈ requestKeys requests := List.mem_map.mpr ⟨r, hr, rfl⟩
  have hmem : a ∈ cache.mget (requestKeys requests ++ new) :=
    mem_mget.mpr ⟨r.key, List.mem_append_left _ hrkey, ha⟩
  obtain ⟨us, hus, -⟩ := H.builtEntity_eq hmem hloaded
  have hfound : ⟨some a.asset, some us⟩ ∈ found :=
    (H.mem_found hkeys).mpr ⟨r, hr, a, us, ha, hloaded, hus, rfl⟩
  obtain ⟨i, hi, hreq, hasset, htree⟩ := R.tree _ (List.mem_append_left _ hfound)
  have hasset' : (db.row i).asset = a.asset := (Option.some.inj hasset).symm
  have hself : cache.lookup a.asset.key = some a := by rw [hkeys _ a ha]; exact ha
  obtain ⟨hall, hdepth⟩ := allStored_of_sameTree hkeys hself hus htree
  have hcount := R.once i hi hreq
  rw [List.countP_append, hasset', H.countP_found hkeys hr ha hloaded, List.count_append] at hcount
  have hpos : 0 < (requestKeys requests).count r.key := List.count_pos_iff.mpr hrkey
  refine ⟨i, hi, hasset', hasset' ▸ hall, hdepth, by omega, fun hnew => ?_⟩
  have hpos' : 0 < new.count r.key := List.count_pos_iff.mpr hnew
  omega

/-- A requested asset of the database is the one that its entry has. -/
theorem Refines.fromCache (hkeys : KeysMatch cache) (H : Finds cache stack requests new found)
    (R : Refines db requests (found ++ loadedAssets db (excludeFoundAssets requests found)))
    {i : Nat} (hi : FromCache db cache requests i) :
    AllStored db cache (db.row i).asset.chainId i ∧ DepthLe db stack i ∧
      (db.row i).asset.key ∉ new := by
  obtain ⟨r, hr, hkey⟩ := hi.requested
  obtain ⟨a, ha, hloaded⟩ := hi.servable
  obtain ⟨i', hi', hasset', hall, hdepth, -, hnew⟩ := R.entry hkeys H hr (hkey ▸ ha) hloaded
  have hpos : 0 < (found ++ loadedAssets db (excludeFoundAssets requests found)).countP
      fun e => e.asset = some (db.row i).asset := by
    rw [R.once i hi.mem hi.requested]
    exact Nat.one_pos
  obtain ⟨e, he, hasset⟩ := List.countP_pos_iff.mp hpos
  have hasset := of_decide_eq_true hasset
  have heq : (db.row i).asset = a.asset := by
    rcases List.mem_append.mp he with he | he
    · obtain ⟨r', -, a', us, ha', -, -, rfl⟩ := (H.mem_found hkeys).mp he
      have hasset' : a'.asset = (db.row i).asset := Option.some.inj hasset
      rw [← hkeys _ a' ha', hasset', ha] at ha'
      cases ha'
      exact hasset'.symm
    · obtain ⟨i₂, hi₂, ⟨r₂, hr₂, hkey₂⟩, rfl⟩ := mem_loadedAssets.mp he
      rw [load_asset] at hasset
      refine absurd hi.servable ?_
      rw [← Option.some.inj hasset, ← hkey₂]
      exact ((H.mem_excludeFoundAssets hkeys).mp hr₂).2
  obtain rfl : i' = i := db.unique i' hi' i hi.mem (hasset'.trans heq.symm)
  exact ⟨hall, hdepth, hkey ▸ hnew⟩

theorem Refines.served (hkeys : KeysMatch cache) (H : Finds cache stack requests new found)
    (R : Refines db requests (found ++ loadedAssets db (excludeFoundAssets requests found))) :
    Served db cache stack requests where
  once := by
    rintro r hr ⟨a, ha, hloaded⟩
    obtain ⟨_, -, -, -, -, hcount, -⟩ := R.entry hkeys H hr ha hloaded
    exact hcount
  exists_row := by
    rintro r hr ⟨a, ha, hloaded⟩
    obtain ⟨i, hi, hasset, -⟩ := R.entry hkeys H hr ha hloaded
    exact ⟨i, hi, by rw [hasset, hkeys _ a ha]⟩
  stored := fun i hi => (R.fromCache hkeys H hi).1
  fits := fun i hi => (R.fromCache hkeys H hi).2.1
  apart := by
    intro i j hi hj k hik heq
    obtain ⟨hall, -, -⟩ := R.fromCache hkeys H hi
    obtain ⟨r, hr, hkey⟩ := hi.requested
    have hrefers := (transGen_refers_iff hall).mpr ⟨k, hik, rfl⟩
    rw [keyOn_self, ← hkey, heq] at hrefers
    exact (R.fromCache hkeys H hj).2.2
      (H.followed.mem_new (List.mem_map.mpr ⟨r, hr, rfl⟩) hrefers)
  loaded := by
    intro i hi hreq hnot
    have hpos : 0 < (found ++ loadedAssets db (excludeFoundAssets requests found)).countP
        fun e => e.asset = some (db.row i).asset := by
      rw [R.once i hi hreq]
      exact Nat.one_pos
    obtain ⟨e, he, hasset⟩ := List.countP_pos_iff.mp hpos
    have hasset := of_decide_eq_true hasset
    rcases List.mem_append.mp he with hfound | hloaded
    · obtain ⟨r', -, a', us, ha', hloaded, -, rfl⟩ := (H.mem_found hkeys).mp hfound
      have hasset' : a'.asset = (db.row i).asset := Option.some.inj hasset
      rw [← hkeys _ a' ha', hasset'] at ha'
      exact absurd ⟨a', ha', hloaded⟩ hnot
    · obtain ⟨i₂, hi₂, -, rfl⟩ := mem_loadedAssets.mp hloaded
      obtain ⟨i₃, hi₃, -, hasset₃, htree⟩ := R.tree _ he
      rw [hasset] at hasset₃
      rw [load_asset] at hasset
      obtain rfl := db.unique i₂ hi₂ i hi (Option.some.inj hasset)
      obtain rfl := db.unique i₃ hi₃ i₂ hi (Option.some.inj hasset₃).symm
      exact sameTree_load.mp htree

end

/-- A key that a call reads: it has no references, or belongs under an asset that is served. -/
def Reads (db : Database) (cache : AssetCache) (requests : List AssetReference)
    (k : AssetCacheKey) : Prop :=
  (∀ a, cache.lookup k = some a → a.refs = []) ∨
    ∃ i j, FromCache db cache requests i ∧ ReflTransGen (HasUnderlying db) i j ∧
      k = keyOn db (db.row i).asset.chainId j

section
variable (S : Served db cache stack requests)
include S

theorem Served.fromCache {r : AssetReference} (hr : r ∈ requests) (h : Servable cache r.key) :
    ∃ i, FromCache db cache requests i ∧ (db.row i).asset.key = r.key := by
  obtain ⟨i, hi, hkey⟩ := S.exists_row r hr h
  exact ⟨i, ⟨hi, ⟨r, hr, hkey.symm⟩, hkey ▸ h⟩, hkey⟩

theorem Served.reads_of_request {r : AssetReference} (hr : r ∈ requests) :
    Reads db cache requests r.key := by
  by_cases h : Servable cache r.key
  · obtain ⟨i, hi, hkey⟩ := S.fromCache hr h
    exact .inr ⟨i, i, hi, .refl, hkey.symm⟩
  · refine .inl fun a ha => ?_
    obtain ⟨asset, underlying⟩ := a
    cases underlying with
    | none => rfl
    | some us => exact absurd ⟨_, ha, rfl⟩ h

theorem Served.refsTo (k : AssetCacheKey) (hk : Reads db cache requests k) :
    RefsTo cache (Reads db cache requests) k := by
  intro a ha u hu
  rcases hk with hnil | ⟨i, j, hi, hij, rfl⟩
  · rw [hnil a ha] at hu
    cases hu
  · obtain ⟨a', ha', -, hrefs⟩ := S.stored i hi j hij
    rw [ha] at ha'
    cases ha'
    obtain ⟨u', hu', -, hkey⟩ := exists_of_mem_left hrefs hu
    exact ⟨_, hkey, .inr ⟨i, u'.underlyingAsset, hi, hij.tail ⟨u', hu', rfl⟩, rfl⟩⟩

theorem Served.succeeds (k : AssetCacheKey) (a : CachedAsset)
    (hk : Reads db cache requests k) (ha : cache.lookup k = some a) :
    Succeeds (getUnderlying (fun k => cache.lookup k) stack a) := by
  rcases hk with hnil | ⟨i, j, hi, hij, rfl⟩
  · refine ⟨[], ?_⟩
    cases stack with
    | zero => rw [getUnderlying, hnil a ha]; rfl
    | succ stack => rw [getUnderlying_succ, hnil a ha]; rfl
  · have hall : AllStored db cache (db.row i).asset.chainId j :=
      fun k hk => S.stored i hi k (hij.trans hk)
    obtain ⟨us, hus, -⟩ := sameTree_of_allStored hall ((S.fits i hi).underlying hij) ha
    exact ⟨us, hus⟩

end

/-- A served key is not followed again. -/
theorem Served.notMem_new (S : Served db cache stack requests) {new : List AssetCacheKey}
    {found : List AssetEntity} (H : Finds cache stack requests new found) {i : Nat}
    (hi : FromCache db cache requests i) : (db.row i).asset.key ∉ new := by
  intro hnew
  obtain ⟨k, hk, hreached⟩ := H.followed.reached _ hnew
  obtain ⟨r, hr, rfl⟩ := List.mem_map.mp hk
  have hservable : Servable cache r.key := by
    obtain ⟨k', ⟨a, ha, u, hu, -⟩, -⟩ := TransGen.head'_iff.mp hreached
    refine ⟨a, ha, ?_⟩
    obtain ⟨asset, underlying⟩ := a
    cases underlying with
    | none => cases hu
    | some us => rfl
  obtain ⟨j, hj, hkey⟩ := S.fromCache hr hservable
  rw [← hkey, ← keyOn_self] at hreached
  obtain ⟨k, hjk, heq⟩ := (transGen_refers_iff (S.stored j hj)).mp hreached
  exact S.apart j i hj hi k hjk heq.symm

theorem Served.refines (S : Served db cache stack requests) (hkeys : KeysMatch cache)
    {new : List AssetCacheKey} {found : List AssetEntity}
    (H : Finds cache stack requests new found) :
    Refines db requests (found ++ loadedAssets db (excludeFoundAssets requests found)) where
  once := by
    intro i hi hreq
    rw [List.countP_append]
    obtain ⟨r, hr, hkey⟩ := hreq
    by_cases hservable : Servable cache (db.row i).asset.key
    · have hfrom : FromCache db cache requests i := ⟨hi, ⟨r, hr, hkey⟩, hservable⟩
      obtain ⟨a, ha, hasset, -⟩ := S.stored i hfrom i .refl
      rw [keyOn_self, ← hkey] at ha
      obtain ⟨a', ha', hloaded⟩ := hservable
      rw [← hkey, ha] at ha'
      cases ha'
      have hfound := H.countP_found hkeys hr ha hloaded
      rw [List.count_append, S.once r hr ⟨a, ha, hloaded⟩, hkey,
        List.count_eq_zero.mpr (S.notMem_new H hfrom), hasset] at hfound
      rw [show (db.row i).asset = ⟨(db.row i).asset.chainId, address db i⟩ from rfl, hfound,
        List.countP_eq_zero.mpr]
      intro e he hasset'
      obtain ⟨i₂, hi₂, ⟨r₂, hr₂, hkey₂⟩, rfl⟩ := mem_loadedAssets.mp he
      have hasset' := of_decide_eq_true hasset'
      rw [load_asset] at hasset'
      obtain rfl := db.unique i₂ hi₂ i hi (Option.some.inj hasset')
      refine ((H.mem_excludeFoundAssets hkeys).mp hr₂).2 ?_
      rw [hkey₂, ← hkey]
      exact ⟨a, ha, hloaded⟩
    · rw [countP_loadedAssets hi, List.countP_eq_zero.mpr]
      · intro e he hasset
        obtain ⟨r', -, a', us, ha', hloaded, -, rfl⟩ := (H.mem_found hkeys).mp he
        have hasset' : a'.asset = (db.row i).asset := Option.some.inj (of_decide_eq_true hasset)
        rw [← hkeys _ a' ha', hasset'] at ha'
        exact hservable ⟨a', ha', hloaded⟩
      · exact ⟨r, (H.mem_excludeFoundAssets hkeys).mpr ⟨hr, hkey ▸ hservable⟩, hkey⟩
  tree := by
    intro e he
    rcases List.mem_append.mp he with he | he
    · obtain ⟨r, hr, a, us, ha, hloaded, hus, rfl⟩ := (H.mem_found hkeys).mp he
      obtain ⟨i, hi, hkey⟩ := S.fromCache hr ⟨a, ha, hloaded⟩
      rw [← hkey, ← keyOn_self] at ha
      obtain ⟨us', hus', htree⟩ := sameTree_of_allStored (S.stored i hi) (S.fits i hi) ha
      rw [hus] at hus'
      cases hus'
      obtain ⟨a', ha', hasset, -⟩ := S.stored i hi i .refl
      rw [ha] at ha'
      cases ha'
      exact ⟨i, hi.mem, hi.requested, congrArg some hasset, htree⟩
    · obtain ⟨i, hi, ⟨r, hr, hkey⟩, rfl⟩ := mem_loadedAssets.mp he
      obtain ⟨hr, hnot⟩ := (H.mem_excludeFoundAssets hkeys).mp hr
      refine ⟨i, hi, ⟨r, hr, hkey⟩, load_asset .., sameTree_load.mpr ?_⟩
      exact S.loaded i hi ⟨r, hr, hkey⟩ (hkey ▸ hnot)

/-- The answer is that of the database exactly when the entries that serve it are. -/
theorem answers_iff_served (hkeys : KeysMatch cache) :
    Answers db cache stack requests ↔ Served db cache stack requests := by
  constructor
  · rintro ⟨found, hfound, R⟩
    obtain ⟨new, H⟩ := finds_of_eq_ok hkeys hfound
    exact R.served hkeys H
  · intro S
    obtain ⟨new, found, hfound, H⟩ :=
      exists_finds hkeys S.refsTo S.succeeds fun r hr => S.reads_of_request hr
    exact ⟨found, hfound, S.refines hkeys H⟩

/-! ## Runs -/

theorem keysMatch_empty : KeysMatch ∅ := by
  intro k a ha
  rw [AList.lookup_empty] at ha
  cases ha

theorem KeysMatch.insert (h : KeysMatch cache) {k : AssetCacheKey} {a : CachedAsset}
    (ha : a.asset.key = k) : KeysMatch (cache.insert k a) := by
  intro k' b hb
  by_cases hk : k' = k
  · subst hk
    rw [AList.lookup_insert] at hb
    cases hb
    exact ha
  · rw [AList.lookup_insert_ne hk] at hb
    exact h k' b hb

theorem KeysMatch.mset (h : KeysMatch cache) (items : List CachedAsset) :
    KeysMatch (cache.mset items) := by
  induction items generalizing cache with
  | nil => exact h
  | cons a items ih => exact ih (h.insert rfl)

theorem KeysMatch.erase (h : KeysMatch cache) (k : AssetCacheKey) :
    KeysMatch (cache.erase k) := by
  intro k' b hb
  by_cases hk : k' = k
  · subst hk
    rw [AList.lookup_erase] at hb
    cases hb
  · rw [AList.lookup_erase_ne hk] at hb
    exact h k' b hb

theorem saveAssetsToCache_cache (s : CacheState) (assets : List AssetEntity) :
    (s.saveAssetsToCache assets).cache = s.cache := by
  rw [CacheState.saveAssetsToCache]
  split <;> rfl

/-- What is found for a request has its key. -/
theorem stored_key {request : AssetReference} {a : CachedAsset}
    (h : (db.findOneByAddressAndChain request).bind AssetEntity.stored = some a) :
    a.asset.key = request.key := by
  obtain ⟨e, he, ha⟩ := Option.bind_eq_some_iff.mp h
  obtain ⟨i, hi, rfl⟩ := Option.map_eq_some_iff.mp he
  have hmatch := List.find?_some hi
  rw [AssetEntity.stored, load_asset] at ha
  cases ha
  exact (isRequestMatchingAsset_iff.mp (of_decide_eq_true hmatch)).symm

/-- Every step stores assets under their keys. -/
theorem keysMatch_step {s s' : CacheState} {action : CacheAction} (h : KeysMatch s.cache)
    (hstep : cacheStep stack s action = some s') : KeysMatch s'.cache := by
  cases action with
  | findMany requests =>
    rw [cacheStep] at hstep
    split at hstep
    · cases hstep
      rw [saveAssetsToCache_cache]
      exact h
    · cases hstep
      exact h
  | findOne request =>
    rw [cacheStep] at hstep
    split at hstep
    · cases hstep
      exact h
    · split at hstep
      next asset hasset =>
        cases hstep
        exact h.insert (stored_key hasset)
      · cases hstep
        exact h
  | save db saved =>
    cases hstep
    rw [saveAssetsToCache_cache]
    exact h
  | write i =>
    rw [cacheStep] at hstep
    split at hstep
    · cases hstep
      exact h.mset _
    · cases hstep
  | fail i =>
    rw [cacheStep] at hstep
    split at hstep
    · cases hstep
      exact h
    · cases hstep
  | expire key =>
    cases hstep
    exact h.erase key

/-- The answer to some requests, in a state, is that of the database. -/
def CacheState.RefinesDatabase (stack : Nat) (s : CacheState) (requests : List AssetReference) :
    Prop :=
  ∃ cachedAssets assetsToCache,
    s.findManyByAddressesAndChainIds stack requests = .ok (cachedAssets, assetsToCache) ∧
      Refines s.db requests (cachedAssets ++ assetsToCache)

theorem refinesDatabase_iff_answers {s : CacheState} :
    s.RefinesDatabase stack requests ↔ Answers s.db s.cache stack requests := by
  constructor
  · rintro ⟨cached, loaded, hfind, R⟩
    obtain ⟨found, hfound, h⟩ := bind_eq_ok.mp hfind
    cases h
    exact ⟨_, hfound, R⟩
  · rintro ⟨found, hfound, R⟩
    exact ⟨found, _, bind_eq_ok.mpr ⟨found, hfound, rfl⟩, R⟩

/-- In every state that a run of calls reaches from an empty cache, whatever has expired: an answer
is that of the database exactly when the entries that serve it are, each of them is read once, and
what is loaded has no more levels than the query. -/
theorem refinesDatabase_iff_served {db₀ : Database} {actions : List CacheAction} {s : CacheState}
    (hrun : run (cacheStep stack) ⟨db₀, ∅, []⟩ actions = some s)
    (requests : List AssetReference) :
    s.RefinesDatabase stack requests ↔ Served s.db s.cache stack requests := by
  have hkeys : KeysMatch s.cache := by
    refine (RunsUnder.of_run hrun).invariant (I := fun s => KeysMatch s.cache) ?_ keysMatch_empty
    exact fun h _ hstep => keysMatch_step h hstep
  rw [refinesDatabase_iff_answers]
  exact answers_iff_served hkeys

/-! ### An asset with one underlying asset -/

/-- The asset 1 has the underlying asset 2. -/
def pairDatabase : Database where
  ids := [1, 2]
  row i := if i = 1 then ⟨⟨1, "0xa"⟩, [⟨0, 2⟩]⟩ else ⟨⟨1, "0xb"⟩, []⟩
  nodup := by decide
  unique := by decide
  closed := by decide

/-- The state after `findManyByAddressesAndChainIds` of the asset 1, when its tree is written. -/
def treeState : CacheState where
  db := pairDatabase
  cache := (∅ : AssetCache).mset [⟨⟨1, "0xb"⟩, some []⟩, ⟨⟨1, "0xa"⟩, some [⟨some "0xb", 0⟩]⟩]
  pending := []

theorem run_treeState :
    run (cacheStep 100) ⟨pairDatabase, ∅, []⟩ [.findMany [⟨1, "0xa"⟩], .write 0] =
      some treeState := by
  have hread : getCachedAssetsByAddressesAndChainIds 100 ∅ [⟨1, "0xa"⟩] = .ok [] := by
    rw [getCachedAssetsByAddressesAndChainIds, getAssetsFromCacheWithUnderlying_eq]
    rfl
  have hfind : cacheStep 100 ⟨pairDatabase, ∅, []⟩ (.findMany [⟨1, "0xa"⟩]) =
      some ⟨pairDatabase, ∅, [[⟨⟨1, "0xb"⟩, some []⟩, ⟨⟨1, "0xa"⟩, some [⟨some "0xb", 0⟩]⟩]]⟩ := by
    rw [cacheStep, CacheState.findManyByAddressesAndChainIds, hread]
    rfl
  rw [run_cons, hfind]
  rfl

theorem eq_of_requested_treeState {i : Nat} (hi : i ∈ pairDatabase.ids)
    (h : Requested [⟨1, "0xa"⟩] (pairDatabase.row i).asset) : i = 1 := by
  obtain ⟨r, hr, hkey⟩ := h
  cases List.mem_singleton.mp hr
  have hi : i = 1 ∨ i = 2 := by simpa [pairDatabase] using hi
  rcases hi with rfl | rfl
  · rfl
  · exact absurd hkey (by decide)

theorem allStored_treeState : AllStored pairDatabase treeState.cache 1 1 := by
  have hleaf : AllStored pairDatabase treeState.cache 1 2 :=
    .intro ⟨⟨⟨1, "0xb"⟩, some []⟩, by rfl, rfl, .nil⟩ nofun
  refine .intro ⟨⟨⟨1, "0xa"⟩, some [⟨some "0xb", 0⟩]⟩, by rfl, rfl, ?_⟩ fun u hu => ?_
  · exact .cons ⟨rfl, rfl⟩ .nil
  · cases List.mem_singleton.mp hu
    exact hleaf

theorem served_treeState : Served pairDatabase treeState.cache 100 [⟨1, "0xa"⟩] where
  once := by
    intro r hr _
    cases List.mem_singleton.mp hr
    decide
  exists_row := by
    intro r hr _
    cases List.mem_singleton.mp hr
    exact ⟨1, by decide, by decide⟩
  stored := by
    intro i hi
    obtain rfl := eq_of_requested_treeState hi.mem hi.requested
    exact allStored_treeState
  fits := by
    intro i hi u hu
    obtain rfl := eq_of_requested_treeState hi.mem hi.requested
    cases List.mem_singleton.mp hu
    exact nofun
  apart := by
    intro i j hi hj k hik
    obtain rfl := eq_of_requested_treeState hi.mem hi.requested
    obtain rfl := eq_of_requested_treeState hj.mem hj.requested
    obtain ⟨l, ⟨u, hu, rfl⟩, hlk⟩ := TransGen.head'_iff.mp hik
    cases List.mem_singleton.mp hu
    rcases ReflTransGen.cases_head hlk with rfl | ⟨_, ⟨u, hu, -⟩, -⟩
    · decide
    · cases hu
  loaded := by
    intro i hi hrequested hnot
    obtain rfl := eq_of_requested_treeState hi hrequested
    exact absurd ⟨⟨⟨1, "0xa"⟩, some [⟨some "0xb", 0⟩]⟩, by rfl, rfl⟩ hnot

/-- The tree is served from the cache. -/
theorem treeState_refinesDatabase :
    run (cacheStep 100) ⟨pairDatabase, ∅, []⟩ [.findMany [⟨1, "0xa"⟩], .write 0] = some treeState ∧
      treeState.RefinesDatabase 100 [⟨1, "0xa"⟩] :=
  ⟨run_treeState, (refinesDatabase_iff_served run_treeState _).mpr served_treeState⟩

/-- The state after `findOneByAddressAndChain` of the asset 1, whose entity is stored. -/
def entityState : CacheState where
  db := pairDatabase
  cache := (∅ : AssetCache).insert ⟨1, "0xa"⟩ ⟨⟨1, "0xa"⟩, some [⟨none, 0⟩]⟩
  pending := []

/-- Reading the stored entity throws, as its reference has no address. -/
theorem entityState_not_refinesDatabase :
    run (cacheStep 100) ⟨pairDatabase, ∅, []⟩ [.findOne ⟨1, "0xa"⟩] = some entityState ∧
      ¬ entityState.RefinesDatabase 100 [⟨1, "0xa"⟩] := by
  refine ⟨by rfl, ?_⟩
  rintro ⟨cachedAssets, assetsToCache, hfind, -⟩
  obtain ⟨found, hfound, -⟩ := bind_eq_ok.mp hfind
  obtain ⟨assets, hassets, -⟩ := bind_eq_ok.mp hfound
  rw [getAssetsFromCacheWithUnderlying_eq] at hassets
  cases hassets

end Assets
end DefiBackend
