import DefiBackend.Assets.AssetTrees

/-! # Entities of a call

The entities that a call finds in the cache are those of the entries under the requested keys
(`Finds.mem_found`), each as many times as its key is read (`Finds.countP_found`). The database
gives the other requested assets, each once. -/

namespace DefiBackend
namespace Assets
open Theory Relation

variable {db : Database} {cache : AssetCache} {stack : Nat} {requests : List AssetReference}

/-! ## Entities from the cache -/

/-- Entries that refer to entries of a set of keys are read through any map that has these. -/
theorem getUnderlying_congr {P : AssetCacheKey → Prop} {map : AssetCacheKey → Option CachedAsset}
    (hP : ∀ k, P k → RefsTo cache P k) (hmap : ∀ k, P k → map k = cache.lookup k) {k : AssetCacheKey}
    (hk : P k) {a : CachedAsset} (ha : cache.lookup k = some a) :
    getUnderlying map stack a = getUnderlying (fun k => cache.lookup k) stack a := by
  induction stack generalizing k a with
  | zero => rfl
  | succ stack ih =>
    rw [getUnderlying_succ, getUnderlying_succ]
    refine mapM_congr fun ref href => ?_
    obtain ⟨k', hk', hPk'⟩ := hP k hk a ha ref href
    rw [followRef, followRef, hk', ok_bind, ok_bind, hmap k' hPk']
    cases hb : cache.lookup k' with
    | none => rfl
    | some b => simp only [ih hPk' hb]

theorem cachedAssetsMap_get (hkeys : KeysMatch cache) {ks : List AssetCacheKey} {k : AssetCacheKey}
    (hk : k ∈ ks) : (cachedAssetsMap (cache.mget ks)).get k = cache.lookup k := by
  rw [cachedAssetsMap, JsMap.get_ofEntries_self fun a : CachedAsset => a.asset.key]
  cases ha : cache.lookup k with
  | some a =>
    have hmem : a ∈ cache.mget ks := mem_mget.mpr ⟨k, hk, ha⟩
    obtain ⟨b, hb⟩ := JsMap.exists_lastWith (fun a : CachedAsset => a.asset.key) hmem
    rw [hkeys k a ha] at hb
    obtain ⟨hbk, hbmem⟩ := JsMap.lastWith_eq_some hb
    obtain ⟨k', -, hb'⟩ := mem_mget.mp hbmem
    rw [← hkeys k' b hb', hbk, ha] at hb'
    rw [hb, hb']
  | none =>
    cases hb : JsMap.lastWith (fun a : CachedAsset => a.asset.key) (cache.mget ks) k with
    | none => rfl
    | some b =>
      obtain ⟨hbk, hbmem⟩ := JsMap.lastWith_eq_some hb
      obtain ⟨k', -, hb'⟩ := mem_mget.mp hbmem
      rw [← hkeys k' b hb', hbk, ha] at hb'
      cases hb'

theorem getUnderlying_length {map : AssetCacheKey → Option CachedAsset} {a : CachedAsset}
    {us : List (Nat × AssetEntity)} (h : getUnderlying map stack a = .ok us) :
    a.refs.length = us.length := by
  cases stack with
  | zero => exact (mapM_forall₂.mp h).length_eq
  | succ stack =>
    rw [getUnderlying_succ] at h
    exact (mapM_forall₂.mp h).length_eq

/-- The entity that is built of an entry, if its underlying assets are known. -/
def builtEntity (cache : AssetCache) (stack : Nat) (a : CachedAsset) : Option AssetEntity :=
  if a.underlying.isSome then
    some ⟨some a.asset, some
      ((getUnderlying (fun k => cache.lookup k) stack a).toOption.getD [])⟩
  else none

theorem cachedAssetEntity_eq {map : AssetCacheKey → Option CachedAsset} {a : CachedAsset}
    (hmap : getUnderlying map stack a = getUnderlying (fun k => cache.lookup k) stack a) :
    cachedAssetEntity stack map a =
      (getUnderlying (fun k => cache.lookup k) stack a).map fun _ => builtEntity cache stack a := by
  have hcall : (if a.refs.length ≠ 0 then getUnderlying map stack a else .ok []) =
      getUnderlying (fun k => cache.lookup k) stack a := by
    by_cases hrefs : a.refs.length ≠ 0
    · rw [if_pos hrefs, hmap]
    · have hnil : a.refs = [] := List.length_eq_zero_iff.mp (not_not.mp hrefs)
      rw [if_neg hrefs]
      cases stack with
      | zero => rw [getUnderlying, hnil]; rfl
      | succ stack => rw [getUnderlying_succ, hnil]; rfl
  rw [cachedAssetEntity, hcall]
  cases hus : getUnderlying (fun k => cache.lookup k) stack a with
  | error e => rfl
  | ok us =>
    change Except.ok _ = Except.ok _
    rw [← getUnderlying_length hus, builtEntity, hus]
    obtain ⟨asset, underlying⟩ := a
    cases underlying <;> simp [CachedAsset.refs, Except.toOption]

/-- Entries whose references stand among them give their entities, if these can be built. -/
theorem mapCachedAssetsToEntities_eq_ok (hkeys : KeysMatch cache) {ks : List AssetCacheKey}
    (hclosed : ∀ k ∈ ks, RefsTo cache (· ∈ ks) k) {entities : List AssetEntity} :
    mapCachedAssetsToEntities stack (cache.mget ks) = .ok entities ↔
      (∀ a ∈ cache.mget ks, Succeeds (getUnderlying (fun k => cache.lookup k) stack a)) ∧
        entities = (cache.mget ks).filterMap (builtEntity cache stack) := by
  have hmapM : (cache.mget ks).mapM
        (cachedAssetEntity stack (cachedAssetsMap (cache.mget ks)).get) =
      (cache.mget ks).mapM fun a => (getUnderlying (fun k => cache.lookup k) stack a).map fun _ =>
        builtEntity cache stack a := by
    refine mapM_congr fun a ha => cachedAssetEntity_eq ?_
    obtain ⟨k, hk, ha⟩ := mem_mget.mp ha
    exact getUnderlying_congr hclosed (fun k hk => cachedAssetsMap_get hkeys hk) hk ha
  have hresult (h : ∀ a ∈ cache.mget ks,
      Succeeds (getUnderlying (fun k => cache.lookup k) stack a)) :
      mapCachedAssetsToEntities stack (cache.mget ks) =
        .ok ((cache.mget ks).filterMap (builtEntity cache stack)) := by
    rw [mapCachedAssetsToEntities, hmapM, mapM_eq_ok (g := builtEntity cache stack)]
    · change Except.ok (List.filterMap id _) = _
      rw [List.filterMap_map]
      rfl
    · intro a ha
      obtain ⟨us, hus⟩ := h a ha
      rw [hus]
      rfl
  constructor
  · intro h
    have hsucceeds : ∀ a ∈ cache.mget ks,
        Succeeds (getUnderlying (fun k => cache.lookup k) stack a) := by
      rw [mapCachedAssetsToEntities, hmapM] at h
      obtain ⟨_, hmap, -⟩ := bind_eq_ok.mp h
      exact fun a ha => succeeds_map.mp (succeeds_mapM.mp ⟨_, hmap⟩ a ha)
    rw [hresult hsucceeds] at h
    exact ⟨hsucceeds, (Except.ok.inj h).symm⟩
  · rintro ⟨hsucceeds, rfl⟩
    exact hresult hsucceeds

/-- The keys that a call reads. -/
def requestKeys (requests : List AssetReference) : List AssetCacheKey :=
  requests.map AssetReference.key

theorem Followed.closed_append {keys new : List AssetCacheKey} (h : Followed cache keys [] new) :
    ∀ k ∈ keys ++ new, RefsTo cache (· ∈ keys ++ new) k := by
  intro k hk
  exact (h.closed k hk).imp fun k' hk' => List.mem_append_right _ hk'

/-- What a call finds in the cache, with the keys it has followed. -/
structure Finds (cache : AssetCache) (stack : Nat) (requests : List AssetReference)
    (new : List AssetCacheKey) (found : List AssetEntity) : Prop where
  followed : Followed cache (requestKeys requests) [] new
  succeeds : ∀ a ∈ cache.mget (requestKeys requests ++ new),
    Succeeds (getUnderlying (fun k => cache.lookup k) stack a)
  found_eq : found = excludeAssetsByRequests requests
    ((cache.mget (requestKeys requests ++ new)).filterMap (builtEntity cache stack))

theorem finds_of_eq_ok (hkeys : KeysMatch cache) {found : List AssetEntity}
    (h : getCachedAssetsByAddressesAndChainIds stack cache requests = .ok found) :
    ∃ new, Finds cache stack requests new found := by
  obtain ⟨assets, hassets, h⟩ := bind_eq_ok.mp h
  obtain ⟨entities, hentities, h⟩ := bind_eq_ok.mp h
  cases h
  obtain ⟨new, hnew, rfl⟩ := getAssetsFromCacheWithUnderlying_eq_ok _ _ hassets
  obtain ⟨hsucceeds, rfl⟩ :=
    (mapCachedAssetsToEntities_eq_ok hkeys hnew.closed_append).mp hentities
  exact ⟨new, hnew, hsucceeds, rfl⟩

/-- A call goes through when all it can reach leads to keys and gives trees. -/
theorem exists_finds (hkeys : KeysMatch cache) {P : AssetCacheKey → Prop}
    (hP : ∀ k, P k → RefsTo cache P k)
    (hsucceeds : ∀ k a, P k → cache.lookup k = some a →
      Succeeds (getUnderlying (fun k => cache.lookup k) stack a))
    (h : ∀ r ∈ requests, P r.key) :
    ∃ new found, getCachedAssetsByAddressesAndChainIds stack cache requests = .ok found ∧
      Finds cache stack requests new found := by
  have hkeysP : ∀ k ∈ requestKeys requests, P k := by
    intro k hk
    obtain ⟨r, hr, rfl⟩ := List.mem_map.mp hk
    exact h r hr
  obtain ⟨assets, hassets⟩ := getAssetsFromCacheWithUnderlying_succeeds P hP _ [] hkeysP
  obtain ⟨new, hnew, rfl⟩ := getAssetsFromCacheWithUnderlying_eq_ok _ _ hassets
  have hreach {k k'} (hk : P k) (hkk' : TransGen (Refers cache) k k') : P k' := by
    induction hkk' with
    | single hstep =>
      obtain ⟨a, ha, u, hu, hkey⟩ := hstep
      obtain ⟨k₁, hk₁, hP₁⟩ := hP _ hk a ha u hu
      rw [hkey] at hk₁
      cases hk₁
      exact hP₁
    | tail _ hstep ih =>
      obtain ⟨a, ha, u, hu, hkey⟩ := hstep
      obtain ⟨k₁, hk₁, hP₁⟩ := hP _ ih a ha u hu
      rw [hkey] at hk₁
      cases hk₁
      exact hP₁
  have hall : ∀ a ∈ cache.mget (requestKeys requests ++ new),
      Succeeds (getUnderlying (fun k => cache.lookup k) stack a) := by
    intro a ha
    obtain ⟨k, hk, ha⟩ := mem_mget.mp ha
    refine hsucceeds k a ?_ ha
    rcases List.mem_append.mp hk with hk | hk
    · exact hkeysP k hk
    · obtain ⟨k', hk', hreached⟩ := hnew.reached k hk
      exact hreach (hkeysP k' hk') hreached
  refine ⟨new, _, ?_, hnew, hall, rfl⟩
  refine bind_eq_ok.mpr ⟨_, hassets, bind_eq_ok.mpr ⟨_, ?_, rfl⟩⟩
  exact (mapCachedAssetsToEntities_eq_ok hkeys hnew.closed_append).mpr ⟨hall, rfl⟩

theorem isRequestMatchingEntity_mk {r asset : AssetReference}
    {us : Option (List (Nat × AssetEntity))} :
    isRequestMatchingEntity r ⟨some asset, us⟩ ↔ r.key = asset.key := by
  rw [← isRequestMatchingAsset_iff]
  constructor
  · rintro ⟨asset', hasset', h⟩
    cases hasset'
    exact h
  · exact fun h => ⟨asset, rfl, h⟩

theorem Finds.builtEntity_eq {new : List AssetCacheKey} {found : List AssetEntity}
    (H : Finds cache stack requests new found) {a : CachedAsset}
    (ha : a ∈ cache.mget (requestKeys requests ++ new)) (hloaded : a.underlying.isSome) :
    ∃ us, getUnderlying (fun k => cache.lookup k) stack a = .ok us ∧
      builtEntity cache stack a = some ⟨some a.asset, some us⟩ := by
  obtain ⟨us, hus⟩ := H.succeeds a ha
  refine ⟨us, hus, ?_⟩
  rw [builtEntity, if_pos hloaded, hus]
  rfl

/-- The entities that a call finds are those of the entries under the requested keys. -/
theorem Finds.mem_found (hkeys : KeysMatch cache) {new : List AssetCacheKey}
    {found : List AssetEntity} (H : Finds cache stack requests new found) {e : AssetEntity} :
    e ∈ found ↔ ∃ r ∈ requests, ∃ a us, cache.lookup r.key = some a ∧ a.underlying.isSome ∧
      getUnderlying (fun k => cache.lookup k) stack a = .ok us ∧
        e = ⟨some a.asset, some us⟩ := by
  rw [H.found_eq, excludeAssetsByRequests, List.mem_filter, List.mem_filterMap, List.any_eq_true]
  constructor
  · rintro ⟨⟨a, ha, he⟩, r, hr, hmatch⟩
    have hloaded : a.underlying.isSome := by
      by_contra hnot
      rw [builtEntity, if_neg hnot] at he
      cases he
    obtain ⟨us, hus, hbuilt⟩ := H.builtEntity_eq ha hloaded
    rw [he] at hbuilt
    cases hbuilt
    obtain ⟨k, -, hk⟩ := mem_mget.mp ha
    have hkey : r.key = k := by
      rw [← hkeys k a hk]
      exact isRequestMatchingEntity_mk.mp (of_decide_eq_true hmatch)
    exact ⟨r, hr, a, us, hkey ▸ hk, hloaded, hus, rfl⟩
  · rintro ⟨r, hr, a, us, ha, hloaded, hus, rfl⟩
    have hmem : a ∈ cache.mget (requestKeys requests ++ new) :=
      mem_mget.mpr ⟨r.key, List.mem_append_left _ (List.mem_map.mpr ⟨r, hr, rfl⟩), ha⟩
    obtain ⟨us', hus', hbuilt⟩ := H.builtEntity_eq hmem hloaded
    rw [hus] at hus'
    cases hus'
    refine ⟨⟨a, hmem, hbuilt⟩, r, hr, decide_eq_true ?_⟩
    exact isRequestMatchingEntity_mk.mpr (hkeys _ a ha).symm

/-- An entity is found as many times as its key is read. -/
theorem Finds.countP_found (hkeys : KeysMatch cache) {new : List AssetCacheKey}
    {found : List AssetEntity} (H : Finds cache stack requests new found) {r : AssetReference}
    (hr : r ∈ requests) {a : CachedAsset} (ha : cache.lookup r.key = some a)
    (hloaded : a.underlying.isSome) :
    found.countP (fun e => e.asset = some a.asset) =
      (requestKeys requests ++ new).count r.key := by
  rw [H.found_eq, excludeAssetsByRequests, List.countP_filter, List.countP_filterMap,
    AssetCache.mget, List.countP_filterMap, List.count_eq_countP]
  refine List.countP_congr fun k hk => ?_
  rw [beq_iff_eq]
  constructor
  · intro h
    cases hb : cache.lookup k with
    | none =>
      rw [hb] at h
      cases h
    | some b =>
      rw [hb, Option.map_some, Option.getD_some] at h
      cases hbuilt : builtEntity cache stack b with
      | none =>
        rw [hbuilt] at h
        cases h
      | some e =>
        rw [hbuilt, Option.map_some, Option.getD_some, Bool.and_eq_true] at h
        have hasset : b.asset = a.asset := by
          have he := of_decide_eq_true h.1
          rw [builtEntity] at hbuilt
          split at hbuilt
          · cases hbuilt
            exact Option.some.inj he
          · cases hbuilt
        rw [← hkeys k b hb, hasset, hkeys _ a ha]
  · rintro rfl
    have hmem : a ∈ cache.mget (requestKeys requests ++ new) := mem_mget.mpr ⟨r.key, hk, ha⟩
    obtain ⟨us, -, hbuilt⟩ := H.builtEntity_eq hmem hloaded
    rw [ha, Option.map_some, Option.getD_some, hbuilt, Option.map_some, Option.getD_some,
      Bool.and_eq_true]
    refine ⟨decide_eq_true rfl, List.any_eq_true.mpr ⟨r, hr, decide_eq_true ?_⟩⟩
    exact isRequestMatchingEntity_mk.mpr (hkeys _ a ha).symm

/-! ## Entities from the database -/

/-- The cache has an entry for a key, with references. -/
def Servable (cache : AssetCache) (k : AssetCacheKey) : Prop :=
  ∃ a, cache.lookup k = some a ∧ a.underlying.isSome

/-- An asset is one of the requested ones. -/
def Requested (requests : List AssetReference) (asset : AssetReference) : Prop :=
  ∃ r ∈ requests, r.key = asset.key

theorem Finds.mem_excludeFoundAssets (hkeys : KeysMatch cache) {new : List AssetCacheKey}
    {found : List AssetEntity} (H : Finds cache stack requests new found) {r : AssetReference} :
    r ∈ excludeFoundAssets requests found ↔ r ∈ requests ∧ ¬ Servable cache r.key := by
  rw [excludeFoundAssets, List.mem_filter, decide_eq_true_eq, List.any_eq_true]
  refine and_congr_right fun hr => not_congr ?_
  constructor
  · rintro ⟨e, he, hmatch⟩
    obtain ⟨r', -, a, us, ha, hloaded, -, rfl⟩ := (H.mem_found hkeys).mp he
    have hkey := isRequestMatchingEntity_mk.mp (of_decide_eq_true hmatch)
    rw [hkeys _ a ha] at hkey
    exact ⟨a, hkey ▸ ha, hloaded⟩
  · rintro ⟨a, ha, hloaded⟩
    have hmem : a ∈ cache.mget (requestKeys requests ++ new) :=
      mem_mget.mpr ⟨r.key, List.mem_append_left _ (List.mem_map.mpr ⟨r, hr, rfl⟩), ha⟩
    obtain ⟨us, hus, -⟩ := H.builtEntity_eq hmem hloaded
    refine ⟨⟨some a.asset, some us⟩, ?_, decide_eq_true ?_⟩
    · exact (H.mem_found hkeys).mpr ⟨r, hr, a, us, ha, hloaded, hus, rfl⟩
    · exact isRequestMatchingEntity_mk.mpr (hkeys _ a ha).symm

/-- What the database gives for the requests that are left. -/
def loadedAssets (db : Database) (requests : List AssetReference) : List AssetEntity :=
  if requests.length ≠ 0 then db.findManyByAddressesAndChainIds requests else []

theorem loadedAssets_eq (db : Database) (requests : List AssetReference) :
    loadedAssets db requests =
      (db.ids.filter fun i => requests.any fun r => isRequestMatchingAsset r (db.row i).asset).map
        (db.load Database.relationsDepth) := by
  rw [loadedAssets, Database.findManyByAddressesAndChainIds]
  cases requests with
  | nil => simp
  | cons r requests => rw [if_pos (by simp), if_neg (by simp)]

theorem mem_filter_requested {i : Nat} :
    i ∈ (db.ids.filter fun i => requests.any fun r => isRequestMatchingAsset r (db.row i).asset) ↔
      i ∈ db.ids ∧ Requested requests (db.row i).asset := by
  rw [List.mem_filter, List.any_eq_true]
  refine and_congr_right fun _ => exists_congr fun r => and_congr_right fun _ => ?_
  rw [decide_eq_true_eq, isRequestMatchingAsset_iff]

theorem load_asset (depth i : Nat) : (db.load depth i).asset = some (db.row i).asset := by
  cases depth <;> rfl

theorem mem_loadedAssets {e : AssetEntity} : e ∈ loadedAssets db requests ↔
    ∃ i ∈ db.ids, Requested requests (db.row i).asset ∧
      e = db.load Database.relationsDepth i := by
  rw [loadedAssets_eq, List.mem_map]
  constructor
  · rintro ⟨i, hi, rfl⟩
    obtain ⟨hi, hreq⟩ := mem_filter_requested.mp hi
    exact ⟨i, hi, hreq, rfl⟩
  · rintro ⟨i, hi, hreq, rfl⟩
    exact ⟨i, mem_filter_requested.mpr ⟨hi, hreq⟩, rfl⟩

/-- A requested asset is loaded once. -/
theorem countP_loadedAssets {i : Nat} (hi : i ∈ db.ids) (h : Requested requests (db.row i).asset) :
    (loadedAssets db requests).countP (fun e => e.asset = some (db.row i).asset) = 1 := by
  rw [loadedAssets_eq, List.countP_map]
  have hcount : ∀ j ∈ db.ids.filter fun i =>
      requests.any fun r => isRequestMatchingAsset r (db.row i).asset,
      (((fun e : AssetEntity => decide (e.asset = some (db.row i).asset)) ∘
        db.load Database.relationsDepth) j = true ↔ (j == i) = true) := by
    intro j hj
    rw [Function.comp_apply, decide_eq_true_eq, load_asset, Option.some.injEq, beq_iff_eq]
    constructor
    · exact fun hasset => db.unique j (mem_filter_requested.mp hj).1 i hi hasset
    · rintro rfl
      rfl
  rw [List.countP_congr hcount, ← List.count_eq_countP]
  exact List.count_eq_one_of_mem (db.nodup.filter _) (mem_filter_requested.mpr ⟨hi, h⟩)

end Assets
end DefiBackend
