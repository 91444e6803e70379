import DefiBackend.Assets.SourcePrices
import DefiBackend.Assets.SpecificPrices

/-! # Reserves in the price cache

`PriceService.saveSpecificAssetPrices` writes the price of an asset and the reserves of its
underlying assets to the cache, and `AssetsService.addPrices` reads them back for DTOs that are
loaded later.

* `readBack_eq`: what every DTO is given of the cache;
* `RoundTrip.survives_iff`: when the reserves are those that were saved. They are a list without
  gaps, and are given to the underlying assets in the order in which these are loaded. -/

namespace DefiBackend
namespace Assets
namespace ReservesCache
open Theory SpecificPrices

structure AssetReference where
  chainId : ChainId
  address : Address

structure AssetAvgPrice where
  asset : AssetReference
  price : Option JsNumber
  reserves : Option (List String)

structure AvgPrice where
  price : Option JsNumber
  reserves : Option (List String)

abbrev Cache := Store String AvgPrice

/-- The key of `getAvgPriceCacheKey`. -/
def avgKey (chainId : ChainId) (address : Address) : PriceMapKey := ⟨chainId, lowerCase address⟩

/-- A number in a JSON text. -/
def jsonNumber : JsNumber → Option JsNumber
  | .finite q => some (.finite q)
  | .infinity _ | .nan => none

/-- A reserve that counts as true. -/
def AssetUnderlyingDto.truthyReserve (u : AssetUnderlyingDto) : Option String :=
  u.reserve.filter (· ≠ "")

/-- The reserves of the underlying assets, in their order. -/
def truthyReserves (dto : AssetDto) : List String :=
  (dto.underlying.getD []).filterMap AssetUnderlyingDto.truthyReserve

def toAvgPriceCacheItem (dto : AssetDto) : String × AvgPrice :=
  ((avgKey dto.chainId dto.address).avgText,
    ⟨dto.price.bind jsonNumber, some (truthyReserves dto)⟩)

def saveSpecificAssetPrices (dtosToUpdatePricesInCache : List AssetDto) (cache : Cache) : Cache :=
  cache.mset ((dtosToUpdatePricesInCache.filter (·.priced)).map toAvgPriceCacheItem)

def getPrices (assets : List AssetDto) (cache : Cache) : List AssetAvgPrice :=
  assets.map fun asset =>
    let value := cache (avgKey asset.chainId asset.address).avgText
    ⟨⟨asset.chainId, asset.address⟩, value.bind (·.price), value.bind (·.reserves)⟩

def getAllNestedAssets (dtos : List AssetDto) : List AssetDto :=
  (JsMap.ofEntries (dtos.map fun dto => (keyField dto.chainId dto.address, dto))).values

/-- The reserves by their places, if there are any. -/
def assignReserves (reserves : Option (List String)) (underlying : List AssetUnderlyingDto) :
    List AssetUnderlyingDto :=
  match reserves with
  | some reserves =>
    if underlying.length ≠ 0 ∧ reserves.length ≠ 0 then
      underlying.mapIdx fun index u => { u with reserve := reserves[index]? }
    else underlying
  | none => underlying

def updateDtoWithPrices (prices : List AssetAvgPrice) (dto : AssetDto) : Except String AssetDto :=
  let assetPrice := prices.find? fun p =>
    lowerCase p.asset.address = lowerCase dto.address && p.asset.chainId = dto.chainId
  match assetPrice with
  | some p => .ok { dto with
      price := p.price
      underlying := dto.underlying.map (assignReserves p.reserves) }
  | none => .error typeError

def updateDtosWithPrices (dtos : List AssetDto) (prices : List AssetAvgPrice) :
    Except String (List AssetDto) :=
  dtos.mapM (updateDtoWithPrices prices)

/-- `addPrices`, before the prices of specific assets. -/
def readBack (dtos : List AssetDto) (cache : Cache) : Except String (List AssetDto) :=
  updateDtosWithPrices dtos (getPrices (getAllNestedAssets dtos) cache)

/-! ## What is read back -/

/-- What a DTO is given of the value in the cache. -/
def cachedDto (value : Option AvgPrice) (dto : AssetDto) : AssetDto :=
  { dto with
    price := value.bind (·.price)
    underlying := dto.underlying.map (assignReserves (value.bind (·.reserves))) }

/-- Every DTO has one of its chain and address among the nested assets. -/
theorem exists_nestedAsset {dtos : List AssetDto} (h : dto ∈ dtos) :
    ∃ nested ∈ getAllNestedAssets dtos,
      nested.chainId = dto.chainId ∧ nested.address = dto.address := by
  obtain ⟨nested, hnested⟩ :=
    JsMap.exists_lastWith (fun dto : AssetDto => keyField dto.chainId dto.address) h
  have hkey := (JsMap.lastWith_eq_some hnested).1
  rw [← JsMap.get_ofEntries_self] at hnested
  exact ⟨nested, List.mem_map.mpr ⟨_, JsMap.mem_of_get hnested, rfl⟩, keyField_inj.mp hkey⟩

theorem updateDtoWithPrices_eq {dtos : List AssetDto} (h : dto ∈ dtos) (cache : Cache) :
    updateDtoWithPrices (getPrices (getAllNestedAssets dtos) cache) dto =
      .ok (cachedDto (cache (avgKey dto.chainId dto.address).avgText) dto) := by
  obtain ⟨nested, hnested, hchain, haddress⟩ := exists_nestedAsset h
  rw [updateDtoWithPrices]
  cases hfind : (getPrices (getAllNestedAssets dtos) cache).find? fun p =>
      lowerCase p.asset.address = lowerCase dto.address && p.asset.chainId = dto.chainId with
  | none =>
    have hnone := List.find?_eq_none.mp hfind _ (List.mem_map_of_mem hnested)
    simp [hchain, haddress] at hnone
  | some p =>
    obtain ⟨found, -, rfl⟩ := List.mem_map.mp (List.mem_of_find?_eq_some hfind)
    have hfound := List.find?_some hfind
    simp only [Bool.and_eq_true, decide_eq_true_eq] at hfound
    have hkey : avgKey found.chainId found.address = avgKey dto.chainId dto.address := by
      rw [avgKey, avgKey, hfound.1, hfound.2]
    simp only [hkey]
    rfl

theorem readBack_eq (dtos : List AssetDto) (cache : Cache) : readBack dtos cache =
    .ok (dtos.map fun dto => cachedDto (cache (avgKey dto.chainId dto.address).avgText) dto) :=
  mapM_eq_ok fun _ h => updateDtoWithPrices_eq h cache

/-! ## Round trips -/

/-- DTOs are saved, one of them an asset that the others are not, and DTOs are loaded later, one of
them the same asset. The database has no underlying asset twice and no reserves, and gives the
underlying assets in some order. -/
structure RoundTrip where
  cache : Cache
  before : List AssetDto
  dto : AssetDto
  after : List AssetDto
  own : ∀ other ∈ before ++ after,
    avgKey other.chainId other.address ≠ avgKey dto.chainId dto.address
  distinct : dto.underlyingAddresses.Nodup
  loaded : List AssetDto
  place : Nat
  dto' : AssetDto
  loaded_place : loaded[place]? = some dto'
  sameAsset : avgKey dto'.chainId dto'.address = avgKey dto.chainId dto.address
  reordered : dto'.underlyingAddresses.Perm dto.underlyingAddresses
  fresh : ∀ u ∈ dto'.underlying.getD [], u.reserve = none

namespace RoundTrip
variable (r : RoundTrip)

/-- The cache after the DTOs have been saved. -/
def saved : Cache := saveSpecificAssetPrices (r.before ++ r.dto :: r.after) r.cache

/-- The DTO that is loaded has the reserves of the one that was saved. -/
def Survives : Prop :=
  ∃ dtos dto'', readBack r.loaded r.saved = .ok dtos ∧ dtos[r.place]? = some dto'' ∧
    ∀ u ∈ r.dto.underlying.getD [], ∀ u'' ∈ dto''.underlying.getD [], u''.address = u.address →
      u''.reserve = AssetUnderlyingDto.truthyReserve u

/-- The reserves in the cache: those of the DTO if it has a price, or else those from before. -/
def stored : List String :=
  if r.dto.priced then truthyReserves r.dto
  else ((r.cache (avgKey r.dto.chainId r.dto.address).avgText).bind (·.reserves)).getD []

/-- The reserve that an underlying asset had. -/
def reserveOf (a : Address) : Option String :=
  ((r.dto.underlying.getD []).find? (·.address = a)).bind AssetUnderlyingDto.truthyReserve

/-- What the cache has for the asset. -/
theorem saved_apply : r.saved (avgKey r.dto.chainId r.dto.address).avgText =
    if r.dto.priced then some ⟨r.dto.price.bind jsonNumber, some (truthyReserves r.dto)⟩
    else r.cache (avgKey r.dto.chainId r.dto.address).avgText := by
  -- the others have other keys
  have hother : ∀ dto ∈ r.before ++ r.dto :: r.after,
      (toAvgPriceCacheItem dto).1 = (avgKey r.dto.chainId r.dto.address).avgText → dto = r.dto := by
    intro dto hdto hkey
    by_contra hne
    refine r.own dto ?_ (PriceMapKey.avgText_inj.mp hkey)
    rcases List.mem_append.mp hdto with hdto | hdto
    · exact List.mem_append_left _ hdto
    · exact List.mem_append_right _ (List.mem_of_ne_of_mem hne hdto)
  split
  · next hpriced =>
    have hmem : toAvgPriceCacheItem r.dto ∈
        ((r.before ++ r.dto :: r.after).filter (·.priced)).map toAvgPriceCacheItem :=
      List.mem_map_of_mem (List.mem_filter.mpr ⟨by simp, hpriced⟩)
    obtain ⟨v, hv, hmem⟩ := r.cache.mset_of_mem hmem
    obtain ⟨dto, hdto, hitem⟩ := List.mem_map.mp hmem
    have hdto' := hother dto (List.mem_filter.mp hdto).1 (congrArg Prod.fst hitem)
    subst hdto'
    exact hv.trans (congrArg (some ∘ Prod.snd) hitem).symm
  · next hpriced =>
    refine Store.mset_of_notMem fun e he hkey => ?_
    obtain ⟨dto, hdto, rfl⟩ := List.mem_map.mp he
    obtain ⟨hmem, hdto⟩ := List.mem_filter.mp hdto
    rw [hother dto hmem hkey] at hdto
    exact hpriced hdto

theorem reserves_saved : ((r.saved (avgKey r.dto.chainId r.dto.address).avgText).bind
    (·.reserves)).getD [] = r.stored := by
  rw [saved_apply, stored]
  split <;> rfl

/-- The underlying assets that are read back. -/
theorem underlying_cachedDto (value : Option AvgPrice) :
    (cachedDto value r.dto').underlying.getD [] =
      (r.dto'.underlying.getD []).mapIdx fun index u =>
        { u with reserve := ((value.bind (·.reserves)).getD [])[index]? } := by
  have hfresh := r.fresh
  rw [cachedDto]
  cases hloaded : r.dto'.underlying with
  | none => rfl
  | some underlying =>
    rw [hloaded] at hfresh
    have hsame : ∀ reserves : List String, (underlying = [] ∨ reserves = []) →
        underlying = underlying.mapIdx fun index u => { u with reserve := reserves[index]? } := by
      intro reserves h
      refine List.ext_getElem? fun i => ?_
      rw [List.getElem?_mapIdx]
      rcases h with rfl | rfl
      · rfl
      · cases hu : underlying[i]? with
        | none => rfl
        | some u =>
          have hreserve := hfresh u (List.mem_of_getElem? hu)
          obtain ⟨address, position, reserve⟩ := u
          cases hreserve
          rfl
    simp only [Option.map_some, Option.getD_some]
    cases value.bind (·.reserves) with
    | none => exact hsame [] (.inr rfl)
    | some reserves =>
      rw [assignReserves]
      split
      · rfl
      · next h =>
        refine hsame reserves ?_
        by_contra hne
        rw [not_or] at hne
        exact h ⟨mt List.length_eq_zero_iff.mp hne.1, mt List.length_eq_zero_iff.mp hne.2⟩

theorem reserveOf_eq {u : AssetUnderlyingDto} (hu : u ∈ r.dto.underlying.getD []) :
    r.reserveOf u.address = AssetUnderlyingDto.truthyReserve u := by
  have hnodup := r.distinct
  rw [AssetDto.underlyingAddresses] at hnodup
  rw [reserveOf]
  generalize r.dto.underlying.getD [] = underlying at *
  cases hfind : underlying.find? (·.address = u.address) with
  | none =>
    have hnone := List.find?_eq_none.mp hfind u hu
    exact absurd (decide_eq_true rfl) hnone
  | some u' =>
    have haddress := List.find?_some hfind
    rw [List.inj_on_of_nodup_map hnodup (List.mem_of_find?_eq_some hfind) hu
      (of_decide_eq_true haddress)]
    rfl

/-- The reserves survive if each place has the reserve of the asset that is loaded there. -/
theorem survives_iff_places : r.Survives ↔
    ∀ (i : Nat) (a : Address), r.dto'.underlyingAddresses[i]? = some a →
      r.stored[i]? = r.reserveOf a := by
  have hback : readBack r.loaded r.saved = .ok (r.loaded.map fun dto =>
      cachedDto (r.saved (avgKey dto.chainId dto.address).avgText) dto) := readBack_eq _ _
  have hplace : (r.loaded.map fun dto => cachedDto
      (r.saved (avgKey dto.chainId dto.address).avgText) dto)[r.place]? =
        some (cachedDto (r.saved (avgKey r.dto.chainId r.dto.address).avgText) r.dto') := by
    rw [List.getElem?_map, r.loaded_place, Option.map_some, r.sameAsset]
  have hunderlying := r.underlying_cachedDto (r.saved (avgKey r.dto.chainId r.dto.address).avgText)
  rw [reserves_saved] at hunderlying
  constructor
  · rintro ⟨dtos, dto'', hdtos, hdto'', hsurvive⟩ i a ha
    rw [hback] at hdtos
    cases hdtos
    rw [hplace] at hdto''
    cases hdto''
    rw [AssetDto.underlyingAddresses, List.getElem?_map] at ha
    obtain ⟨u', hu', rfl⟩ := Option.map_eq_some_iff.mp ha
    have hmem : u'.address ∈ r.dto.underlyingAddresses :=
      r.reordered.mem_iff.mp (List.mem_map_of_mem (List.mem_of_getElem? hu'))
    obtain ⟨u, hu, haddress⟩ := List.mem_map.mp hmem
    rw [← haddress, r.reserveOf_eq hu]
    rw [hunderlying] at hsurvive
    refine hsurvive u hu { u' with reserve := r.stored[i]? } ?_ haddress.symm
    refine List.mem_of_getElem? (i := i) ?_
    rw [List.getElem?_mapIdx, hu']
    rfl
  · intro h
    refine ⟨_, _, hback, hplace, fun u hu u'' hu'' haddress => ?_⟩
    rw [hunderlying] at hu''
    obtain ⟨i, hi⟩ := List.getElem?_of_mem hu''
    rw [List.getElem?_mapIdx] at hi
    obtain ⟨u', hu', rfl⟩ := Option.map_eq_some_iff.mp hi
    have haddress' : u'.address = u.address := haddress
    have hi' : r.dto'.underlyingAddresses[i]? = some u'.address := by
      rw [AssetDto.underlyingAddresses, List.getElem?_map, hu']
      rfl
    rw [← r.reserveOf_eq hu, ← haddress']
    exact h i u'.address hi'

/-- The reserves survive exactly if, in the order in which the underlying assets are loaded, those
with a reserve come first, and their reserves are the ones in the cache. -/
theorem survives_iff : r.Survives ↔
    r.stored.take r.dto'.underlyingAddresses.length =
        r.dto'.underlyingAddresses.filterMap r.reserveOf ∧
      r.dto'.underlyingAddresses.Pairwise fun a b =>
        (r.reserveOf b).isSome → (r.reserveOf a).isSome := by
  rw [survives_iff_places, forall_getElem?_eq_iff]

end RoundTrip

/-! ## A pair that is loaded the other way round -/

/-- The second token of a pair comes first in the database. -/
def reversedPair : RoundTrip where
  cache := Store.empty
  before := []
  dto := ⟨1, "0xa", 18, some 2, ["lp"], some [⟨"0xb", 0, some "5"⟩, ⟨"0xc", 1, some "7"⟩]⟩
  after := []
  own := fun _ h => absurd h List.not_mem_nil
  distinct := by decide
  loaded := [⟨1, "0xa", 18, none, ["lp"], some [⟨"0xc", 1, none⟩, ⟨"0xb", 0, none⟩]⟩]
  place := 0
  dto' := ⟨1, "0xa", 18, none, ["lp"], some [⟨"0xc", 1, none⟩, ⟨"0xb", 0, none⟩]⟩
  loaded_place := rfl
  sameAsset := rfl
  reordered := List.Perm.swap _ _ _
  fresh := by decide

/-- Each token is given the reserve of the other. -/
theorem reversedPair_swapped : ¬ reversedPair.Survives := by
  rw [RoundTrip.survives_iff_places]
  intro h
  exact absurd (h 0 "0xc" rfl) (by decide)

end ReservesCache
end Assets
end DefiBackend
