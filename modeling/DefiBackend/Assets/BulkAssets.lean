import DefiBackend.Assets.ReservesCache
import DefiBackend.Theory.Correspondence

/-! # Assets in bulk

`AssetsService.getBulkAssets`, once the assets are loaded: DTOs are made of them and of all assets
under them, at every level, and are given prices, from the cache and from the providers.

* `getBulkAssets`: the whole way from the entities to the DTOs that are returned and the prices that
  are saved;
* `succeeds_getBulkAssets`: when it returns, and what. The providers never make it fail: the
  underlying assets that they are given have DTOs of their own. -/

namespace DefiBackend
namespace Assets
namespace BulkAssets
open Theory SpecificPrices ReservesCache

/-- The columns of an asset that its prices depend on. -/
structure Asset where
  chainId : ChainId
  address : Address
  decimals : Nat
  categories : List String
  deriving DecidableEq

/-- An asset as it is loaded. One that is missing in the cache is made of nothing. -/
inductive AssetEntity
  | mk (asset : Option Asset) (underlying : Option (List (Int × AssetEntity)))

namespace AssetEntity

def asset : AssetEntity → Option Asset
  | ⟨asset, _⟩ => asset

def underlying : AssetEntity → Option (List (Int × AssetEntity))
  | ⟨_, underlying⟩ => underlying

/-- The underlying assets, none where they are not loaded. -/
def links (e : AssetEntity) : List (Int × AssetEntity) := e.underlying.getD []

end AssetEntity

/-- The reference to an underlying asset, by its address. -/
def reference (u : Int × AssetEntity) : Except String AssetUnderlyingDto :=
  match u.2.asset with
  | some asset => .ok ⟨asset.address, u.1, none⟩
  | none => .error typeError

/-- The DTO of an asset, when its address and those it refers to are read. One made of nothing has
no address. -/
def toDto (e : AssetEntity) : Except String AssetDto :=
  match e.asset with
  | none => .error typeError
  | some asset =>
    match e.underlying with
    | none => .ok ⟨asset.chainId, asset.address, asset.decimals, none, asset.categories, none⟩
    | some underlying => do
      let underlying ← underlying.mapM reference
      return ⟨asset.chainId, asset.address, asset.decimals, none, asset.categories, some underlying⟩

mutual

/-- The DTOs of the assets under an asset, level by level, and its own. One that has no underlying
assets gives its own only. -/
def getAssetAPIDtosWithUnderlyingReferences : AssetEntity → List (Except String AssetDto)
  | ⟨asset, none⟩ => [toDto ⟨asset, none⟩]
  | ⟨asset, some underlying⟩ =>
    underlyingAssetDtos underlying ++ [toDto ⟨asset, some underlying⟩]

/-- What is pushed in the loop over the underlying assets. -/
def underlyingAssetDtos : List (Int × AssetEntity) → List (Except String AssetDto)
  | [] => []
  | (_, e) :: underlying =>
    getAssetAPIDtosWithUnderlyingReferences e ++ underlyingAssetDtos underlying

end

def mapAssetsToAPIPlain (entities : List AssetEntity) : List (Except String AssetDto) :=
  entities.flatMap getAssetAPIDtosWithUnderlyingReferences

/-- `underlying?.some(({ reserve }) => reserve)`. -/
def hasReserve (dto : AssetDto) : Bool :=
  (dto.underlying.getD []).any fun u => (AssetUnderlyingDto.truthyReserve u).isSome

structure Answer where
  dtos : List AssetDto
  cache : Cache

/-- The addresses of the DTOs are read for the prices in the cache. -/
def getBulkAssets (priceProviders : List AssetPriceProvider) (cache : Cache)
    (entities : List AssetEntity) : Except String Answer := do
  let dtos ← (mapAssetsToAPIPlain entities).mapM id
  let dtos ← readBack dtos cache
  let assetsUpdatedWithPrices ← updateSpecificAssetsPrices priceProviders dtos
  let dtosToUpdatePricesInCache := assetsUpdatedWithPrices.assets.filter hasReserve
  return ⟨assetsUpdatedWithPrices.assets, saveSpecificAssetPrices dtosToUpdatePricesInCache cache⟩

/-! ## The assets of a tree -/

mutual

/-- An asset and all under it, each after those under it. -/
def nodes : AssetEntity → List AssetEntity
  | ⟨asset, none⟩ => [⟨asset, none⟩]
  | ⟨asset, some underlying⟩ => nodesOf underlying ++ [⟨asset, some underlying⟩]

def nodesOf : List (Int × AssetEntity) → List AssetEntity
  | [] => []
  | (_, e) :: underlying => nodes e ++ nodesOf underlying

end

mutual

theorem getAssetAPIDtos_eq (e : AssetEntity) :
    getAssetAPIDtosWithUnderlyingReferences e = (nodes e).map toDto :=
  match e with
  | ⟨asset, none⟩ => by
    rw [getAssetAPIDtosWithUnderlyingReferences, nodes]
    rfl
  | ⟨asset, some underlying⟩ => by
    rw [getAssetAPIDtosWithUnderlyingReferences, nodes, underlyingAssetDtos_eq underlying,
      List.map_append]
    rfl

theorem underlyingAssetDtos_eq (underlying : List (Int × AssetEntity)) :
    underlyingAssetDtos underlying = (nodesOf underlying).map toDto :=
  match underlying with
  | [] => by
    rw [underlyingAssetDtos, nodesOf]
    rfl
  | (_, e) :: underlying => by
    rw [underlyingAssetDtos, nodesOf, getAssetAPIDtos_eq e, underlyingAssetDtos_eq underlying,
      List.map_append]

end

theorem mem_nodes_self (e : AssetEntity) : e ∈ nodes e := by
  obtain ⟨asset, _ | underlying⟩ := e
  · rw [nodes]
    exact List.mem_singleton_self _
  · rw [nodes]
    exact List.mem_append_right _ (List.mem_singleton_self _)

theorem mem_nodesOf {u : Int × AssetEntity} {underlying : List (Int × AssetEntity)}
    (h : u ∈ underlying) : ∀ e ∈ nodes u.2, e ∈ nodesOf underlying := by
  induction underlying with
  | nil => cases h
  | cons v underlying ih =>
    obtain ⟨position, e'⟩ := v
    intro e he
    rw [nodesOf]
    rcases List.mem_cons.mp h with rfl | h
    · exact List.mem_append_left _ he
    · exact List.mem_append_right _ (ih h e he)

mutual

/-- The underlying assets of one of them are among them. -/
theorem links_nodes (e : AssetEntity) : ∀ n ∈ nodes e, ∀ u ∈ n.links, u.2 ∈ nodes e :=
  match e with
  | ⟨asset, none⟩ => by
    intro n hn u hu
    rw [nodes] at hn
    obtain rfl := List.mem_singleton.mp hn
    cases hu
  | ⟨asset, some underlying⟩ => by
    intro n hn u hu
    rw [nodes] at hn ⊢
    refine List.mem_append_left _ ?_
    rcases List.mem_append.mp hn with hn | hn
    · exact links_nodesOf underlying n hn u hu
    · obtain rfl := List.mem_singleton.mp hn
      exact mem_nodesOf hu _ (mem_nodes_self _)

theorem links_nodesOf (underlying : List (Int × AssetEntity)) :
    ∀ n ∈ nodesOf underlying, ∀ u ∈ n.links, u.2 ∈ nodesOf underlying :=
  match underlying with
  | [] => by
    intro n hn
    rw [nodesOf] at hn
    cases hn
  | (_, e) :: underlying => by
    intro n hn u hu
    rw [nodesOf] at hn ⊢
    rcases List.mem_append.mp hn with hn | hn
    · exact List.mem_append_left _ (links_nodes e n hn u hu)
    · exact List.mem_append_right _ (links_nodesOf underlying n hn u hu)

end

/-! ## DTOs -/

/-- A DTO of an asset, with the addresses of the underlying assets. -/
structure IsDtoOf (n : AssetEntity) (dto : AssetDto) : Prop where
  asset : n.asset = some ⟨dto.chainId, dto.address, dto.decimals, dto.categories⟩
  underlying : (dto.underlyingAddresses.map some).Perm (n.links.map fun u => u.2.asset.map Asset.address)

theorem IsDtoOf.unchanged (h : IsDtoOf n dto) (hsame : Unchanged dto dto') : IsDtoOf n dto' where
  asset := by rw [h.asset, hsame.chainId, hsame.address, hsame.decimals, hsame.categories]
  underlying := (hsame.underlying.map some).trans h.underlying

theorem reference_eq_ok {u : Int × AssetEntity} {r : AssetUnderlyingDto} (h : reference u = .ok r) :
    u.2.asset.map Asset.address = some r.address := by
  rw [reference] at h
  split at h
  · next heq =>
    cases h
    rw [heq]
    rfl
  · cases h

theorem succeeds_reference {u : Int × AssetEntity} :
    Succeeds (reference u) ↔ u.2.asset.isSome := by
  rw [reference]
  cases u.2.asset with
  | none => exact iff_of_false (fun h => by cases h.choose_spec) (by decide)
  | some asset => exact iff_of_true ⟨_, rfl⟩ rfl

theorem toDto_eq_ok {n : AssetEntity} {dto : AssetDto} (h : toDto n = .ok dto) : IsDtoOf n dto := by
  obtain ⟨asset, underlying⟩ := n
  cases asset with
  | none => cases h
  | some asset =>
    cases underlying with
    | none =>
      cases h
      exact ⟨rfl, .refl _⟩
    | some underlying =>
      obtain ⟨refs, hrefs, h⟩ := bind_eq_ok.mp h
      cases h
      refine ⟨rfl, .of_eq ?_⟩
      have haddresses : refs.map (fun r => some r.address) =
          underlying.map fun u => u.2.asset.map Asset.address :=
        map_of_mapM hrefs fun u _ r hr => (reference_eq_ok hr).symm
      rw [AssetDto.underlyingAddresses, Option.getD_some, List.map_map]
      exact haddresses

theorem succeeds_toDto {n : AssetEntity} :
    Succeeds (toDto n) ↔ n.asset.isSome ∧ ∀ u ∈ n.links, u.2.asset.isSome := by
  obtain ⟨asset, underlying⟩ := n
  cases asset with
  | none => exact iff_of_false (fun h => by cases h.choose_spec) (fun h => Bool.false_ne_true h.1)
  | some asset =>
    cases underlying with
    | none => exact iff_of_true ⟨_, rfl⟩ ⟨rfl, fun u hu => by cases hu⟩
    | some underlying =>
      refine (succeeds_bind_of_forall fun _ => succeeds_pure).trans ?_
      rw [succeeds_mapM]
      refine (forall₂_congr fun u _ => succeeds_reference).trans ?_
      exact (and_iff_right rfl).symm

section
variable {entities : List AssetEntity}

theorem mapAssetsToAPIPlain_eq (entities : List AssetEntity) :
    (mapAssetsToAPIPlain entities).mapM id = (entities.flatMap nodes).mapM toDto := by
  have hplain : mapAssetsToAPIPlain entities = (entities.flatMap nodes).map toDto := by
    rw [mapAssetsToAPIPlain, List.map_flatMap]
    exact List.flatMap_congr fun e _ => getAssetAPIDtos_eq e
  rw [hplain, List.mapM_map]
  rfl

theorem links_flatMap {n : AssetEntity} (hn : n ∈ entities.flatMap nodes) :
    ∀ u ∈ n.links, u.2 ∈ entities.flatMap nodes := by
  intro u hu
  obtain ⟨e, he, hn⟩ := List.mem_flatMap.mp hn
  exact List.mem_flatMap.mpr ⟨e, he, links_nodes e n hn u hu⟩

/-- The addresses can be read if no asset is made of nothing. -/
theorem succeeds_plain : Succeeds ((mapAssetsToAPIPlain entities).mapM id) ↔
    ∀ n ∈ entities.flatMap nodes, n.asset.isSome := by
  rw [mapAssetsToAPIPlain_eq, succeeds_mapM]
  constructor
  · exact fun h n hn => (succeeds_toDto.mp (h n hn)).1
  · exact fun h n hn => succeeds_toDto.mpr ⟨h n hn, fun u hu => h u.2 (links_flatMap hn u hu)⟩

/-- The underlying assets of DTOs have DTOs of their own. -/
theorem closed_of_isDtoOf {dtos : List AssetDto}
    (h : List.Forall₂ IsDtoOf (entities.flatMap nodes) dtos) :
    ∀ dto ∈ dtos, ∀ a ∈ dto.underlyingAddresses, ∃ dto' ∈ dtos, dto'.address = a := by
  intro dto hdto a ha
  obtain ⟨n, hn, hdto⟩ := exists_of_mem_right h hdto
  have hmem : some a ∈ n.links.map fun u => u.2.asset.map Asset.address :=
    hdto.underlying.subset (List.mem_map_of_mem ha)
  obtain ⟨u, hu, haddress⟩ := List.mem_map.mp hmem
  obtain ⟨dto', hdto', hu⟩ := exists_of_mem_left h (links_flatMap hn u hu)
  rw [hu.asset] at haddress
  exact ⟨dto', hdto', Option.some.inj haddress⟩

end

/-! ## Prices -/

theorem assignReserves_addresses (reserves : Option (List String))
    (underlying : List AssetUnderlyingDto) :
    (assignReserves reserves underlying).map (·.address) = underlying.map (·.address) := by
  cases reserves with
  | none => rfl
  | some reserves =>
    rw [assignReserves]
    split
    · refine List.ext_getElem? fun i => ?_
      simp [Option.map_map, Function.comp_def]
    · rfl

theorem unchanged_cachedDto (value : Option ReservesCache.AvgPrice) (dto : AssetDto) :
    Unchanged dto (cachedDto value dto) := by
  refine ⟨rfl, rfl, rfl, rfl, .of_eq ?_⟩
  rw [AssetDto.underlyingAddresses, AssetDto.underlyingAddresses, cachedDto]
  cases dto.underlying with
  | none => rfl
  | some underlying => exact assignReserves_addresses _ underlying

/-- The providers change no DTO but for its price, its reserves and the order of its underlying
assets, and none makes it fail if all underlying assets have DTOs. -/
theorem updateSpecificAssetsPrices_spec (providers : List AssetPriceProvider) (dtos : List AssetDto) :
    ((∀ dto ∈ dtos, ∀ a ∈ dto.underlyingAddresses, ∃ dto' ∈ dtos, dto'.address = a) →
      Succeeds (updateSpecificAssetsPrices providers dtos)) ∧
    ∀ s, updateSpecificAssetsPrices providers dtos = .ok s → List.Forall₂ Unchanged dtos s.assets := by
  obtain ⟨outcomes, -, hsame⟩ := exists_outcomes providers dtos
  have hfixed : ∀ provider ∈ outcomes.map ProviderOutcome.provider, provider.Fixed := by
    intro provider hprovider
    obtain ⟨outcome, -, rfl⟩ := List.mem_map.mp hprovider
    exact outcome.fixed
  obtain ⟨hsucceeds, hrun⟩ := updateSpecificAssetsPrices_run dtos hfixed
  rw [← hsame]
  refine ⟨fun hclosed => hsucceeds.mpr fun v _ dto hdto _ => hclosed dto hdto, fun s hs => ?_⟩
  rw [(hrun s hs).assets_eq, List.forall₂_map_right_iff, List.forall₂_same]
  exact fun dto _ => unchanged_progress _ dto

/-! ## The answer -/

/-- A request in bulk returns exactly if no asset is made of nothing, at any level. Whatever the
providers answer or fail with, it then returns a DTO for every asset of the trees, each after those
under it, with the addresses of the underlying assets. -/
theorem succeeds_getBulkAssets (priceProviders : List AssetPriceProvider) (cache : Cache)
    (entities : List AssetEntity) :
    (Succeeds (getBulkAssets priceProviders cache entities) ↔
      ∀ n ∈ entities.flatMap nodes, n.asset.isSome) ∧
    ∀ answer, getBulkAssets priceProviders cache entities = .ok answer →
      List.Forall₂ IsDtoOf (entities.flatMap nodes) answer.dtos := by
  have hplain : ∀ dtos, (mapAssetsToAPIPlain entities).mapM id = .ok dtos →
      List.Forall₂ IsDtoOf (entities.flatMap nodes)
        (dtos.map fun dto => cachedDto (cache (avgKey dto.chainId dto.address).avgText) dto) := by
    intro dtos h
    rw [mapAssetsToAPIPlain_eq] at h
    rw [List.forall₂_map_right_iff]
    exact (mapM_forall₂.mp h).imp fun n dto hdto =>
      (toDto_eq_ok hdto).unchanged (unchanged_cachedDto _ dto)
  constructor
  · rw [← succeeds_plain]
    constructor
    · intro h
      obtain ⟨dtos, hdtos, -⟩ := succeeds_bind.mp h
      exact ⟨dtos, hdtos⟩
    · rintro ⟨dtos, hdtos⟩
      obtain ⟨s, hs⟩ := (updateSpecificAssetsPrices_spec priceProviders _).1
        (closed_of_isDtoOf (hplain dtos hdtos))
      refine ⟨⟨s.assets, saveSpecificAssetPrices (s.assets.filter hasReserve) cache⟩, ?_⟩
      rw [getBulkAssets, hdtos, ok_bind, readBack_eq, ok_bind, hs]
      rfl
  · intro answer h
    obtain ⟨dtos, hdtos, h⟩ := bind_eq_ok.mp h
    rw [readBack_eq, ok_bind] at h
    obtain ⟨s, hs, h⟩ := bind_eq_ok.mp h
    cases h
    have hsame := (updateSpecificAssetsPrices_spec priceProviders _).2 s hs
    refine (forall₂_through.mp ⟨_, hplain dtos hdtos, hsame⟩).imp ?_
    rintro n dto ⟨dto', hdto', hunchanged⟩
    exact hdto'.unchanged hunchanged

end BulkAssets
end Assets
end DefiBackend
