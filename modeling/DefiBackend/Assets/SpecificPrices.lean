import DefiBackend.Common.Address
import DefiBackend.Common.CallData
import DefiBackend.Common.JsMap
import DefiBackend.Common.JsNumber
import DefiBackend.Theory.Correspondence
import DefiBackend.Theory.Fallible
import DefiBackend.Theory.Places
import Mathlib.Data.List.Sort

/-! # Prices of assets with underlying assets

`AssetAnalyserService.updateSpecificAssetsPrices`: the assets without a price are handed to the
price providers, chain by chain and provider by provider, each with what is known of its underlying
assets, and take over the prices and reserves in the answers.

The DTOs are objects: lists of them are lists of their places, and what is read is what stands there
at that time. The `rounds` record what was handed over and what came of it. -/

namespace DefiBackend
namespace Assets
namespace SpecificPrices
open Theory

abbrev ChainId := Nat

structure AssetUnderlyingDto where
  address : Address
  position : Int
  reserve : Option String
  deriving DecidableEq

/-- The fields that the prices depend on. Categories are given by their codes. -/
structure AssetDto where
  chainId : ChainId
  address : Address
  decimals : Nat
  price : Option JsNumber
  categories : List String
  underlying : Option (List AssetUnderlyingDto)
  deriving DecidableEq

structure UnderlyingAsset where
  address : Address
  decimals : Nat
  price : Option JsNumber
  deriving DecidableEq

structure ComplexAsset where
  address : Address
  decimals : Nat
  underlying : Option (List UnderlyingAsset)
  deriving DecidableEq

structure AssetPriceWithUnderlyingReserves where
  address : Address
  price : Option JsNumber
  reserves : Option (List String)
  deriving DecidableEq

/-- A provider answers with prices or fails. -/
structure AssetPriceProvider where
  canHandleCategories : List String → Bool
  getPrices : ChainId → List ComplexAsset → Except String (List AssetPriceWithUnderlyingReserves)

namespace AssetDto

/-- The negation of `!asset.price`. -/
def priced (dto : AssetDto) : Bool := dto.price.any fun price => !price.falsy

/-- `dto.underlying?.sort(...)`, in place. -/
def sortUnderlying (dto : AssetDto) : AssetDto :=
  { dto with underlying :=
      dto.underlying.map (List.insertionSort fun one two => one.position ≤ two.position) }

/-- What the body of the loop over the answered prices does to one DTO. -/
def takePrice (prices : List AssetPriceWithUnderlyingReserves) (dto : AssetDto) : AssetDto :=
  let price := prices.find? (·.address = dto.address)
  { dto with
    price := price.bind (·.price)
    underlying := dto.underlying.map fun underlying =>
      match price.bind (·.reserves) with
      | some reserves => underlying.mapIdx fun index u => { u with reserve := reserves[index]? }
      | none => underlying }

/-- What is read of a DTO as an underlying asset. -/
def underlyingAsset (dto : AssetDto) : UnderlyingAsset := ⟨dto.address, dto.decimals, dto.price⟩

end AssetDto

/-- An asset as it is handed over, with the DTOs from which its underlying assets are taken. -/
structure Handed where
  dto : AssetDto
  sources : Option (List AssetDto)

def Handed.complexAsset (handed : Handed) : ComplexAsset :=
  ⟨handed.dto.address, handed.dto.decimals,
    handed.sources.map fun sources => sources.map AssetDto.underlyingAsset⟩

/-- `allAssets.find(...)`, of which properties are read. -/
def findUnderlying (allAssets : List AssetDto) (underlying : AssetUnderlyingDto) :
    Except String AssetDto :=
  match allAssets.find? (·.address = underlying.address) with
  | some dto => .ok dto
  | none => .error typeError

def hand (allAssets : List AssetDto) (dto : AssetDto) : Except String Handed :=
  match dto.underlying with
  | some underlying => do
    let sources ← underlying.mapM (findUnderlying allAssets)
    return ⟨dto, some sources⟩
  | none => .ok ⟨dto, none⟩

/-- What came of one provider on one chain: the DTOs when it was called, what it was called with, its
answer, and the DTOs after it. Nothing was handed over if it was not called. -/
structure Round where
  chainId : ChainId
  provider : Nat
  dtos : List Nat
  before : List AssetDto
  handed : List Handed
  inputs : List ComplexAsset
  answer : Except String (List AssetPriceWithUnderlyingReserves)
  after : List AssetDto

structure State where
  assets : List AssetDto
  rounds : List Round

def updateSpecificAssetsPricesForChain (chainId : ChainId) (dtos : List Nat) (place : Nat)
    (provider : AssetPriceProvider) (s : State) : Except String State := do
  let allAssets := modifyAt AssetDto.sortUnderlying dtos s.assets
  let handed ← (elementsAt dtos allAssets).mapM (hand allAssets)
  let inputs := handed.map Handed.complexAsset
  let answer := provider.getPrices chainId inputs
  let after := match answer with
    | .ok prices => modifyAt (AssetDto.takePrice prices) dtos allAssets
    | .error _ => allAssets
  return ⟨after, s.rounds ++ [⟨chainId, place, dtos, allAssets, handed, inputs, answer, after⟩]⟩

/-- The body of the loop over the providers. -/
def visitProvider (chain : ChainId × List Nat) (s : State) (provider : AssetPriceProvider × Nat) :
    Except String State :=
  let priceProviderAssets := chain.2.filter fun i =>
    (s.assets[i]?).any fun dto => provider.1.canHandleCategories dto.categories
  if priceProviderAssets = [] then
    .ok ⟨s.assets, s.rounds ++ [⟨chain.1, provider.2, [], s.assets, [], [], .ok [], s.assets⟩]⟩
  else
    updateSpecificAssetsPricesForChain chain.1 priceProviderAssets provider.2 provider.1 s

/-- The assets without a price, by chain. -/
def assetsChainMap (assets : List AssetDto) : JsMap ChainId (List Nat) :=
  JsMap.collect ((places (fun dto => !dto.priced) assets).filterMap fun i =>
    (assets[i]?).map fun dto => (dto.chainId, i))

def updateSpecificAssetsPrices (priceProviders : List AssetPriceProvider) (assets : List AssetDto) :
    Except String State :=
  (assetsChainMap assets).foldlM
    (fun s chain => priceProviders.zipIdx.foldlM (visitProvider chain) s) ⟨assets, []⟩

/-! ## The order of the visits

The answers are given in advance for every provider and chain: those of any one run can be. -/

/-- The answer of a provider on a chain does not depend on what it is handed. -/
def AssetPriceProvider.Fixed (provider : AssetPriceProvider) : Prop :=
  ∀ chainId assets, provider.getPrices chainId assets = provider.getPrices chainId []

abbrev Visit := (ChainId × List Nat) × (AssetPriceProvider × Nat)

/-- The visits of a run, in their order. -/
def visits (providers : List AssetPriceProvider) (assets : List AssetDto) : List Visit :=
  (assetsChainMap assets).flatMap fun chain => providers.zipIdx.map (chain, ·)

/-- Whether a visit is about an asset, given as it is at first. -/
def Visit.selects (v : Visit) (dto : AssetDto) : Bool :=
  !dto.priced && dto.chainId = v.1.1 && v.2.1.canHandleCategories dto.categories

/-- What one provider makes of an asset without a price. -/
def visit (dto : AssetDto) (provider : AssetPriceProvider) : AssetDto :=
  if provider.canHandleCategories dto.categories then
    match provider.getPrices dto.chainId [] with
    | .ok prices => dto.sortUnderlying.takePrice prices
    | .error _ => dto.sortUnderlying
  else dto

/-- An asset after some visits. -/
def progress (done : List Visit) (dto : AssetDto) : AssetDto :=
  if dto.priced then dto else
    ((done.filter fun v => v.1.1 = dto.chainId).map fun v => v.2.1).foldl visit dto

/-- The assets as they stand when they are handed over. -/
def memoryAt (done : List Visit) (v : Visit) (dto : AssetDto) : AssetDto :=
  if v.selects dto then (progress done dto).sortUnderlying else progress done dto

/-- The addresses of the underlying assets. -/
def AssetDto.underlyingAddresses (dto : AssetDto) : List Address :=
  (dto.underlying.getD []).map (·.address)

/-- What no visit changes. -/
structure Unchanged (dto dto' : AssetDto) : Prop where
  chainId : dto'.chainId = dto.chainId
  address : dto'.address = dto.address
  decimals : dto'.decimals = dto.decimals
  categories : dto'.categories = dto.categories
  underlying : dto'.underlyingAddresses.Perm dto.underlyingAddresses

theorem Unchanged.refl (dto : AssetDto) : Unchanged dto dto := ⟨rfl, rfl, rfl, rfl, .refl _⟩

theorem Unchanged.trans (h : Unchanged a b) (h' : Unchanged b c) : Unchanged a c where
  chainId := h'.chainId.trans h.chainId
  address := h'.address.trans h.address
  decimals := h'.decimals.trans h.decimals
  categories := h'.categories.trans h.categories
  underlying := h'.underlying.trans h.underlying

theorem unchanged_sortUnderlying (dto : AssetDto) : Unchanged dto dto.sortUnderlying := by
  refine ⟨rfl, rfl, rfl, rfl, ?_⟩
  rw [AssetDto.underlyingAddresses, AssetDto.underlyingAddresses, AssetDto.sortUnderlying]
  cases dto.underlying with
  | none => exact .refl _
  | some underlying => exact (List.perm_insertionSort _ underlying).map _

theorem unchanged_takePrice (dto : AssetDto) (prices : List AssetPriceWithUnderlyingReserves) :
    Unchanged dto (dto.takePrice prices) := by
  refine ⟨rfl, rfl, rfl, rfl, .of_eq ?_⟩
  rw [AssetDto.underlyingAddresses, AssetDto.underlyingAddresses, AssetDto.takePrice]
  cases dto.underlying with
  | none => rfl
  | some underlying =>
    rw [Option.map_some]
    split
    · refine List.ext_getElem? fun i => ?_
      simp [Option.map_map, Function.comp_def]
    · rfl

theorem unchanged_visit (dto : AssetDto) (provider : AssetPriceProvider) :
    Unchanged dto (visit dto provider) := by
  rw [visit]
  split
  · split
    · exact (unchanged_sortUnderlying dto).trans (unchanged_takePrice _ _)
    · exact unchanged_sortUnderlying dto
  · exact .refl dto

theorem unchanged_foldl_visit (dto : AssetDto) (providers : List AssetPriceProvider) :
    Unchanged dto (providers.foldl visit dto) := by
  induction providers generalizing dto with
  | nil => exact .refl dto
  | cons p providers ih => exact (unchanged_visit dto p).trans (ih _)

theorem unchanged_progress (done : List Visit) (dto : AssetDto) :
    Unchanged dto (progress done dto) := by
  rw [progress]
  split
  · exact .refl dto
  · exact unchanged_foldl_visit dto _

theorem unchanged_memoryAt (done : List Visit) (v : Visit) (dto : AssetDto) :
    Unchanged dto (memoryAt done v dto) := by
  rw [memoryAt]
  split
  · exact (unchanged_progress done dto).trans (unchanged_sortUnderlying _)
  · exact unchanged_progress done dto

theorem progress_append (done : List Visit) (v : Visit) (dto : AssetDto) :
    progress (done ++ [v]) dto =
      if !dto.priced && dto.chainId = v.1.1 then visit (progress done dto) v.2.1
      else progress done dto := by
  rw [progress, progress, List.filter_append]
  by_cases hpriced : dto.priced
  · simp [hpriced]
  · by_cases hchain : v.1.1 = dto.chainId
    · simp [hpriced, hchain]
    · simp [hpriced, hchain, Ne.symm hchain]

/-! ## Rounds -/

/-- What a round looks like that comes after some visits. -/
structure Round.Made (assets : List AssetDto) (done : List Visit) (v : Visit) (round : Round) :
    Prop where
  chainId : round.chainId = v.1.1
  provider : round.provider = v.2.2
  dtos : round.dtos = places v.selects assets
  before : round.before = assets.map (memoryAt done v)
  inputs : round.inputs = round.handed.map Handed.complexAsset
  handed : ((assets.filter v.selects).map (memoryAt done v)).mapM
    (hand (assets.map (memoryAt done v))) = .ok round.handed
  answer : round.dtos ≠ [] → round.answer = v.2.1.getPrices v.1.1 []
  after : round.after = assets.map (progress (done ++ [v]))

/-- All underlying assets of what a visit is about are among the assets, on any chain. -/
def Visit.Finds (assets : List AssetDto) (v : Visit) : Prop :=
  ∀ dto ∈ assets, v.selects dto → ∀ a ∈ dto.underlyingAddresses, ∃ e ∈ assets, e.address = a

theorem findUnderlying_eq_ok {assets : List AssetDto} {u : AssetUnderlyingDto} :
    findUnderlying assets u = .ok e ↔ assets.find? (·.address = u.address) = some e := by
  rw [findUnderlying]
  split
  · next h => simp [h]
  · next h => simp [h]

theorem succeeds_findUnderlying {assets : List AssetDto} {u : AssetUnderlyingDto} :
    Succeeds (findUnderlying assets u) ↔ ∃ e ∈ assets, e.address = u.address := by
  constructor
  · rintro ⟨e, h⟩
    have hfind := findUnderlying_eq_ok.mp h
    have haddress := List.find?_some hfind
    exact ⟨e, List.mem_of_find?_eq_some hfind, of_decide_eq_true haddress⟩
  · rintro ⟨e, he, haddress⟩
    have hsome : (assets.find? (·.address = u.address)).isSome := by
      rw [List.find?_isSome]
      exact ⟨e, he, decide_eq_true haddress⟩
    obtain ⟨e', he'⟩ := Option.isSome_iff_exists.mp hsome
    exact ⟨e', findUnderlying_eq_ok.mpr he'⟩

theorem succeeds_hand {assets : List AssetDto} {dto : AssetDto} :
    Succeeds (hand assets dto) ↔ ∀ a ∈ dto.underlyingAddresses, ∃ e ∈ assets, e.address = a := by
  rw [hand, AssetDto.underlyingAddresses]
  cases dto.underlying with
  | none => simp
  | some underlying =>
    refine (succeeds_bind_of_forall fun _ => succeeds_pure).trans ?_
    rw [succeeds_mapM, Option.getD_some, List.forall_mem_map]
    exact forall₂_congr fun _ _ => succeeds_findUnderlying

/-- The visit that comes next changes the assets that it selects. -/
theorem progress_append_eq (done : List Visit) (v : Visit) (dto : AssetDto) :
    progress (done ++ [v]) dto =
      if v.selects dto then
        match v.2.1.getPrices v.1.1 [] with
        | .ok prices => (memoryAt done v dto).takePrice prices
        | .error _ => memoryAt done v dto
      else memoryAt done v dto := by
  have hsame := unchanged_progress done dto
  rw [progress_append, memoryAt]
  by_cases hturn : !dto.priced && dto.chainId = v.1.1
  · obtain ⟨hpriced, hchain⟩ := Bool.and_eq_true_iff.mp hturn
    have hchain' : dto.chainId = v.1.1 := of_decide_eq_true hchain
    have hselects : v.selects dto = v.2.1.canHandleCategories dto.categories := by
      rw [Visit.selects, hturn, Bool.true_and]
    rw [if_pos hturn, visit, hsame.categories, hsame.chainId, hchain', hselects]
    by_cases hcan : v.2.1.canHandleCategories dto.categories
    · rw [if_pos hcan, if_pos hcan, if_pos hcan]
    · rw [if_neg hcan, if_neg hcan, if_neg hcan]
  · have hselects : ¬ v.selects dto := by
      rw [Visit.selects, Bool.eq_false_iff.mpr hturn]
      exact Bool.false_ne_true
    rw [if_neg hturn, if_neg hselects, if_neg hselects]

section
variable {assets : List AssetDto} {done : List Visit} {v : Visit} {s s' : State}

theorem filter_chain (hplaces : v.1.2 = places (fun dto => !dto.priced && dto.chainId = v.1.1) assets)
    (hs : s.assets = assets.map (progress done)) :
    (v.1.2.filter fun i =>
      (s.assets[i]?).any fun dto => v.2.1.canHandleCategories dto.categories) =
      places v.selects assets := by
  have hselects : (fun dto => (!dto.priced && dto.chainId = v.1.1) &&
      v.2.1.canHandleCategories (progress done dto).categories) = v.selects := by
    funext dto
    rw [(unchanged_progress done dto).categories, Visit.selects]
  rw [hplaces, hs, filter_places (progress done) fun dto =>
    v.2.1.canHandleCategories dto.categories, hselects]

theorem succeeds_handAll : Succeeds (((assets.filter v.selects).map (memoryAt done v)).mapM
    (hand (assets.map (memoryAt done v)))) ↔ v.Finds assets := by
  rw [succeeds_mapM, List.forall_mem_map, Visit.Finds]
  constructor
  · intro h dto hdto hselects a ha
    obtain ⟨e, he, haddress⟩ := succeeds_hand.mp (h dto (List.mem_filter.mpr ⟨hdto, hselects⟩)) a
      ((unchanged_memoryAt done v dto).underlying.mem_iff.mpr ha)
    obtain ⟨e₀, he₀, rfl⟩ := List.mem_map.mp he
    exact ⟨e₀, he₀, (unchanged_memoryAt done v e₀).address.symm.trans haddress⟩
  · intro h dto hdto
    obtain ⟨hdto, hselects⟩ := List.mem_filter.mp hdto
    refine succeeds_hand.mpr fun a ha => ?_
    obtain ⟨e, he, haddress⟩ :=
      h dto hdto hselects a ((unchanged_memoryAt done v dto).underlying.mem_iff.mp ha)
    exact ⟨_, List.mem_map_of_mem he, (unchanged_memoryAt done v e).address.trans haddress⟩

/-- One visit: it goes through if it finds the underlying assets, and makes a round. -/
theorem visitProvider_step (hfixed : v.2.1.Fixed)
    (hplaces : v.1.2 = places (fun dto => !dto.priced && dto.chainId = v.1.1) assets)
    (hs : s.assets = assets.map (progress done)) :
    (Succeeds (visitProvider v.1 s v.2) ↔ v.Finds assets) ∧
      ∀ s', visitProvider v.1 s v.2 = .ok s' → s'.assets = assets.map (progress (done ++ [v])) ∧
        ∃ round, s'.rounds = s.rounds ++ [round] ∧ round.Made assets done v := by
  rw [visitProvider, filter_chain hplaces hs]
  by_cases hnil : places v.selects assets = []
  · have hnone := places_eq_nil.mp hnil
    have hfilter : assets.filter v.selects = [] :=
      List.filter_eq_nil_iff.mpr fun dto hdto => hnone dto hdto
    have hbefore : assets.map (memoryAt done v) = s.assets := by
      rw [hs]
      refine List.map_congr_left fun dto hdto => ?_
      rw [memoryAt, if_neg (hnone dto hdto)]
    have hafter : assets.map (progress (done ++ [v])) = s.assets := by
      rw [← hbefore]
      refine List.map_congr_left fun dto hdto => ?_
      rw [progress_append_eq, if_neg (hnone dto hdto)]
    rw [if_pos hnil]
    refine ⟨iff_of_true succeeds_ok fun dto hdto h => absurd h (hnone dto hdto), ?_⟩
    rintro s' h
    cases h
    refine ⟨hafter.symm, _, rfl, rfl, rfl, hnil.symm, hbefore.symm, rfl, ?_,
      fun h => absurd rfl h, hafter.symm⟩
    rw [hfilter]
    rfl
  · have hmemory : modifyAt AssetDto.sortUnderlying (places v.selects assets) s.assets =
        assets.map (memoryAt done v) := by
      rw [hs, modifyAt_places]
      rfl
    rw [if_neg hnil, updateSpecificAssetsPricesForChain, hmemory, elementsAt_places]
    refine ⟨(succeeds_bind_of_forall fun _ => succeeds_pure).trans succeeds_handAll, ?_⟩
    intro s' h
    obtain ⟨handed, hhanded, h⟩ := bind_eq_ok.mp h
    cases h
    have hafter : (match v.2.1.getPrices v.1.1 (handed.map Handed.complexAsset) with
        | .ok prices => modifyAt (AssetDto.takePrice prices) (places v.selects assets)
            (assets.map (memoryAt done v))
        | .error _ => assets.map (memoryAt done v)) = assets.map (progress (done ++ [v])) := by
      rw [hfixed, funext (progress_append_eq done v)]
      split
      · exact modifyAt_places _ _
      · simp only [ite_self]
    exact ⟨hafter, _, rfl, rfl, rfl, rfl, rfl, rfl, hhanded, fun _ => hfixed _ _, hafter⟩

end

/-! ## Runs -/

theorem assetsChainMap_eq (assets : List AssetDto) : assetsChainMap assets =
    (unique ((assets.filter fun dto => !dto.priced).map (·.chainId))).map fun chainId =>
      (chainId, places (fun dto => !dto.priced && dto.chainId = chainId) assets) := by
  have hkeys : ((assets.zipIdx.filter fun x => !x.1.priced).map fun x => (x.1.chainId, x.2)).map
      Prod.fst = (assets.filter fun dto => !dto.priced).map (·.chainId) := by
    conv_rhs => rw [← List.zipIdx_map_fst 0 assets, List.filter_map, List.map_map]
    rw [List.map_map]
    rfl
  rw [assetsChainMap, keyed_places, JsMap.collect_eq, hkeys]
  refine List.map_congr_left fun chainId _ => congrArg (Prod.mk chainId) ?_
  exact filter_keyed_places (P := fun dto : AssetDto => !dto.priced) AssetDto.chainId chainId

section
variable {providers : List AssetPriceProvider} {assets : List AssetDto}

theorem mem_visits {v : Visit} : v ∈ visits providers assets ↔
    (∃ dto ∈ assets, ¬ dto.priced ∧ dto.chainId = v.1.1) ∧
      v.1.2 = places (fun dto => !dto.priced && dto.chainId = v.1.1) assets ∧
      v.2 ∈ providers.zipIdx := by
  obtain ⟨⟨chainId, refs⟩, provider⟩ := v
  simp only [visits, assetsChainMap_eq, List.mem_flatMap, List.mem_map, mem_unique,
    List.mem_filter, Bool.not_eq_true', Bool.not_eq_true]
  constructor
  · rintro ⟨_, ⟨chainId', ⟨dto, ⟨hdto, hpriced⟩, rfl⟩, rfl⟩, provider', hprovider, h⟩
    cases h
    exact ⟨⟨dto, hdto, hpriced, rfl⟩, rfl, hprovider⟩
  · rintro ⟨⟨dto, hdto, hpriced, rfl⟩, hrefs, hprovider⟩
    exact ⟨_, ⟨_, ⟨dto, ⟨hdto, hpriced⟩, rfl⟩, rfl⟩, provider, hprovider, by rw [hrefs]⟩

variable (providers) in
/-- The visits on one chain are those of the providers in their order. -/
theorem filter_visits {dto : AssetDto} (hdto : dto ∈ assets) (hpriced : ¬ dto.priced) :
    ((visits providers assets).filter fun v => v.1.1 = dto.chainId).map (fun v => v.2) =
      providers.zipIdx := by
  have hmem : dto.chainId ∈ unique ((assets.filter fun dto => !dto.priced).map (·.chainId)) := by
    rw [mem_unique]
    exact List.mem_map_of_mem (List.mem_filter.mpr ⟨hdto, by simpa using hpriced⟩)
  have hnodup : (unique ((assets.filter fun dto => !dto.priced).map (·.chainId))).Nodup :=
    nodup_unique _
  rw [visits, assetsChainMap_eq, List.flatMap_map, List.filter_flatMap,
    flatMap_eq_of_nodup hnodup hmem]
  · simp [List.filter_map, Function.comp_def]
  · intro chainId _ hne
    simp [List.filter_map, Function.comp_def, hne]

theorem updateSpecificAssetsPrices_eq (providers : List AssetPriceProvider)
    (assets : List AssetDto) : updateSpecificAssetsPrices providers assets =
      (visits providers assets).foldlM (fun s v => visitProvider v.1 s v.2) ⟨assets, []⟩ :=
  foldlM_foldlM visitProvider (assetsChainMap assets) providers.zipIdx _

/-- What holds after some visits. -/
structure RunInv (assets : List AssetDto) (done : List Visit) (s : State) : Prop where
  assets_eq : s.assets = assets.map (progress done)
  length_eq : s.rounds.length = done.length
  made {n : Nat} {v : Visit} : done[n]? = some v →
    ∃ round, s.rounds[n]? = some round ∧ round.Made assets (done.take n) v

theorem RunInv.init (assets : List AssetDto) : RunInv assets [] ⟨assets, []⟩ where
  assets_eq := by
    have hid : progress [] = id := by
      funext dto
      rw [progress]
      split <;> rfl
    rw [hid, List.map_id]
  length_eq := rfl
  made h := by cases h

theorem RunInv.step {done : List Visit} {v : Visit} {s s' : State} {round : Round}
    (H : RunInv assets done s) (hassets : s'.assets = assets.map (progress (done ++ [v])))
    (hrounds : s'.rounds = s.rounds ++ [round]) (hround : round.Made assets done v) :
    RunInv assets (done ++ [v]) s' where
  assets_eq := hassets
  length_eq := by rw [hrounds, List.length_append, List.length_append, H.length_eq]; rfl
  made {n w} hw := by
    rw [hrounds]
    rcases Nat.lt_trichotomy n done.length with hn | rfl | hn
    · rw [List.getElem?_append_left hn] at hw
      obtain ⟨round', hget, hmade⟩ := H.made hw
      rw [List.take_append_of_le_length (Nat.le_of_lt hn)]
      exact ⟨round', by rw [List.getElem?_append_left (H.length_eq ▸ hn), hget], hmade⟩
    · rw [List.getElem?_concat_length] at hw
      cases hw
      rw [List.take_left, ← H.length_eq]
      exact ⟨round, List.getElem?_concat_length .., hround⟩
    · rw [List.getElem?_eq_none (by rw [List.length_append]; exact hn)] at hw
      cases hw

variable (assets) in
/-- A run goes through if all visits find the underlying assets. -/
theorem updateSpecificAssetsPrices_run (hfixed : ∀ provider ∈ providers, provider.Fixed) :
    (Succeeds (updateSpecificAssetsPrices providers assets) ↔
      ∀ v ∈ visits providers assets, v.Finds assets) ∧
      ∀ s, updateSpecificAssetsPrices providers assets = .ok s →
        RunInv assets (visits providers assets) s := by
  have hstep {done : List Visit} {s : State} {v : Visit} (hv : v ∈ visits providers assets)
      (H : RunInv assets done s) := by
    obtain ⟨-, hplaces, hprovider⟩ := mem_visits.mp hv
    exact visitProvider_step (hfixed _ (List.fst_mem_of_mem_zipIdx hprovider)) hplaces H.assets_eq
  have hrun := foldlM_history (f := fun s (v : Visit) => visitProvider v.1 s v.2) (g := fun v => [v])
    (I := RunInv assets) (P := fun v => v.Finds assets) (l := visits providers assets)
    (fun done s v hv H => (hstep hv H).1)
    (fun done s v hv s' H h => by
      obtain ⟨hassets, round, hrounds, hround⟩ := (hstep hv H).2 s' h
      exact H.step hassets hrounds hround) (RunInv.init assets)
  rw [← updateSpecificAssetsPrices_eq, List.flatMap_singleton', List.nil_append] at hrun
  exact hrun

end

/-! ## Right runs -/

/-- Some underlying asset is not among the assets of the chain. -/
def Misses (assets : List AssetDto) (dto : AssetDto) : Prop :=
  ∃ a ∈ dto.underlyingAddresses, ∀ e ∈ assets, e.chainId = dto.chainId → e.address ≠ a

/-- The provider is called with the assets at its places, and with the address, the decimals and the
price of a DTO of the chain, under the address of each of their underlying assets. -/
structure Round.OwnSources (round : Round) : Prop where
  dtos : round.handed.map Handed.dto = elementsAt round.dtos round.before
  own : ∀ handed ∈ round.handed, handed.dto.chainId = round.chainId ∧
    handed.sources.map (fun sources => sources.map fun e => (e.chainId, e.address)) =
      handed.dto.underlying.map fun underlying =>
        underlying.map fun u => (round.chainId, u.address)
  listed : ∀ handed ∈ round.handed, ∀ sources, handed.sources = some sources →
    ∀ e ∈ sources, e ∈ round.before
  inputs : round.inputs = round.handed.map fun handed =>
    { address := handed.dto.address
      decimals := handed.dto.decimals
      underlying := handed.sources.map fun sources => sources.map fun e =>
        ⟨e.address, e.decimals, e.price⟩ }

/-- The provider has answered, and the asset at the place has a price from then on. -/
def Round.Sets (round : Round) (i : Nat) : Prop :=
  i ∈ round.dtos ∧ (∃ prices, round.answer = .ok prices) ∧
    ∃ dto, round.after[i]? = some dto ∧ dto.price.isSome

/-- The prices that were set by one round are still there after another. -/
def Round.KeptBy (earlier later : Round) : Prop :=
  ∀ i, earlier.Sets i → ∀ dto, later.after[i]? = some dto → dto.price.isSome

structure RightRun (assets : List AssetDto) (s : State) : Prop where
  ownSources : ∀ round ∈ s.rounds, round.OwnSources
  missing : ∀ (i : Nat) (dto dto' : AssetDto), assets[i]? = some dto → ¬ dto.priced →
    Misses assets dto → s.assets[i]? = some dto' → ¬ dto'.priced
  kept : s.rounds.Pairwise Round.KeptBy

/-- DTOs of one asset have the same data. -/
def SameData (assets : List AssetDto) : Prop :=
  ∀ dto ∈ assets, ∀ dto' ∈ assets, dto'.chainId = dto.chainId → dto'.address = dto.address →
    dto'.decimals = dto.decimals ∧ dto'.price = dto.price ∧ dto'.categories = dto.categories

/-- In both runs the same is handed over. -/
def SameInputs (s s' : State) : Prop :=
  ∀ round ∈ s.rounds, ∃ round' ∈ s'.rounds, round'.chainId = round.chainId ∧
    round'.provider = round.provider ∧
    round'.inputs.Perm round.inputs

/-- In every order of the assets the run returns and is right, all assets end as they do in this
order, and the providers are handed the same. -/
def RightInAnyOrder (providers : List AssetPriceProvider) (assets : List AssetDto) : Prop :=
  ∃ s, updateSpecificAssetsPrices providers assets = .ok s ∧
    ∀ assets', assets'.Perm assets →
      ∃ s', updateSpecificAssetsPrices providers assets' = .ok s' ∧ RightRun assets' s' ∧
        s'.assets.Perm s.assets ∧ (SameData assets → SameInputs s s')

/-- Each answer is that of the provider at its place to what it has been called with. -/
def Asked (providers : List AssetPriceProvider) (s : State) : Prop :=
  ∀ round ∈ s.rounds, round.dtos ≠ [] → ∃ provider, providers[round.provider]? = some provider ∧
    round.answer = provider.getPrices round.chainId round.inputs

/-! ## When runs are right -/

/-- A provider and its answers, which are given for every chain. -/
structure ProviderOutcome where
  canHandleCategories : List String → Bool
  prices : ChainId → Except String (List AssetPriceWithUnderlyingReserves)

def ProviderOutcome.provider (outcome : ProviderOutcome) : AssetPriceProvider :=
  ⟨outcome.canHandleCategories, fun chainId _ => outcome.prices chainId⟩

/-- A provider that stands at a place, with answers that are given for every chain and place. -/
def AssetPriceProvider.answering
    (answers : ChainId → Nat → Except String (List AssetPriceWithUnderlyingReserves))
    (provider : AssetPriceProvider × Nat) : ProviderOutcome :=
  ⟨provider.1.canHandleCategories, fun chainId => answers chainId provider.2⟩

/-- What a visit hands over, if it asks for an answer. -/
def handAll (chain : ChainId × List Nat) (s : State) (canHandleCategories : List String → Bool) :
    Except String (List Handed) :=
  let dtos := chain.2.filter fun i =>
    (s.assets[i]?).any fun dto => canHandleCategories dto.categories
  let allAssets := modifyAt AssetDto.sortUnderlying dtos s.assets
  (elementsAt dtos allAssets).mapM (hand allAssets)

/-- A visit depends on the answer to what it hands over. -/
theorem visitProvider_congr {chain : ChainId × List Nat} {s : State}
    {provider provider' : AssetPriceProvider} {place : Nat}
    (hcan : provider'.canHandleCategories = provider.canHandleCategories)
    (h : ∀ handed, handAll chain s provider.canHandleCategories = .ok handed →
      provider'.getPrices chain.1 (handed.map Handed.complexAsset) =
        provider.getPrices chain.1 (handed.map Handed.complexAsset)) :
    visitProvider chain s (provider', place) = visitProvider chain s (provider, place) := by
  simp only [visitProvider, updateSpecificAssetsPricesForChain, hcan]
  split
  · rfl
  · simp only [handAll] at h
    cases hhanded : List.mapM (hand _) _ with
    | error e => rfl
    | ok handed => rw [ok_bind, ok_bind, h handed hhanded]

/-- A visit asks for one answer at most. -/
theorem exists_answer (chain : ChainId × List Nat) (s : State) (provider : AssetPriceProvider × Nat) :
    ∃ answer, ∀ provider' : AssetPriceProvider,
      provider'.canHandleCategories = provider.1.canHandleCategories →
      (∀ handed, provider'.getPrices chain.1 handed = answer) →
        visitProvider chain s (provider', provider.2) = visitProvider chain s provider := by
  cases hhanded : handAll chain s provider.1.canHandleCategories with
  | error e =>
    refine ⟨.error e, fun provider' hcan _ => visitProvider_congr hcan fun handed h => ?_⟩
    rw [hhanded] at h
    cases h
  | ok handed =>
    refine ⟨provider.1.getPrices chain.1 (handed.map Handed.complexAsset), ?_⟩
    intro provider' hcan hanswer
    refine visitProvider_congr hcan fun handed' h => ?_
    rw [hhanded] at h
    cases h
    exact hanswer _

/-- Visits of different providers or chains can have their answers given in advance. -/
theorem exists_answers {done : List Visit} (hnodup : (done.map fun v => (v.1.1, v.2.2)).Nodup)
    (s : State) : ∃ answers, done.foldlM (fun s v =>
      visitProvider v.1 s ((AssetPriceProvider.answering answers v.2).provider, v.2.2)) s =
        done.foldlM (fun s v => visitProvider v.1 s v.2) s := by
  induction done generalizing s with
  | nil => exact ⟨fun _ _ => .ok [], rfl⟩
  | cons v done ih =>
    obtain ⟨hv, hdone⟩ := List.nodup_cons.mp hnodup
    obtain ⟨answer, hanswer⟩ := exists_answer v.1 s v.2
    cases hvisit : visitProvider v.1 s v.2 with
    | error e =>
      refine ⟨fun _ _ => answer, ?_⟩
      have hfirst := hanswer
        (AssetPriceProvider.answering (fun _ _ => answer) v.2).provider rfl fun _ => rfl
      rw [List.foldlM_cons, List.foldlM_cons, hfirst, hvisit]
      rfl
    | ok s' =>
      obtain ⟨answers, ih⟩ := ih hdone s'
      let answers' := fun chainId place =>
        if chainId = v.1.1 ∧ place = v.2.2 then answer else answers chainId place
      have hfirst := hanswer (AssetPriceProvider.answering answers' v.2).provider rfl
        fun _ => if_pos ⟨rfl, rfl⟩
      refine ⟨answers', ?_⟩
      rw [List.foldlM_cons, List.foldlM_cons, hfirst, hvisit, ok_bind, ok_bind, ← ih]
      refine foldlM_congr (fun w hw s => ?_) s'
      -- the answers to the later visits are those that were given
      have hne : ¬ (w.1.1 = v.1.1 ∧ w.2.2 = v.2.2) := by
        rintro ⟨hchain, hplace⟩
        exact hv (List.mem_map.mpr ⟨w, hw, Prod.ext hchain hplace⟩)
      exact visitProvider_congr rfl fun _ _ => if_neg hne

/-- Every run is one in which the answers are given in advance. -/
theorem exists_outcomes (providers : List AssetPriceProvider) (assets : List AssetDto) :
    ∃ outcomes : List ProviderOutcome,
      outcomes.map (·.canHandleCategories) = providers.map (·.canHandleCategories) ∧
        updateSpecificAssetsPrices (outcomes.map ProviderOutcome.provider) assets =
          updateSpecificAssetsPrices providers assets := by
  have hnodup : ((visits providers assets).map fun v => (v.1.1, v.2.2)).Nodup := by
    have hkeys : (visits providers assets).map (fun v => (v.1.1, v.2.2)) =
        (unique ((assets.filter fun dto => !dto.priced).map (·.chainId))).product
          (providers.zipIdx.map Prod.snd) := by
      rw [visits, assetsChainMap_eq, List.flatMap_map, List.map_flatMap, List.product]
      simp only [List.map_map, Function.comp_def]
    rw [hkeys, List.zipIdx_map_snd]
    exact (nodup_unique _).product List.nodup_range'
  obtain ⟨answers, hanswers⟩ := exists_answers hnodup ⟨assets, []⟩
  have hzip : ((providers.zipIdx.map (AssetPriceProvider.answering answers)).map
      ProviderOutcome.provider).zipIdx = providers.zipIdx.map fun provider =>
        ((AssetPriceProvider.answering answers provider).provider, provider.2) := by
    refine List.ext_getElem? fun i => ?_
    simp [List.getElem?_zipIdx, Option.map_map, Function.comp_def]
  refine ⟨providers.zipIdx.map (AssetPriceProvider.answering answers), ?_, ?_⟩
  · conv_rhs => rw [← List.zipIdx_map_fst 0 providers]
    rw [List.map_map, List.map_map]
    rfl
  · have hvisits : visits ((providers.zipIdx.map (AssetPriceProvider.answering answers)).map
        ProviderOutcome.provider) assets = (visits providers assets).map fun v =>
          (v.1, (AssetPriceProvider.answering answers v.2).provider, v.2.2) := by
      rw [visits, hzip, visits, List.map_flatMap]
      simp only [List.map_map, Function.comp_def]
    rw [updateSpecificAssetsPrices_eq, updateSpecificAssetsPrices_eq, ← hanswers, hvisits,
      List.foldlM_map]

/-- The provider is asked for the asset and does not fail. -/
def AssetPriceProvider.answers (dto : AssetDto) (provider : AssetPriceProvider) : Bool :=
  provider.canHandleCategories dto.categories && (provider.getPrices dto.chainId []).isOk

/-- The price in its answer. -/
def AssetPriceProvider.quote (dto : AssetDto) (provider : AssetPriceProvider) : Option JsNumber :=
  (provider.getPrices dto.chainId []).toOption.bind fun prices =>
    (prices.find? (·.address = dto.address)).bind (·.price)

/-- The underlying assets are among the assets, and nothing has their addresses on other chains. -/
def OwnUnderlying (assets : List AssetDto) (dto : AssetDto) : Prop :=
  ∀ a ∈ dto.underlyingAddresses, (∃ e ∈ assets, e.address = a) ∧
    ∀ e ∈ assets, e.address = a → e.chainId = dto.chainId

/-- After a provider that has a price, no provider answers without one. -/
def KeepsQuotes (providers : List AssetPriceProvider) (dto : AssetDto) : Prop :=
  (providers.filter (·.answers dto)).Pairwise fun earlier later =>
    (earlier.quote dto).isSome → (later.quote dto).isSome

theorem ProviderOutcome.fixed (outcome : ProviderOutcome) : outcome.provider.Fixed :=
  fun _ _ => rfl

theorem price_visit {dto dto' : AssetDto} (hsame : Unchanged dto dto')
    (provider : AssetPriceProvider) : (visit dto' provider).price =
      if provider.answers dto then provider.quote dto else dto'.price := by
  rw [visit, AssetPriceProvider.answers, AssetPriceProvider.quote, hsame.categories, hsame.chainId]
  by_cases hcan : provider.canHandleCategories dto.categories
  · rw [if_pos hcan, hcan, Bool.true_and]
    cases provider.getPrices dto.chainId [] with
    | ok prices =>
      have haddress : dto'.sortUnderlying.address = dto.address := hsame.address
      show (prices.find? (·.address = dto'.sortUnderlying.address)).bind (·.price) = _
      rw [haddress]
      rfl
    | error _ => rfl
  · rw [if_neg hcan, Bool.eq_false_iff.mpr hcan]
    rfl

/-- Assets that no provider is asked for stay as they are. -/
theorem foldl_visit_of_not {providers : List AssetPriceProvider} {dto : AssetDto}
    (h : ∀ provider ∈ providers, ¬ provider.canHandleCategories dto.categories) :
    providers.foldl visit dto = dto := by
  induction providers with
  | nil => rfl
  | cons p providers ih =>
    obtain ⟨hp, hproviders⟩ := List.forall_mem_cons.mp h
    have hvisit : visit dto p = dto := by rw [visit, if_neg hp]
    rw [List.foldl_cons, hvisit, ih hproviders]

/-- A visit sets the price of an asset that it is about, if the provider answers. -/
theorem price_progress_append (done : List Visit) (v : Visit) (dto : AssetDto) :
    (progress (done ++ [v]) dto).price =
      if v.selects dto && v.2.1.answers dto then v.2.1.quote dto else (progress done dto).price := by
  rw [progress_append, Visit.selects]
  by_cases hturn : !dto.priced && dto.chainId = v.1.1
  · rw [if_pos hturn, hturn, Bool.true_and, price_visit (unchanged_progress done dto),
      AssetPriceProvider.answers, ← Bool.and_assoc, Bool.and_self]
  · rw [if_neg hturn, Bool.eq_false_iff.mpr hturn]
    rfl

section
variable {providers : List AssetPriceProvider} {assets : List AssetDto} {dto : AssetDto}

variable (providers) in
theorem providers_visits (hdto : dto ∈ assets) (hpriced : ¬ dto.priced) :
    ((visits providers assets).filter fun v => v.1.1 = dto.chainId).map (fun v => v.2.1) =
      providers := by
  have hproviders := congrArg (List.map Prod.fst) (filter_visits providers hdto hpriced)
  rw [List.zipIdx_map_fst, List.map_map] at hproviders
  exact hproviders

/-- What holds of the providers in their order holds of the visits on a chain. -/
theorem pairwise_visits (hdto : dto ∈ assets) (hpriced : ¬ dto.priced)
    {R : AssetPriceProvider → AssetPriceProvider → Prop} : providers.Pairwise R ↔
      (visits providers assets).Pairwise fun v w =>
        v.1.1 = dto.chainId → w.1.1 = dto.chainId → R v.2.1 w.2.1 := by
  conv_lhs => rw [← providers_visits providers hdto hpriced]
  rw [List.pairwise_map, List.pairwise_filter]
  simp only [decide_eq_true_eq]

/-- What becomes of an asset in a run. -/
theorem progress_visits (hdto : dto ∈ assets) :
    progress (visits providers assets) dto =
      if dto.priced then dto else providers.foldl visit dto := by
  rw [progress]
  split
  · rfl
  · next hpriced => rw [providers_visits providers hdto hpriced]

theorem keepsQuotes_iff (hdto : dto ∈ assets) (hpriced : ¬ dto.priced) :
    KeepsQuotes providers dto ↔ (visits providers assets).Pairwise fun v w =>
      v.1.1 = dto.chainId → w.1.1 = dto.chainId → v.2.1.answers dto → w.2.1.answers dto →
        (v.2.1.quote dto).isSome → (w.2.1.quote dto).isSome := by
  rw [KeepsQuotes, List.pairwise_filter, pairwise_visits hdto hpriced]

/-- The visit of a provider that is asked for an asset. -/
theorem exists_visit (hdto : dto ∈ assets) (hpriced : ¬ dto.priced)
    {provider : AssetPriceProvider} (hprovider : provider ∈ providers)
    (hcan : provider.canHandleCategories dto.categories) :
    ∃ v ∈ visits providers assets, v.selects dto ∧ v.2.1 = provider := by
  rw [← providers_visits providers hdto hpriced] at hprovider
  obtain ⟨v, hv, rfl⟩ := List.mem_map.mp hprovider
  obtain ⟨hv, hchain⟩ := List.mem_filter.mp hv
  have hchain' : v.1.1 = dto.chainId := of_decide_eq_true hchain
  refine ⟨v, hv, ?_, rfl⟩
  rw [Visit.selects, hcan, hchain', decide_eq_true rfl, Bool.eq_false_iff.mpr hpriced]
  rfl

theorem Visit.selects_iff {v : Visit} : v.selects dto ↔
    ¬ dto.priced ∧ dto.chainId = v.1.1 ∧ v.2.1.canHandleCategories dto.categories := by
  rw [Visit.selects, Bool.and_eq_true, Bool.and_eq_true, Bool.not_eq_true', decide_eq_true_eq,
    Bool.not_eq_true, and_assoc]

/-- A round sets the price of an asset that it is about if the provider answers with a price. -/
theorem Round.Made.sets_iff {done : List Visit} {v : Visit} {round : Round} {i : Nat}
    (H : round.Made assets done v) (hi : assets[i]? = some dto) :
    round.Sets i ↔ v.selects dto ∧ v.2.1.answers dto ∧ (v.2.1.quote dto).isSome := by
  have hmem : i ∈ round.dtos ↔ v.selects dto := by
    rw [H.dtos, mem_places, hi]
    simp
  have hafter : round.after[i]? = some (progress (done ++ [v]) dto) := by
    rw [H.after, List.getElem?_map, hi, Option.map_some]
  rw [Round.Sets, hmem, hafter]
  apply and_congr_right
  intro hselects
  obtain ⟨-, hchain, hcan⟩ := Visit.selects_iff.mp hselects
  have hanswer := H.answer (List.ne_nil_of_mem (hmem.mpr hselects))
  have hanswers : v.2.1.answers dto = round.answer.isOk := by
    rw [hanswer, AssetPriceProvider.answers, hcan, hchain, Bool.true_and]
  have hok : (∃ prices, round.answer = .ok prices) ↔ v.2.1.answers dto := by
    rw [hanswers]
    cases round.answer with
    | ok prices => simp [Except.isOk, Except.toBool]
    | error e => simp [Except.isOk, Except.toBool]
  rw [hok]
  apply and_congr_right
  intro hanswers
  have hprice := price_progress_append done v dto
  rw [hselects, hanswers, Bool.and_self, if_pos rfl] at hprice
  rw [← hprice]
  constructor
  · rintro ⟨dto', h, hsome⟩
    cases h
    exact hsome
  · intro hsome
    exact ⟨_, rfl, hsome⟩

/-- Prices are kept in a run exactly when providers keep the prices of those before them. -/
theorem RunInv.kept_iff {s : State} (H : RunInv assets (visits providers assets) s) :
    s.rounds.Pairwise Round.KeptBy ↔
      ∀ dto ∈ assets, ¬ dto.priced → KeepsQuotes providers dto := by
  constructor
  · intro hkept dto hdto hpriced
    rw [keepsQuotes_iff hdto hpriced, pairwise_iff_getElem?]
    intro i j v w hij hv hw hchain hchain' hanswers hanswers' hquote
    obtain ⟨n, hn⟩ := List.getElem?_of_mem hdto
    obtain ⟨earlier, hearlier, hmade⟩ := H.made hv
    obtain ⟨later, hlater, hmade'⟩ := H.made hw
    have hselects : v.selects dto :=
      Visit.selects_iff.mpr ⟨hpriced, hchain.symm, (Bool.and_eq_true_iff.mp hanswers).1⟩
    have hselects' : w.selects dto :=
      Visit.selects_iff.mpr ⟨hpriced, hchain'.symm, (Bool.and_eq_true_iff.mp hanswers').1⟩
    have hsets := (hmade.sets_iff hn).mpr ⟨hselects, hanswers, hquote⟩
    have hafter : later.after[n]? = some (progress ((visits providers assets).take j ++ [w]) dto) := by
      rw [hmade'.after, List.getElem?_map, hn, Option.map_some]
    have hprice := pairwise_iff_getElem?.mp hkept hij hearlier hlater n hsets _ hafter
    rwa [price_progress_append, hselects', hanswers', Bool.and_self, if_pos rfl] at hprice
  · intro hkeeps
    rw [pairwise_iff_getElem?]
    intro i j earlier later hij hearlier hlater n hsets
    have hlength : j < (visits providers assets).length := by
      rw [← H.length_eq]
      exact (List.getElem?_eq_some_iff.mp hlater).1
    obtain ⟨_, hearlier', hmade⟩ := H.made (List.getElem?_eq_getElem (Nat.lt_trans hij hlength))
    obtain ⟨_, hlater', hmade'⟩ := H.made (List.getElem?_eq_getElem hlength)
    rw [hearlier] at hearlier'
    rw [hlater] at hlater'
    cases hearlier'
    cases hlater'
    have hmem := hsets.1
    rw [hmade.dtos] at hmem
    obtain ⟨dto, hn, -⟩ := mem_places.mp hmem
    have hdto := List.mem_of_getElem? hn
    obtain ⟨hselects, hanswers, hquote⟩ := (hmade.sets_iff hn).mp hsets
    obtain ⟨hpriced, hchain, -⟩ := Visit.selects_iff.mp hselects
    have hquotes := pairwise_iff_getElem?.mp ((keepsQuotes_iff hdto hpriced).mp (hkeeps dto hdto hpriced))
    -- from the visit that sets the price on, the price is there after every visit
    have hset : ∀ m, i + 1 ≤ m → m ≤ (visits providers assets).length →
        (progress ((visits providers assets).take m) dto).price.isSome := by
      intro m hm
      induction m, hm using Nat.le_induction with
      | base =>
        intro hle
        rw [List.take_succ_eq_append_getElem hle, price_progress_append, hselects, hanswers]
        exact hquote
      | succ m hm ih =>
        intro hle
        rw [List.take_succ_eq_append_getElem hle, price_progress_append]
        split
        · next hturn =>
          obtain ⟨hselects', hanswers'⟩ := Bool.and_eq_true_iff.mp hturn
          exact hquotes hm (List.getElem?_eq_getElem _) (List.getElem?_eq_getElem hle) hchain.symm
            (Visit.selects_iff.mp hselects').2.1.symm hanswers hanswers' hquote
        · exact ih (Nat.le_of_lt hle)
    intro dto' hdto'
    rw [hmade'.after, ← List.take_succ_eq_append_getElem hlength, List.getElem?_map, hn] at hdto'
    cases hdto'
    exact hset (j + 1) (Nat.succ_le_succ (Nat.le_of_lt hij)) hlength

/-! ### The sources -/

/-- What is taken over when an asset is handed over. -/
theorem hand_spec {allAssets : List AssetDto} {handed : Handed}
    (h : hand allAssets dto = .ok handed) : handed.dto = dto ∧
      handed.sources.map (List.map (·.address)) =
        dto.underlying.map (List.map fun u => u.address) ∧
      ∀ sources, handed.sources = some sources →
        ∀ e ∈ sources, e ∈ allAssets ∧ e.address ∈ dto.underlyingAddresses := by
  rw [hand] at h
  rw [AssetDto.underlyingAddresses]
  cases hunderlying : dto.underlying with
  | none =>
    rw [hunderlying] at h
    cases h
    exact ⟨rfl, rfl, fun _ h => nomatch h⟩
  | some underlying =>
    rw [hunderlying] at h
    obtain ⟨sources, hsources, h⟩ := bind_eq_ok.mp h
    cases h
    refine ⟨rfl, congrArg some ?_, ?_⟩
    · refine map_of_mapM hsources fun u _ e he => ?_
      have haddress := List.find?_some (findUnderlying_eq_ok.mp he)
      exact of_decide_eq_true haddress
    · intro sources' h e he
      cases h
      obtain ⟨u, hu, he⟩ := (mem_of_mapM_ok hsources).mp he
      have hfind := findUnderlying_eq_ok.mp he
      have haddress := List.find?_some hfind
      refine ⟨List.mem_of_find?_eq_some hfind, List.mem_map.mpr ⟨u, hu, ?_⟩⟩
      exact (of_decide_eq_true haddress).symm

/-- What a visit hands over of an asset. -/
theorem Round.Made.mem_handed {done : List Visit} {v : Visit} {round : Round}
    (H : round.Made assets done v) {handed : Handed} : handed ∈ round.handed ↔
      ∃ dto ∈ assets, v.selects dto ∧
        hand (assets.map (memoryAt done v)) (memoryAt done v dto) = .ok handed := by
  rw [mem_of_mapM_ok H.handed]
  simp only [List.mem_map, List.mem_filter]
  constructor
  · rintro ⟨_, ⟨dto, ⟨hdto, hselects⟩, rfl⟩, h⟩
    exact ⟨dto, hdto, hselects, h⟩
  · rintro ⟨dto, hdto, hselects, h⟩
    exact ⟨_, ⟨dto, ⟨hdto, hselects⟩, rfl⟩, h⟩

/-- The sources of what is handed over are on its chain. -/
theorem chainId_of_source {done : List Visit} {v : Visit} (hselects : v.selects dto)
    (hown : OwnUnderlying assets dto) {e : AssetDto} (he : e ∈ assets)
    (haddress : (memoryAt done v e).address ∈ (memoryAt done v dto).underlyingAddresses) :
    e.chainId = v.1.1 := by
  rw [(unchanged_memoryAt done v e).address,
    (unchanged_memoryAt done v dto).underlying.mem_iff] at haddress
  exact ((hown _ haddress).2 e he rfl).trans (Visit.selects_iff.mp hselects).2.1

theorem Round.Made.ownSources {done : List Visit} {v : Visit} {round : Round}
    (H : round.Made assets done v)
    (hown : ∀ dto ∈ assets, v.selects dto → OwnUnderlying assets dto) : round.OwnSources where
  dtos := by
    rw [H.dtos, H.before, elementsAt_places]
    refine (map_of_mapM H.handed fun dto _ handed h => (hand_spec h).1).trans ?_
    exact List.map_id _
  own handed hhanded := by
    obtain ⟨dto, hdto, hselects, h⟩ := H.mem_handed.mp hhanded
    obtain ⟨hsame, haddresses, hsources⟩ := hand_spec h
    have hchain := (Visit.selects_iff.mp hselects).2.1
    rw [hsame, (unchanged_memoryAt done v dto).chainId, hchain, H.chainId]
    refine ⟨rfl, ?_⟩
    have hpairs : handed.sources.map (fun sources => sources.map fun e => (e.chainId, e.address)) =
        (handed.sources.map (List.map (·.address))).map (List.map (Prod.mk v.1.1)) := by
      cases hsome : handed.sources with
      | none => rfl
      | some sources =>
        rw [Option.map_some, Option.map_some, Option.map_some, List.map_map]
        refine congrArg some (List.map_congr_left fun e he => ?_)
        obtain ⟨hmem, haddress⟩ := hsources sources hsome e he
        obtain ⟨e₀, he₀, rfl⟩ := List.mem_map.mp hmem
        have hchain' := chainId_of_source hselects (hown dto hdto hselects) he₀ haddress
        rw [(unchanged_memoryAt done v e₀).chainId, hchain']
        rfl
    rw [hpairs, haddresses, Option.map_map]
    refine congrArg (fun f => Option.map f _) (funext fun underlying => ?_)
    rw [Function.comp_apply, List.map_map]
    rfl
  listed handed hhanded sources hsome e he := by
    obtain ⟨dto, -, -, h⟩ := H.mem_handed.mp hhanded
    rw [H.before]
    exact ((hand_spec h).2.2 sources hsome e he).1
  inputs := H.inputs

/-- The asset that comes first under the address of an underlying asset has its place. -/
theorem Round.Made.chainId_of_head {e : AssetDto} {rest : List AssetDto} {done : List Visit}
    {v : Visit} {round : Round} (H : round.Made (e :: rest) done v) (hround : round.OwnSources)
    (hdto : dto ∈ e :: rest) (hselects : v.selects dto) (he : e.address ∈ dto.underlyingAddresses) :
    e.chainId = dto.chainId := by
  have hdto' := List.mem_map_of_mem (f := memoryAt done v)
    (List.mem_filter.mpr ⟨hdto, hselects⟩)
  obtain ⟨handed, hhanded⟩ := succeeds_mapM.mp ⟨_, H.handed⟩ _ hdto'
  obtain ⟨-, hsources⟩ := hround.own handed (H.mem_handed.mpr ⟨dto, hdto, hselects, hhanded⟩)
  have hchain := (Visit.selects_iff.mp hselects).2.1
  rw [← (unchanged_memoryAt done v dto).underlying.mem_iff] at he
  rw [hand] at hhanded
  rw [AssetDto.underlyingAddresses] at he
  cases hunderlying : (memoryAt done v dto).underlying with
  | none =>
    rw [hunderlying] at he
    cases he
  | some underlying =>
    rw [hunderlying] at he hhanded
    obtain ⟨u, hu, haddress⟩ := List.mem_map.mp he
    obtain ⟨sources, hmapM, h⟩ := bind_eq_ok.mp hhanded
    cases h
    have hfind : findUnderlying ((e :: rest).map (memoryAt done v)) u = .ok (memoryAt done v e) := by
      rw [findUnderlying_eq_ok, List.map_cons, List.find?_cons_of_pos]
      exact decide_eq_true ((unchanged_memoryAt done v e).address.trans haddress.symm)
    have hmem := (mem_of_mapM_ok hmapM).mpr ⟨u, hu, hfind⟩
    have hpair := congrArg (fun o => (o.getD []).map Prod.fst) hsources
    simp only [hunderlying, Option.map_some, Option.getD_some, List.map_map,
      Function.comp_def] at hpair
    have hchain' : (memoryAt done v e).chainId = round.chainId := by
      have hmem' := List.mem_map_of_mem (f := fun e : AssetDto => e.chainId) hmem
      rw [hpair] at hmem'
      exact (List.mem_map.mp hmem').choose_spec.2.symm
    rw [← (unchanged_memoryAt done v e).chainId, hchain', H.chainId, hchain]

/-! ### Reordered assets -/

/-- What the prices of two DTOs depend on. -/
structure SamePrices (dto dto' : AssetDto) : Prop where
  chainId : dto'.chainId = dto.chainId
  address : dto'.address = dto.address
  categories : dto'.categories = dto.categories
  price : dto'.price = dto.price

theorem SamePrices.visit {dto' : AssetDto} (h : SamePrices dto dto')
    (provider : AssetPriceProvider) :
    SamePrices (SpecificPrices.visit dto provider) (SpecificPrices.visit dto' provider) where
  chainId := by
    rw [(unchanged_visit dto' provider).chainId, (unchanged_visit dto provider).chainId, h.chainId]
  address := by
    rw [(unchanged_visit dto' provider).address, (unchanged_visit dto provider).address, h.address]
  categories := by
    rw [(unchanged_visit dto' provider).categories, (unchanged_visit dto provider).categories,
      h.categories]
  price := by
    rw [price_visit (.refl dto'), price_visit (.refl dto), AssetPriceProvider.answers,
      AssetPriceProvider.answers, AssetPriceProvider.quote, AssetPriceProvider.quote, h.chainId,
      h.address, h.categories, h.price]

theorem SamePrices.foldl_visit {dto' : AssetDto} (h : SamePrices dto dto')
    (providers : List AssetPriceProvider) :
    SamePrices (providers.foldl SpecificPrices.visit dto)
      (providers.foldl SpecificPrices.visit dto') := by
  induction providers generalizing dto dto' with
  | nil => exact h
  | cons p providers ih => exact ih (h.visit p)

/-- An asset of the chain before a visit. -/
theorem progress_take {n : Nat} {v : Visit} (hdto : dto ∈ assets) (hchain : dto.chainId = v.1.1)
    (hv : (visits providers assets)[n]? = some v) :
    progress ((visits providers assets).take n) dto =
      if dto.priced then dto else (providers.take v.2.2).foldl visit dto := by
  rw [progress]
  split
  · rfl
  · next hpriced =>
    refine congrArg (List.foldl visit dto) ?_
    exact filter_take_of_zipIdx (filter_visits _ hdto hpriced) hv (decide_eq_true hchain.symm)

/-- What a provider is handed of an asset of the chain before a visit. -/
theorem price_memoryAt {n : Nat} {v : Visit} (hdto : dto ∈ assets) (hchain : dto.chainId = v.1.1)
    (hv : (visits providers assets)[n]? = some v) :
    (memoryAt ((visits providers assets).take n) v dto).price =
      if dto.priced then dto.price else ((providers.take v.2.2).foldl visit dto).price := by
  have hprice : (memoryAt ((visits providers assets).take n) v dto).price =
      (progress ((visits providers assets).take n) dto).price := by
    rw [memoryAt]
    split <;> rfl
  rw [hprice, progress_take hdto hchain hv]
  split <;> rfl

end

section
variable {providers : List AssetPriceProvider} {assets assets' : List AssetDto} {s s' : State}

theorem OwnUnderlying.perm (hperm : assets'.Perm assets) {dto : AssetDto} :
    OwnUnderlying assets' dto ↔ OwnUnderlying assets dto := by
  simp only [OwnUnderlying, hperm.mem_iff]

/-- In a reordered list a visit of the same provider selects the same. -/
theorem exists_visit_of_perm (hperm : assets'.Perm assets) {v : Visit}
    (hv : v ∈ visits providers assets) :
    ∃ w ∈ visits providers assets', w.1.1 = v.1.1 ∧ w.2 = v.2 ∧ w.selects = v.selects := by
  obtain ⟨⟨dto, hdto, hpriced, hchain⟩, -, hprovider⟩ := mem_visits.mp hv
  have hdto' := hperm.mem_iff.mpr hdto
  exact ⟨((v.1.1, places (fun dto => !dto.priced && dto.chainId = v.1.1) assets'), v.2),
    mem_visits.mpr ⟨⟨dto, hdto', hpriced, hchain⟩, rfl, hprovider⟩, rfl, rfl, rfl⟩

/-- What is handed over does not depend on the order of the assets, if it is their chain's. -/
theorem RunInv.sameInputs (hperm : assets'.Perm assets)
    (H : RunInv assets (visits providers assets) s)
    (H' : RunInv assets' (visits providers assets') s')
    (hown : ∀ dto ∈ assets, ∀ v ∈ visits providers assets, v.selects dto →
      OwnUnderlying assets dto) (hdata : SameData assets) : SameInputs s s' := by
  intro round hround
  obtain ⟨n, hn⟩ := List.getElem?_of_mem hround
  have hlength : n < (visits providers assets).length := by
    rw [← H.length_eq]
    exact (List.getElem?_eq_some_iff.mp hn).1
  have hget := List.getElem?_eq_getElem hlength
  obtain ⟨_, hround', hmade⟩ := H.made hget
  rw [hn] at hround'
  cases hround'
  have hv := List.getElem_mem hlength
  obtain ⟨w, hw, hchain, hprovider, hselects⟩ := exists_visit_of_perm hperm hv
  obtain ⟨k, hk⟩ := List.getElem?_of_mem hw
  obtain ⟨round', hround', hmade'⟩ := H'.made hk
  generalize (visits providers assets)[n] = v at *
  refine ⟨round', List.mem_of_getElem? hround', ?_, ?_, ?_⟩
  · rw [hmade'.chainId, hchain, hmade.chainId]
  · rw [hmade'.provider, hprovider, hmade.provider]
  · have hmemory : (assets'.filter w.selects).map
        (memoryAt ((visits providers assets').take k) w) =
          (assets'.filter v.selects).map (memoryAt ((visits providers assets).take n) v) := by
      rw [hselects]
      refine List.map_congr_left fun dto hdto => ?_
      obtain ⟨hdto, hdto'⟩ := List.mem_filter.mp hdto
      have hchain' := (Visit.selects_iff.mp hdto').2.1
      rw [memoryAt, memoryAt, hselects, progress_take hdto (hchain'.trans hchain.symm) hk,
        progress_take (hperm.mem_iff.mp hdto) hchain' hget, hprovider]
    have hhanded' := hmade'.handed
    rw [hmemory] at hhanded'
    rw [hmade.inputs, hmade'.inputs]
    refine perm_map_of_mapM ((hperm.filter _).map _) hmade.handed hhanded' ?_
    intro dto hdto handed handed' h h'
    obtain ⟨dto₀, hdto₀, rfl⟩ := List.mem_map.mp hdto
    obtain ⟨hdto₀, hselects₀⟩ := List.mem_filter.mp hdto₀
    have hown₀ := hown dto₀ hdto₀ v hv hselects₀
    obtain ⟨hsame, haddresses, hsources⟩ := hand_spec h
    obtain ⟨hsame', haddresses', hsources'⟩ := hand_spec h'
    rw [Handed.complexAsset, Handed.complexAsset, hsame, hsame']
    refine congrArg _ ?_
    rw [← haddresses'] at haddresses
    cases hsome : handed.sources with
    | none =>
      rw [hsome] at haddresses
      rw [Option.map_eq_none_iff.mp haddresses.symm]
    | some sources =>
      rw [hsome] at haddresses
      obtain ⟨sources', hsome', haddresses⟩ := Option.map_eq_some_iff.mp haddresses.symm
      rw [hsome', Option.map_some, Option.map_some]
      refine congrArg some (map_eq_map_of_map_eq haddresses fun e' he' e he haddress => ?_)
      obtain ⟨hmem, hmem'⟩ := hsources sources hsome e he
      obtain ⟨hmem₁, hmem₁'⟩ := hsources' sources' hsome' e' he'
      obtain ⟨e, he₀, rfl⟩ := List.mem_map.mp hmem
      obtain ⟨e', he₀', rfl⟩ := List.mem_map.mp hmem₁
      have hunchanged := unchanged_memoryAt ((visits providers assets).take n) v e
      have hunchanged' := unchanged_memoryAt ((visits providers assets').take k) w e'
      have hchain₀ := chainId_of_source hselects₀ hown₀ he₀ hmem'
      rw [hunchanged'.address] at hmem₁'
      have hchain₁ : e'.chainId = v.1.1 := by
        rw [(unchanged_memoryAt _ v dto₀).underlying.mem_iff] at hmem₁'
        exact ((hown₀ _ hmem₁').2 e' (hperm.mem_iff.mp he₀') rfl).trans
          (Visit.selects_iff.mp hselects₀).2.1
      rw [hunchanged'.address, hunchanged.address] at haddress
      obtain ⟨hdecimals, hprice, hcategories⟩ :=
        hdata e he₀ e' (hperm.mem_iff.mp he₀') (hchain₁.trans hchain₀.symm) haddress
      have hprices : SamePrices e e' := ⟨hchain₁.trans hchain₀.symm, haddress, hcategories, hprice⟩
      rw [AssetDto.underlyingAsset, AssetDto.underlyingAsset, hunchanged'.address,
        hunchanged.address, haddress, hunchanged'.decimals, hunchanged.decimals, hdecimals,
        price_memoryAt he₀ hchain₀ hget, price_memoryAt he₀' (hchain₁.trans hchain.symm) hk,
        AssetDto.priced, AssetDto.priced, hprice, hprovider, (hprices.foldl_visit _).price]

end

/-! ### Runs in any order -/

/-- Every asset that is handed over has its underlying assets, and answers keep the prices. -/
structure WellSourced (providers : List AssetPriceProvider) (assets : List AssetDto) : Prop where
  own : ∀ dto ∈ assets, ¬ dto.priced →
    (∃ provider ∈ providers, provider.canHandleCategories dto.categories) → OwnUnderlying assets dto
  keeps : ∀ dto ∈ assets, ¬ dto.priced → KeepsQuotes providers dto

section
variable {providers : List AssetPriceProvider} {assets assets' : List AssetDto} {s s' : State}

theorem WellSourced.perm (H : WellSourced providers assets) (hperm : assets'.Perm assets) :
    WellSourced providers assets' where
  own dto hdto hpriced hprovider :=
    (OwnUnderlying.perm hperm).mpr (H.own dto (hperm.mem_iff.mp hdto) hpriced hprovider)
  keeps dto hdto := H.keeps dto (hperm.mem_iff.mp hdto)

theorem WellSourced.own_of_selects (H : WellSourced providers assets) {dto : AssetDto}
    (hdto : dto ∈ assets) {v : Visit} (hv : v ∈ visits providers assets) (hselects : v.selects dto) :
    OwnUnderlying assets dto := by
  obtain ⟨-, -, hprovider⟩ := mem_visits.mp hv
  obtain ⟨hpriced, -, hcan⟩ := Visit.selects_iff.mp hselects
  exact H.own dto hdto hpriced ⟨_, List.fst_mem_of_mem_zipIdx hprovider, hcan⟩

theorem WellSourced.succeeds (H : WellSourced providers assets)
    (hfixed : ∀ provider ∈ providers, provider.Fixed) :
    Succeeds (updateSpecificAssetsPrices providers assets) := by
  rw [(updateSpecificAssetsPrices_run _ hfixed).1]
  intro v hv dto hdto hselects a ha
  exact (H.own_of_selects hdto hv hselects a ha).1

theorem WellSourced.rightRun (H : WellSourced providers assets)
    (Hrun : RunInv assets (visits providers assets) s) : RightRun assets s where
  ownSources round hround := by
    obtain ⟨n, hn⟩ := List.getElem?_of_mem hround
    have hlength : n < (visits providers assets).length := by
      rw [← Hrun.length_eq]
      exact (List.getElem?_eq_some_iff.mp hn).1
    obtain ⟨_, hround', hmade⟩ := Hrun.made (List.getElem?_eq_getElem hlength)
    rw [hn] at hround'
    cases hround'
    exact hmade.ownSources fun dto hdto => H.own_of_selects hdto (List.getElem_mem hlength)
  missing i dto dto' hi hpriced hmisses hi' := by
    have hdto := List.mem_of_getElem? hi
    rw [Hrun.assets_eq, List.getElem?_map, hi, Option.map_some, progress_visits hdto,
      if_neg hpriced] at hi'
    cases hi'
    -- a provider is not asked for what misses its underlying assets
    have hnot : ∀ provider ∈ providers, ¬ provider.canHandleCategories dto.categories := by
      intro provider hprovider hcan
      obtain ⟨a, ha, hmiss⟩ := hmisses
      obtain ⟨⟨e, he, haddress⟩, hchain⟩ := H.own dto hdto hpriced ⟨provider, hprovider, hcan⟩ a ha
      exact hmiss e he (hchain e he haddress) haddress
    rwa [foldl_visit_of_not hnot]
  kept := Hrun.kept_iff.mpr H.keeps

theorem assets_perm (hperm : assets'.Perm assets)
    (H : RunInv assets (visits providers assets) s)
    (H' : RunInv assets' (visits providers assets') s') : s'.assets.Perm s.assets := by
  have hsame : assets'.map (progress (visits providers assets')) =
      assets'.map (progress (visits providers assets)) := by
    refine List.map_congr_left fun dto hdto => ?_
    rw [progress_visits hdto, progress_visits (hperm.mem_iff.mp hdto)]
  rw [H.assets_eq, H'.assets_eq, hsame]
  exact hperm.map _

theorem RightInAnyOrder.wellSourced (H : RightInAnyOrder providers assets)
    (hfixed : ∀ provider ∈ providers, provider.Fixed) : WellSourced providers assets := by
  obtain ⟨s, hs, H⟩ := H
  have hrun {assets' : List AssetDto} := updateSpecificAssetsPrices_run assets' hfixed
  refine ⟨fun dto hdto hpriced ⟨provider, hprovider, hcan⟩ a ha => ⟨?_, fun e he haddress => ?_⟩, ?_⟩
  · obtain ⟨v, hv, hselects, -⟩ := exists_visit hdto hpriced hprovider hcan
    exact hrun.1.mp ⟨s, hs⟩ v hv dto hdto hselects a ha
  · -- in the order in which this asset comes first it is taken
    obtain ⟨before, rest, rfl⟩ := List.append_of_mem he
    have hperm : (e :: (before ++ rest)).Perm (before ++ e :: rest) := List.perm_middle.symm
    obtain ⟨s', hs', hright, -⟩ := H _ hperm
    obtain ⟨v, hv, hselects, -⟩ :=
      exists_visit (hperm.mem_iff.mpr hdto) hpriced hprovider hcan
    obtain ⟨n, hn⟩ := List.getElem?_of_mem hv
    obtain ⟨round, hround, hmade⟩ := (hrun.2 s' hs').made hn
    exact hmade.chainId_of_head (hright.ownSources round (List.mem_of_getElem? hround))
      (hperm.mem_iff.mpr hdto) hselects (haddress ▸ ha)
  · obtain ⟨s', hs', hright, -⟩ := H assets (.refl _)
    exact (hrun.2 s' hs').kept_iff.mp hright.kept

end

/-- A visit ends with a round, whose answer is that of the provider. -/
theorem rounds_visitProvider {chain : ChainId × List Nat} {s s' : State}
    {provider : AssetPriceProvider × Nat} (h : visitProvider chain s provider = .ok s') :
    ∃ round, s'.rounds = s.rounds ++ [round] ∧ round.chainId = chain.1 ∧
      round.provider = provider.2 ∧
      (round.dtos ≠ [] → round.answer = provider.1.getPrices chain.1 round.inputs) := by
  dsimp only [visitProvider] at h
  split at h
  · cases h
    exact ⟨_, rfl, rfl, rfl, fun hne => absurd rfl hne⟩
  · obtain ⟨handed, -, h⟩ := bind_eq_ok.mp h
    cases h
    exact ⟨_, rfl, rfl, rfl, fun _ => rfl⟩

/-- Whatever the providers answer, they are asked for what is handed over. -/
theorem asked_of_run {providers : List AssetPriceProvider} {assets : List AssetDto} {s : State}
    (h : updateSpecificAssetsPrices providers assets = .ok s) : Asked providers s := by
  rw [updateSpecificAssetsPrices_eq] at h
  obtain ⟨rounds, (hrounds : s.rounds = [] ++ rounds), hvisits⟩ :=
    foldlM_pushes (fun _ _ _ hvisit => rounds_visitProvider hvisit) h
  intro round hround hne
  rw [hrounds, List.nil_append] at hround
  obtain ⟨v, hv, hchain, hplace, hanswer⟩ := exists_of_mem_right hvisits hround
  obtain ⟨-, -, hprovider⟩ := mem_visits.mp hv
  refine ⟨v.2.1, ?_, hchain ▸ hanswer hne⟩
  rw [hplace]
  exact List.mk_mem_zipIdx_iff_getElem?.mp hprovider

/-- In every order of the assets the runs are right exactly when, of each asset without a price that
is handed over, the underlying assets are in the list and on its chain only, and no provider answers
without a price after one that has a price. Whatever the providers are, they are asked with what is
handed over. -/
theorem rightInAnyOrder_iff (outcomes : List ProviderOutcome) (assets : List AssetDto) :
    (RightInAnyOrder (outcomes.map ProviderOutcome.provider) assets ↔
      (∀ dto ∈ assets, ¬ dto.priced →
        (∃ outcome ∈ outcomes, outcome.canHandleCategories dto.categories) →
          OwnUnderlying assets dto) ∧
      ∀ dto ∈ assets, ¬ dto.priced →
        KeepsQuotes (outcomes.map ProviderOutcome.provider) dto) ∧
    ∀ providers s, updateSpecificAssetsPrices providers assets = .ok s → Asked providers s := by
  refine ⟨?_, fun providers s => asked_of_run⟩
  have hfixed : ∀ provider ∈ outcomes.map ProviderOutcome.provider, provider.Fixed := by
    rw [List.forall_mem_map]
    exact fun outcome _ => outcome.fixed
  have hrun {assets' : List AssetDto} := updateSpecificAssetsPrices_run assets' hfixed
  constructor
  · intro H
    obtain ⟨hown, hkeeps⟩ := H.wellSourced hfixed
    refine ⟨fun dto hdto hpriced ⟨outcome, houtcome, hcan⟩ => ?_, hkeeps⟩
    exact hown dto hdto hpriced ⟨_, List.mem_map_of_mem houtcome, hcan⟩
  · rintro ⟨hown, hkeeps⟩
    have H : WellSourced (outcomes.map ProviderOutcome.provider) assets := by
      refine ⟨fun dto hdto hpriced ⟨provider, hprovider, hcan⟩ => ?_, hkeeps⟩
      obtain ⟨outcome, houtcome, rfl⟩ := List.mem_map.mp hprovider
      exact hown dto hdto hpriced ⟨outcome, houtcome, hcan⟩
    obtain ⟨s, hs⟩ := H.succeeds hfixed
    refine ⟨s, hs, fun assets' hperm => ?_⟩
    obtain ⟨s', hs'⟩ := (H.perm hperm).succeeds hfixed
    have Hs := hrun.2 s hs
    have Hs' := hrun.2 s' hs'
    refine ⟨s', hs', (H.perm hperm).rightRun Hs', assets_perm hperm Hs Hs', ?_⟩
    exact Hs.sameInputs hperm Hs' fun dto hdto v hv => H.own_of_selects hdto hv

/-- A token pair without a price. -/
def pairAsset : AssetDto :=
  ⟨1, "0xaa", 18, none, ["lp"], some [⟨"0xbb", 0, none⟩, ⟨"0xcc", 1, none⟩]⟩

/-- One of the two tokens is not among the assets. -/
theorem not_rightInAnyOrder : ¬ RightInAnyOrder
    (List.map ProviderOutcome.provider [⟨fun categories => categories = ["lp"], fun _ => .ok []⟩])
    [pairAsset, ⟨1, "0xbb", 6, some (.finite 1), ["token"], none⟩] := by
  intro ⟨s, hs, _⟩
  cases hs

end SpecificPrices
end Assets
end DefiBackend
