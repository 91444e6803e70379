import DefiBackend.Common.Collections
import DefiBackend.Common.JsNumber
import DefiBackend.Theory.Fallible

/-! # Adapters of opportunities

The adapters of `apps/opportunities` that load the opportunities of farms: from the cache of the
vaults (`InternalV2Adapter`) and from the integrations (`InternalV3Adapter`).

* A farm is its name; both adapters look farms up by name.
* The columns of an opportunity that play no part in a refresh are of any type.
* Opportunities stand in the order of the protocols; the code has them as the requests settle. -/

namespace DefiBackend
namespace Opportunities
open Theory

/-- `OpportunityCreateDto`. -/
structure OpportunityCreate (δ : Type) where
  farm : String
  source : String
  sourceId : String
  chainId : Nat
  apr : JsNumber
  rest : δ
  deriving DecidableEq

/-- The results of an adapter. The service does not see which farms failed to load in it. -/
structure AdapterResults (δ : Type) where
  farms : List String
  opportunities : List (OpportunityCreate δ)
  failed : List String

/-- An adapter: the farms it is to load and what `loadData` does, both given the farms that have
been processed. -/
structure Adapter (δ : Type) where
  source : String
  serves : List String → List String
  loadData : List String → Except String (AdapterResults δ)
  mem_serves : loadData processed = .ok results →
    ∀ o ∈ results.opportunities, o.source = source ∧ o.farm ∈ serves processed

/-- The farms of `loadFarms`: those of the table that are asked for, and those that are missing. -/
def loadedFarms (known names : List String) : List String :=
  known.filter (· ∈ names) ++ names.filter (· ∉ known)

/-- No farm that is asked for is left out. -/
theorem mem_loadedFarms {known names : List String} {name : String} (h : name ∈ names) :
    name ∈ loadedFarms known names := by
  rw [loadedFarms, List.mem_append, List.mem_filter, List.mem_filter]
  by_cases hk : name ∈ known
  · exact .inl ⟨hk, decide_eq_true h⟩
  · exact .inr ⟨h, decide_eq_true hk⟩

/-! ## InternalV3Adapter -/

/-- An item of a protocol, formatted. -/
structure V3Item (δ : Type) where
  id : String
  chain : Nat
  totalApr : JsNumber
  rest : δ

/-- A protocol of the list, and what becomes of the request for its opportunities: some items,
of which formatting may throw. -/
structure V3Protocol (δ : Type) where
  slug : String
  items : Except String (List (Except String (V3Item δ)))

/-- What a run of the adapter meets: the requests of `loadFarms`, the protocols, and the names of
the farms in the table. -/
structure V3Run (δ : Type) where
  requests : Except String Unit
  protocols : List (V3Protocol δ)
  known : List String

variable {δ : Type}

def V3Item.opportunity (slug : String) (item : V3Item δ) : OpportunityCreate δ where
  farm := slug
  source := "internal_v3"
  sourceId := item.id
  chainId := item.chain
  apr := item.totalApr.orZero
  rest := item.rest

/-- The opportunities pushed for the items, up to the first that throws, and whether none does. -/
def pushItems (slug : String) :
    List (Except String (V3Item δ)) → List (OpportunityCreate δ) × Bool
  | [] => ([], true)
  | .error _ :: _ => ([], false)
  | .ok item :: items =>
    let opportunity := item.opportunity slug
    let pushed := pushItems slug items
    -- only opportunities with apr
    (if opportunity.apr.falsy then pushed.1 else opportunity :: pushed.1, pushed.2)

namespace V3Protocol

/-- What a protocol contributes, and whether it did not fail. Errors are caught. -/
def process (included : List String) (protocol : V3Protocol δ) :
    List (OpportunityCreate δ) × Bool :=
  if protocol.slug ∉ included then ([], true)
  else
    match protocol.items with
    | .error _ => ([], false)
    | .ok items => pushItems protocol.slug items

end V3Protocol

namespace V3Run
variable (W : V3Run δ)

def slugs : List String := W.protocols.map V3Protocol.slug

def loadData : Except String (AdapterResults δ) := do
  W.requests
  let farms := loadedFarms W.known W.slugs
  return {
    farms
    opportunities := W.protocols.flatMap fun protocol => (protocol.process farms).1
    failed := (W.protocols.filter fun protocol => !(protocol.process farms).2).map V3Protocol.slug }

end V3Run

theorem mem_pushItems {slug : String} {items : List (Except String (V3Item δ))}
    {o : OpportunityCreate δ} (h : o ∈ (pushItems slug items).1) :
    o.source = "internal_v3" ∧ o.farm = slug := by
  induction items with
  | nil => simp [pushItems] at h
  | cons item items ih =>
    cases item with
    | error e => simp [pushItems] at h
    | ok item =>
      rw [pushItems] at h
      split at h
      · exact ih h
      · rcases List.mem_cons.mp h with rfl | h
        · exact ⟨rfl, rfl⟩
        · exact ih h

theorem V3Protocol.mem_process {included : List String} {protocol : V3Protocol δ}
    {o : OpportunityCreate δ} (h : o ∈ (protocol.process included).1) :
    o.source = "internal_v3" ∧ o.farm = protocol.slug := by
  unfold V3Protocol.process at h
  split at h
  · cases h
  · split at h
    · cases h
    · exact mem_pushItems h

/-- No protocol is left out by the look-up of its farm. -/
theorem V3Run.included {W : V3Run δ} {protocol : V3Protocol δ} (h : protocol ∈ W.protocols) :
    protocol.slug ∈ loadedFarms W.known W.slugs :=
  mem_loadedFarms (List.mem_map.mpr ⟨protocol, h, rfl⟩)

/-- Takes no notice of the farms that have been processed. -/
def internalV3Adapter (W : V3Run δ) : Adapter δ where
  source := "internal_v3"
  serves _ := W.slugs
  loadData _ := W.loadData
  mem_serves {processed results} h := by
    intro o ho
    obtain ⟨⟨⟩, -, h⟩ := bind_eq_ok.mp h
    cases h
    obtain ⟨protocol, hprotocol, ho⟩ := List.mem_flatMap.mp ho
    obtain ⟨hsource, hfarm⟩ := protocol.mem_process ho
    exact ⟨hsource, hfarm ▸ List.mem_map.mpr ⟨protocol, hprotocol, rfl⟩⟩

/-! ## InternalV2Adapter -/

/-- A cached item, formatted. -/
structure V2Item (δ : Type) where
  apr : Option JsNumber
  rest : δ

/-- A protocol of the list, with its features by chain. -/
structure V2Protocol where
  name : String
  features : List (Nat × List String)

/-- What a run of the adapter meets: the requests of `loadFarms`, the protocols, the names of the
farms in the table, and the cached items, of which formatting may throw. -/
structure V2Run (δ : Type) where
  requests : Except String Unit
  protocols : List V2Protocol
  known : List String
  cache : String → Except String (List (Except String (V2Item δ)))

namespace V2Run
variable (W : V2Run δ)

def cacheKey (chain : Nat) (name feature : String) : String :=
  toString chain ++ "_" ++ name ++ "_" ++ feature

/-- The opportunity of an item, if it has an apr. -/
def opportunity (name : String) (chain : Nat) (feature : String) (item : V2Item δ) :
    Option (OpportunityCreate δ) :=
  match item.apr with
  | none => none
  | some apr =>
    if apr.falsy then none
    else some {
      farm := name
      source := "internal_v2"
      sourceId := cacheKey chain name feature
      chainId := chain
      apr
      rest := item.rest }

/-- The opportunities of a feature. -/
def featureOpportunities (name : String) (chain : Nat) (feature : String) :
    Except String (List (OpportunityCreate δ)) := do
  let cachedItems ← W.cache (cacheKey chain name feature)
  let items ← cachedItems.mapM fun item => item
  return items.filterMap (opportunity name chain feature)

/-- The opportunities of a protocol. -/
def protocolOpportunities (included : List String) (protocol : V2Protocol) :
    Except String (List (OpportunityCreate δ)) :=
  if protocol.name ∉ included then .ok []
  else do
    let lists ← protocol.features.mapM fun features => do
      let lists ← features.2.mapM fun feature =>
        W.featureOpportunities protocol.name features.1 feature
      return lists.flatten
    return lists.flatten

def names : List String := W.protocols.map V2Protocol.name

def loadData : Except String (AdapterResults δ) := do
  W.requests
  let farms := loadedFarms W.known (unique W.names)
  let lists ← W.protocols.mapM (W.protocolOpportunities farms)
  return { farms, opportunities := lists.flatten, failed := [] }

variable {W}

theorem mem_opportunity {name : String} {chain : Nat} {feature : String} {item : V2Item δ}
    {o : OpportunityCreate δ} (h : opportunity name chain feature item = some o) :
    o.source = "internal_v2" ∧ o.farm = name := by
  unfold opportunity at h
  split at h
  · cases h
  · split at h
    · cases h
    · cases h
      exact ⟨rfl, rfl⟩

theorem mem_protocolOpportunities {included : List String} {protocol : V2Protocol}
    {os : List (OpportunityCreate δ)} (h : W.protocolOpportunities included protocol = .ok os)
    {o : OpportunityCreate δ} (ho : o ∈ os) :
    o.source = "internal_v2" ∧ o.farm = protocol.name := by
  unfold protocolOpportunities at h
  split at h
  · cases h
    cases ho
  · obtain ⟨lists, hlists, h⟩ := bind_eq_ok.mp h
    cases h
    obtain ⟨list, hlist, ho⟩ := List.mem_flatten.mp ho
    obtain ⟨features, -, h⟩ := (mem_of_mapM_ok hlists).mp hlist
    obtain ⟨lists', hlists', h⟩ := bind_eq_ok.mp h
    cases h
    obtain ⟨list', hlist', ho⟩ := List.mem_flatten.mp ho
    obtain ⟨feature, -, h⟩ := (mem_of_mapM_ok hlists').mp hlist'
    obtain ⟨cached, -, h⟩ := bind_eq_ok.mp h
    obtain ⟨items, -, h⟩ := bind_eq_ok.mp h
    cases h
    obtain ⟨item, -, ho⟩ := List.mem_filterMap.mp ho
    exact mem_opportunity ho

/-- No protocol is left out as one whose farm has been processed. -/
theorem included {protocol : V2Protocol} (h : protocol ∈ W.protocols) :
    protocol.name ∈ loadedFarms W.known (unique W.names) :=
  mem_loadedFarms (mem_unique.mpr (List.mem_map.mpr ⟨protocol, h, rfl⟩))

end V2Run

/-- Takes no notice of the farms that have been processed. -/
def internalV2Adapter (W : V2Run δ) : Adapter δ where
  source := "internal_v2"
  serves _ := W.names
  loadData _ := W.loadData
  mem_serves {processed results} h := by
    intro o ho
    obtain ⟨⟨⟩, -, h⟩ := bind_eq_ok.mp h
    obtain ⟨lists, hlists, h⟩ := bind_eq_ok.mp h
    cases h
    obtain ⟨list, hlist, ho⟩ := List.mem_flatten.mp ho
    obtain ⟨protocol, hprotocol, h⟩ := (mem_of_mapM_ok hlists).mp hlist
    obtain ⟨hsource, hfarm⟩ := V2Run.mem_protocolOpportunities h ho
    exact ⟨hsource, hfarm ▸ List.mem_map.mpr ⟨protocol, hprotocol, rfl⟩⟩

end Opportunities
end DefiBackend
