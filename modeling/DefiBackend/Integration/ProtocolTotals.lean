import DefiBackend.Common.Address
import DefiBackend.Common.JsMap
import DefiBackend.Integration.Support.PlatformPartition
import DefiBackend.Theory.Fallible
import Mathlib.Algebra.BigOperators.Group.Finset.Sigma
import Mathlib.Algebra.Ring.Rat
import Mathlib.Tactic.NormNum

/-! # The totals of a protocol

`integrations.service.ts`, second version: the entries that a protocol gives for every chain are
filed under the wallet of their user, the chain and the feature, and their totals are added up.

* `slotOf_processAll`: what stands under a wallet and a chain after the entries of a chain.
* `total_processAll`: the total of the answer is that of its wallets.
* `Request.addsUp_iff`: when the totals add up and no items are lost. Under one feature the last
  entry stays, while every one counts in the totals, and also those of features that are not listed.

Numbers are exact decimals. What is only logged is left out, but for the messages of
`validateChainFeatures`. -/

namespace DefiBackend
namespace Integration
namespace ProtocolTotals
open Theory

abbrev ChainId := Nat

inductive FeatureEnum
  | pools | staking | farming | claimable | lending | collateral | borrowing | transactions
  | leverageFarming | health | lockedBalances | bootstrap | shortFarm | mint | airdrop | delegation
  | nativeStaking
  deriving DecidableEq, Repr

/-- What a total can be. Declared as a number, it may come as a text (`typeof baseData.total`). -/
inductive Total
  | number (value : ℚ)
  | nan
  | text (value : String)
  deriving DecidableEq

/-- What `if (baseData.total)` lets through. -/
def Total.truthy : Total → Bool
  | number value => value ≠ 0
  | nan => false
  | text value => value ≠ ""

/-- `BaseData`, with `total?`. An entry without items has the empty list. -/
structure BaseData (ι : Type) where
  userAddress : Address
  feature : Option FeatureEnum
  total : Option Total
  locked : Option ℚ
  items : List ι

/-- What stands under a feature. -/
structure FeatureData (ι : Type) where
  totalValue : Option Total
  items : List ι
  lockedValue : Option ℚ

/-- `IntChainsDataDto`, with the fields named after features apart. -/
structure ChainData (ι : Type) where
  chain : ChainId
  features : Option (List FeatureEnum)
  total : Total
  byFeature : JsMap (Option FeatureEnum) (FeatureData ι)

structure Wallet (ι : Type) where
  address : Address
  chains : JsMap ChainId (ChainData ι)

/-- What `getInfo` gives. -/
structure ProtocolInfo where
  name : String
  chains : List String
  features : String → Option (List FeatureEnum)

/-- A settled call of `getProtocolFeaturesV2`: nothing if it was rejected. -/
abbrev Settled (ι : Type) := Option (List (BaseData ι) × Option (List String))

/-- What a request of `getProtocolFeaturesDataV2` meets. `toString` and `toNumber` are the
conversions between numbers and texts; a text that is no number gives none. -/
structure Request (ι : Type) where
  toString : ℚ → String
  toNumber : String → Option ℚ
  protocolName : String
  protocol : Option ProtocolInfo
  chains : List ChainId
  addresses : List Address
  ChainIdToAbbr : ChainId → Option String
  checks : AddressChecks
  getProtocolFeaturesV2 : List Address → ChainId → Settled ι

inductive FeatureMessage
  | notDeclared (feature : Option FeatureEnum)
  | isMissing (feature : FeatureEnum)
  deriving DecidableEq

/-- The answer while it is filled, with the wallets as `walletMap` has them. -/
structure Filling (ι : Type) where
  walletMap : JsMap Address (JsMap ChainId (ChainData ι))
  total : Total
  errors : List String
  logger : List FeatureMessage

/-- `IntegrationsResponseV2Dto`; the data are absent for an unknown protocol. -/
structure Response (ι : Type) where
  errors : List String
  data : Option (List (Wallet ι) × Total)

variable {ι : Type}

def BaseData.featureData (baseData : BaseData ι) : FeatureData ι where
  totalValue := baseData.total
  items := baseData.items
  lockedValue := baseData.locked.filter (· ≠ 0)

namespace Request
variable (r : Request ι)

def string : Total → String
  | .number value => r.toString value
  | .nan => "NaN"
  | .text value => value

def numeric : Total → Option ℚ
  | .number value => some value
  | .nan => none
  | .text value => r.toNumber value

/-- `a + b`, which puts texts together. -/
def plus : Total → Total → Total
  | .number a, .number b => .number (a + b)
  | .text a, b => .text (a ++ r.string b)
  | a, .text b => .text (r.string a ++ b)
  | _, _ => .nan

/-- `a - b`, which reads texts as numbers. -/
def minus (a b : Total) : Total :=
  match r.numeric a, r.numeric b with
  | some a, some b => .number (a - b)
  | _, _ => .nan

/-- What an entry makes of a total. -/
def count (total : Total) (baseData : BaseData ι) : Total :=
  match baseData.total with
  | none => total
  | some amount =>
    if amount.truthy then
      if baseData.feature = some .borrowing then r.minus total amount else r.plus total amount
    else total

/-- An entry is added to what stands for its wallet and chain. -/
def add (chainData : ChainData ι) (baseData : BaseData ι) : ChainData ι :=
  { chainData with
    total := r.count chainData.total baseData
    byFeature := chainData.byFeature.set baseData.feature baseData.featureData }

def features (protocol : ProtocolInfo) (chain : ChainId) : Option (List FeatureEnum) :=
  (r.ChainIdToAbbr chain).bind protocol.features

def newChainData (protocol : ProtocolInfo) (chain : ChainId) : ChainData ι where
  chain := chain
  features := r.features protocol chain
  total := .number 0
  byFeature := []

/-- The callback of `data.forEach`. -/
def processEntry (protocol : ProtocolInfo) (chain : ChainId) (filling : Filling ι)
    (baseData : BaseData ι) : Except String (Filling ι) :=
  match filling.walletMap.get baseData.userAddress with
  | none => throw "Cannot read properties of undefined (reading 'chains')"
  | some chains =>
    let existedChainData := (chains.get chain).getD (r.newChainData protocol chain)
    pure { filling with
      walletMap := filling.walletMap.set baseData.userAddress
        (chains.set chain (r.add existedChainData baseData))
      total := r.count filling.total baseData }

def validateChainFeatures (protocol : ProtocolInfo) (chain : ChainId) (filling : Filling ι)
    (data : List (BaseData ι)) : Except String (List FeatureMessage) := do
  let errorMessages ← data.mapM fun baseData => do
    match filling.walletMap.get baseData.userAddress with
    | none => throw "Cannot read properties of undefined (reading 'chains')"
    | some chains =>
      match r.features protocol chain with
      | none => throw "Cannot read properties of undefined (reading 'includes')"
      | some features =>
        let undeclared :=
          if baseData.feature ∈ features.map some then []
          else [FeatureMessage.notDeclared baseData.feature]
        let present := ((chains.get chain).map fun chainData => chainData.byFeature.keys).getD []
        pure (undeclared ++
          (features.filter fun feature => some feature ∉ present).map FeatureMessage.isMissing)
  pure (unique errorMessages.flatten)

/-- The callback of `chainsToProceed.forEach`. -/
def processChain (protocol : ProtocolInfo) (answer : ChainId → Settled ι) (filling : Filling ι)
    (chain : ChainId) : Except String (Filling ι) :=
  match answer chain with
  | none => pure filling
  | some (data, errors) => do
    let filling ← data.foldlM (r.processEntry protocol chain)
      { filling with errors := filling.errors ++ errors.getD [] }
    let errorMessages ← r.validateChainFeatures protocol chain filling data
    pure { filling with logger := filling.logger ++ errorMessages }

def isOnChain (protocol : ProtocolInfo) (chain : ChainId) : Bool :=
  (r.ChainIdToAbbr chain).any fun abbr => abbr ∈ protocol.chains

def chainsToProceed (protocol : ProtocolInfo) : List ChainId :=
  unique (r.chains.filter (r.isOnChain protocol))

def chainErrors (protocol : ProtocolInfo) : List String :=
  (r.chains.filter fun chain => !r.isOnChain protocol chain).map fun chain =>
    let abbr := (r.ChainIdToAbbr chain).getD "undefined"
    s!"Not found protocol '{r.protocolName}' on {chain} ({abbr}) chain"

/-- What `Promise.allSettled` gives for a chain. -/
def answer (chain : ChainId) : Settled ι :=
  r.getProtocolFeaturesV2 (r.checks.keepAddressesByChainId r.addresses chain) chain

/-- The wallets of the answer: of those with one address, `walletMap` has the last. -/
def wallets (walletMap : JsMap Address (JsMap ChainId (ChainData ι))) : List Address → List (Wallet ι)
  | [] => []
  | address :: addresses =>
    ⟨address, if address ∈ addresses then [] else (walletMap.get address).getD []⟩ ::
      wallets walletMap addresses

def start (protocol : ProtocolInfo) : Filling ι where
  walletMap := .ofEntries (r.addresses.map fun address => (address, []))
  total := .number 0
  errors := r.chainErrors protocol
  logger := []

def getProtocolFeaturesDataV2 : Except String (Response ι) :=
  match r.protocol with
  | none => pure ⟨[s!"Not found protocol '{r.protocolName}'"], none⟩
  | some protocol => do
    let filling ← (r.chainsToProceed protocol).foldlM (r.processChain protocol r.answer)
      (r.start protocol)
    pure ⟨filling.errors, some (wallets filling.walletMap r.addresses, filling.total)⟩

end Request

/-! ## Entries as they are filed -/

/-- What stands under a wallet and a chain. -/
def Filling.slot (filling : Filling ι) (address : Address) (chain : ChainId) :
    Option (ChainData ι) :=
  (filling.walletMap.get address).bind fun chains => chains.get chain

/-- The number that a total is, if any. -/
def Total.value : Total → Option ℚ
  | number value => some value
  | nan | text _ => none

def chainsTotal (chains : JsMap ChainId (ChainData ι)) : ℚ :=
  (chains.map fun e => e.2.total.value.getD 0).sum

/-- The entries of a wallet and a chain, of all those that have been filed. -/
def entriesOf (filed : List (ChainId × BaseData ι)) (address : Address) (chain : ChainId) :
    List (BaseData ι) :=
  (filed.filter fun e => e.2.userAddress = address ∧ e.1 = chain).map Prod.snd

theorem entriesOf_concat (filed : List (ChainId × BaseData ι)) (chain : ChainId)
    (baseData : BaseData ι) (address : Address) (chain' : ChainId) :
    entriesOf (filed ++ [(chain, baseData)]) address chain' =
      if baseData.userAddress = address ∧ chain = chain' then
        entriesOf filed address chain' ++ [baseData]
      else entriesOf filed address chain' := by
  unfold entriesOf
  rw [List.filter_append, List.map_append, List.filter_singleton]
  by_cases h : baseData.userAddress = address ∧ chain = chain'
  · simp [h]
  · simp [h]

namespace Request
variable {r : Request ι} {protocol : ProtocolInfo}

/-- What the entries of a wallet and a chain make of a new `chainData`. -/
def addAll (r : Request ι) (chainData : ChainData ι) (entries : List (BaseData ι)) : ChainData ι :=
  entries.foldl r.add chainData

/-- The totals of entries, counted one after the other. -/
def tally (r : Request ι) (entries : List (BaseData ι)) : Total :=
  entries.foldl r.count (.number 0)

theorem addAll_total (chainData : ChainData ι) (entries : List (BaseData ι)) :
    (r.addAll chainData entries).total = entries.foldl r.count chainData.total := by
  induction entries generalizing chainData with
  | nil => rfl
  | cons baseData entries ih => exact ih (r.add chainData baseData)

theorem addAll_features (chainData : ChainData ι) (entries : List (BaseData ι)) :
    (r.addAll chainData entries).features = chainData.features := by
  induction entries generalizing chainData with
  | nil => rfl
  | cons baseData entries ih => exact ih (r.add chainData baseData)

theorem addAll_byFeature (chainData : ChainData ι) (entries : List (BaseData ι)) :
    (r.addAll chainData entries).byFeature =
      (entries.map fun b => (b.feature, b.featureData)).foldl (fun m e => m.set e.1 e.2)
        chainData.byFeature := by
  induction entries generalizing chainData with
  | nil => rfl
  | cons baseData entries ih => exact ih (r.add chainData baseData)

/-- What stands for entries that have been filed: nothing for none. -/
def chainDataOf (r : Request ι) (protocol : ProtocolInfo) (chain : ChainId)
    (entries : List (BaseData ι)) : Option (ChainData ι) :=
  if entries = [] then none else some (r.addAll (r.newChainData protocol chain) entries)

theorem chainDataOf_concat (chain : ChainId) (entries : List (BaseData ι)) (baseData : BaseData ι) :
    r.chainDataOf protocol chain (entries ++ [baseData]) =
      some (r.add ((r.chainDataOf protocol chain entries).getD (r.newChainData protocol chain))
        baseData) := by
  have hne : entries ++ [baseData] ≠ [] := by simp
  have hadd : r.addAll (r.newChainData protocol chain) (entries ++ [baseData]) =
      r.add (r.addAll (r.newChainData protocol chain) entries) baseData := by
    unfold addAll
    rw [List.foldl_append]
    rfl
  rw [chainDataOf, if_neg hne, hadd, chainDataOf]
  by_cases h : entries = []
  · subst h
    rfl
  · rw [if_neg h]
    rfl

/-- The answer stands for the entries that have been filed. -/
structure Filed (r : Request ι) (protocol : ProtocolInfo) (filed : List (ChainId × BaseData ι))
    (filling : Filling ι) : Prop where
  keys : filling.walletMap.keys = unique r.addresses
  chains : ∀ address chains, filling.walletMap.get address = some chains → chains.keys.Nodup
  slot : ∀ address ∈ r.addresses, ∀ chain,
    filling.slot address chain = r.chainDataOf protocol chain (entriesOf filed address chain)
  total : filling.total = r.tally (filed.map Prod.snd)

theorem Filed.get_eq_none {filed : List (ChainId × BaseData ι)} {filling : Filling ι}
    (H : r.Filed protocol filed filling) {address : Address} :
    filling.walletMap.get address = none ↔ address ∉ r.addresses := by
  rw [JsMap.get_eq_none, H.keys, mem_unique]

theorem filed_start : r.Filed protocol [] (r.start protocol) := by
  have hget : ∀ address, (r.start protocol).walletMap.get address =
      if address ∈ r.addresses then some [] else none := by
    intro address
    change (JsMap.ofEntries (r.addresses.map fun address => (address, _))).get address = _
    rw [JsMap.ofEntries_graph r.addresses fun _ => ([] : JsMap ChainId (ChainData ι))]
    by_cases h : address ∈ r.addresses
    · rw [if_pos h]
      exact JsMap.get_graph _ (mem_unique.mpr h)
    · rw [if_neg h, JsMap.get_eq_none]
      simpa [JsMap.keys, Function.comp_def] using h
  refine ⟨?_, ?_, ?_, ?_⟩
  · change (JsMap.ofEntries (r.addresses.map fun address => (address, _))).keys = _
    rw [JsMap.keys_ofEntries]
    simp [Function.comp_def]
  · intro address chains h
    rw [hget] at h
    split at h
    · cases h
      exact .nil
    · cases h
  · intro address ha chain
    rw [Filling.slot, hget, if_pos ha]
    rfl
  · rfl

/-- An entry is filed unless its wallet is not in the map. -/
theorem Filed.processEntry_succeeds {filed : List (ChainId × BaseData ι)} {filling : Filling ι}
    (H : r.Filed protocol filed filling) {chain : ChainId} {baseData : BaseData ι} :
    Succeeds (r.processEntry protocol chain filling baseData) ↔
      baseData.userAddress ∈ r.addresses := by
  unfold processEntry
  cases hget : filling.walletMap.get baseData.userAddress with
  | none => exact iff_of_false not_succeeds_error (H.get_eq_none.mp hget)
  | some chains =>
    refine iff_of_true succeeds_pure (not_not.mp fun h => ?_)
    rw [H.get_eq_none.mpr h] at hget
    cases hget

theorem Filed.processEntry {filed : List (ChainId × BaseData ι)} {filling filling' : Filling ι}
    (H : r.Filed protocol filed filling) {chain : ChainId} {baseData : BaseData ι}
    (h : r.processEntry protocol chain filling baseData = .ok filling') :
    r.Filed protocol (filed ++ [(chain, baseData)]) filling' := by
  unfold Request.processEntry at h
  cases hget : filling.walletMap.get baseData.userAddress with
  | none =>
    rw [hget] at h
    cases h
  | some chains =>
    rw [hget] at h
    cases h
    have hmem : baseData.userAddress ∈ r.addresses := by
      refine not_not.mp fun h => ?_
      rw [H.get_eq_none.mpr h] at hget
      cases hget
    have hchain : chains.get chain = filling.slot baseData.userAddress chain := by
      rw [Filling.slot, hget, Option.bind_some]
    refine ⟨?_, ?_, ?_, ?_⟩
    · rw [JsMap.keys_set, addToSet, if_pos (by rw [H.keys, mem_unique]; exact hmem), H.keys]
    · intro address chains' h
      rw [JsMap.get_set] at h
      split at h
      · cases h
        exact JsMap.nodup_keys_set (H.chains _ _ hget)
      · exact H.chains _ _ h
    · intro address ha chain'
      rw [Filling.slot, JsMap.get_set, entriesOf_concat]
      by_cases hw : baseData.userAddress = address
      · subst hw
        rw [if_pos rfl, Option.bind_some, JsMap.get_set]
        by_cases hc : chain = chain'
        · subst hc
          rw [if_pos rfl, if_pos ⟨rfl, rfl⟩, chainDataOf_concat, hchain, H.slot _ hmem]
        · rw [if_neg hc, if_neg fun h => hc h.2, ← H.slot _ hmem, Filling.slot, hget]
          rfl
      · rw [if_neg hw, if_neg fun h => hw h.1, ← H.slot _ ha, Filling.slot]
    · change r.count filling.total baseData = _
      rw [H.total, List.map_append, tally, tally, List.foldl_append]
      rfl

/-- The entries of a settled call, with their chain. -/
def entriesOn (answer : ChainId → Settled ι) (chain : ChainId) : List (ChainId × BaseData ι) :=
  match answer chain with
  | none => []
  | some (data, _) => data.map fun baseData => (chain, baseData)

theorem Filed.congr {filed : List (ChainId × BaseData ι)} {filling filling' : Filling ι}
    (H : r.Filed protocol filed filling) (hmap : filling'.walletMap = filling.walletMap)
    (htotal : filling'.total = filling.total) : r.Filed protocol filed filling' := by
  refine ⟨by rw [hmap, H.keys], fun a chains h => H.chains a chains (by rw [← hmap, h]), ?_, ?_⟩
  · intro address ha chain
    rw [← H.slot address ha chain, Filling.slot, hmap, Filling.slot]
  · rw [htotal, H.total]

/-- The entries of a chain go through one after the other. -/
theorem Filed.processAll {filed : List (ChainId × BaseData ι)} {filling : Filling ι}
    (H : r.Filed protocol filed filling) (chain : ChainId) (data : List (BaseData ι)) :
    (Succeeds (data.foldlM (r.processEntry protocol chain) filling) ↔
        ∀ baseData ∈ data, baseData.userAddress ∈ r.addresses) ∧
      ∀ filling', data.foldlM (r.processEntry protocol chain) filling = .ok filling' →
        r.Filed protocol (filed ++ data.map fun baseData => (chain, baseData)) filling' := by
  have h := foldlM_history (f := r.processEntry protocol chain)
    (g := fun baseData => [(chain, baseData)]) (I := fun filed s => r.Filed protocol filed s)
    (P := fun baseData => baseData.userAddress ∈ r.addresses) (l := data)
    (fun _ _ _ _ H => H.processEntry_succeeds) (fun _ _ _ _ _ H h => H.processEntry h) H
  rwa [← List.map_eq_flatMap] at h

theorem Filed.validateChainFeatures_succeeds {filed : List (ChainId × BaseData ι)}
    {filling : Filling ι} (H : r.Filed protocol filed filling) (chain : ChainId)
    (data : List (BaseData ι)) (hdata : ∀ baseData ∈ data, baseData.userAddress ∈ r.addresses) :
    Succeeds (r.validateChainFeatures protocol chain filling data) ↔
      ∀ baseData ∈ data, (r.features protocol chain).isSome := by
  unfold validateChainFeatures
  rw [succeeds_bind_of_forall fun _ => succeeds_pure, succeeds_mapM]
  refine forall₂_congr fun baseData hb => ?_
  cases hget : filling.walletMap.get baseData.userAddress with
  | none => exact absurd (hdata baseData hb) (H.get_eq_none.mp hget)
  | some chains =>
    cases r.features protocol chain with
    | none => exact iff_of_false not_succeeds_error (by simp)
    | some features => exact iff_of_true succeeds_pure rfl

/-- An entry can be filed: its user is one of the addresses as they are written, and the protocol
has declared features for its chain. -/
def Filable (r : Request ι) (protocol : ProtocolInfo) (e : ChainId × BaseData ι) : Prop :=
  e.2.userAddress ∈ r.addresses ∧ (r.features protocol e.1).isSome

theorem Filed.processChain {answer : ChainId → Settled ι} {filed : List (ChainId × BaseData ι)}
    {filling : Filling ι} (H : r.Filed protocol filed filling) (chain : ChainId) :
    (Succeeds (r.processChain protocol answer filling chain) ↔
        ∀ e ∈ entriesOn answer chain, r.Filable protocol e) ∧
      ∀ filling', r.processChain protocol answer filling chain = .ok filling' →
        r.Filed protocol (filed ++ entriesOn answer chain) filling' := by
  unfold Request.processChain entriesOn
  cases answer chain with
  | none =>
    refine ⟨by simp, fun filling' h => ?_⟩
    cases h
    simpa using H
  | some settled =>
    obtain ⟨data, errors⟩ := settled
    have H' : r.Filed protocol filed { filling with errors := filling.errors ++ errors.getD [] } :=
      H.congr rfl rfl
    obtain ⟨hs, hok⟩ := H'.processAll chain data
    simp only [List.forall_mem_map]
    refine ⟨?_, fun filling' h => ?_⟩
    · rw [succeeds_bind]
      constructor
      · rintro ⟨filling', h, hv⟩
        have hdata := hs.mp ⟨filling', h⟩
        rw [succeeds_bind_of_forall fun _ => succeeds_pure,
          (hok filling' h).validateChainFeatures_succeeds chain data hdata] at hv
        exact fun baseData hb => ⟨hdata baseData hb, hv baseData hb⟩
      · intro h
        have hdata := fun baseData hb => (h baseData hb).1
        obtain ⟨filling', h'⟩ := hs.mpr hdata
        refine ⟨filling', h', (succeeds_bind_of_forall fun _ => succeeds_pure).mpr ?_⟩
        exact ((hok filling' h').validateChainFeatures_succeeds chain data hdata).mpr
          fun baseData hb => (h baseData hb).2
    · obtain ⟨t, ht, h⟩ := bind_eq_ok.mp h
      obtain ⟨messages, -, h⟩ := bind_eq_ok.mp h
      cases h
      exact (hok t ht).congr rfl rfl

/-- All entries, in the order in which they are filed. -/
def entries (r : Request ι) (protocol : ProtocolInfo) : List (ChainId × BaseData ι) :=
  (r.chainsToProceed protocol).flatMap (entriesOn r.answer)

/-- The loop over the chains. -/
theorem processChains (r : Request ι) (protocol : ProtocolInfo) :
    (Succeeds ((r.chainsToProceed protocol).foldlM (r.processChain protocol r.answer)
        (r.start protocol)) ↔ ∀ e ∈ r.entries protocol, r.Filable protocol e) ∧
      ∀ filling, (r.chainsToProceed protocol).foldlM (r.processChain protocol r.answer)
        (r.start protocol) = .ok filling → r.Filed protocol (r.entries protocol) filling := by
  have h := foldlM_history (f := r.processChain protocol r.answer) (g := entriesOn r.answer)
    (I := fun filed s => r.Filed protocol filed s)
    (P := fun chain => ∀ e ∈ entriesOn r.answer chain, r.Filable protocol e)
    (l := r.chainsToProceed protocol)
    (fun _ _ chain _ H => (H.processChain chain).1)
    (fun _ _ chain _ s' H => (H.processChain chain).2 s')
    filed_start
  rw [List.nil_append] at h
  refine ⟨h.1.trans ?_, h.2⟩
  simp only [entries, List.mem_flatMap]
  exact ⟨fun h e ⟨chain, hc, he⟩ => h chain hc e he, fun h chain hc e he => h e ⟨chain, hc, he⟩⟩

/-! ## The wallets of the answer -/

theorem mem_wallets {m : JsMap Address (JsMap ChainId (ChainData ι))} {addresses : List Address}
    (hkeys : ∀ a ∈ addresses, (m.get a).isSome) {wallet : Wallet ι}
    (h : wallet ∈ wallets m addresses) :
    wallet.address ∈ addresses ∧ (wallet.chains = [] ∨ m.get wallet.address = some wallet.chains) := by
  induction addresses with
  | nil => cases h
  | cons a addresses ih =>
    rcases List.mem_cons.mp h with rfl | h
    · refine ⟨List.mem_cons_self .., ?_⟩
      obtain ⟨chains, hc⟩ := Option.isSome_iff_exists.mp (hkeys a (List.mem_cons_self ..))
      by_cases ha : a ∈ addresses
      · exact .inl (if_pos ha)
      · right
        change m.get a = some (if a ∈ addresses then [] else (m.get a).getD [])
        rw [if_neg ha, hc]
        rfl
    · obtain ⟨ha, hc⟩ := ih (fun a ha => hkeys a (List.mem_cons_of_mem _ ha)) h
      exact ⟨List.mem_cons_of_mem _ ha, hc⟩

theorem exists_wallet {m : JsMap Address (JsMap ChainId (ChainData ι))} {addresses : List Address}
    {address : Address} (h : address ∈ addresses) :
    ∃ wallet ∈ wallets m addresses,
      wallet.address = address ∧ wallet.chains = (m.get address).getD [] := by
  induction addresses with
  | nil => cases h
  | cons a addresses ih =>
    by_cases ha : address ∈ addresses
    · obtain ⟨wallet, hw, hwallet⟩ := ih ha
      exact ⟨wallet, List.mem_cons_of_mem _ hw, hwallet⟩
    · have haddr : address = a := (List.mem_cons.mp h).resolve_right ha
      subst haddr
      exact ⟨_, List.mem_cons_self .., rfl, if_neg ha⟩

/-- The wallets of the answer have the totals of `walletMap`. -/
theorem sum_wallets (m : JsMap Address (JsMap ChainId (ChainData ι))) (addresses : List Address) :
    ((wallets m addresses).map fun wallet => chainsTotal wallet.chains).sum =
      ∑ address ∈ addresses.toFinset, chainsTotal ((m.get address).getD []) := by
  induction addresses with
  | nil => rfl
  | cons a addresses ih =>
    rw [wallets, List.map_cons, List.sum_cons, ih, List.toFinset_cons]
    by_cases ha : a ∈ addresses
    · rw [if_pos ha, Finset.insert_eq_of_mem (List.mem_toFinset.mpr ha)]
      exact zero_add _
    · rw [if_neg ha, Finset.sum_insert fun h => ha (List.mem_toFinset.mp h)]

/-- Every requested address has a wallet. -/
theorem Filed.isSome_get {filed : List (ChainId × BaseData ι)} {filling : Filling ι}
    (H : r.Filed protocol filed filling) (a : Address) (ha : a ∈ r.addresses) :
    (filling.walletMap.get a).isSome := by
  cases hget : filling.walletMap.get a with
  | none => exact absurd ha (H.get_eq_none.mp hget)
  | some chains => rfl

/-- The wallets show what the filed entries make. -/
theorem Filed.wallet_iff {filed : List (ChainId × BaseData ι)} {filling : Filling ι}
    (H : r.Filed protocol filed filling) {address : Address} {chain : ChainId}
    {chainData : ChainData ι} :
    (∃ wallet ∈ wallets filling.walletMap r.addresses,
        wallet.address = address ∧ wallet.chains.get chain = some chainData) ↔
      address ∈ r.addresses ∧
        r.chainDataOf protocol chain (entriesOf filed address chain) = some chainData := by
  constructor
  · rintro ⟨wallet, hw, rfl, hget⟩
    obtain ⟨ha, hchains⟩ := mem_wallets H.isSome_get hw
    refine ⟨ha, ?_⟩
    rcases hchains with hchains | hchains
    · rw [hchains] at hget
      cases hget
    · rw [← H.slot _ ha, Filling.slot, hchains, Option.bind_some, hget]
  · rintro ⟨ha, hslot⟩
    obtain ⟨wallet, hw, haddr, hchains⟩ := exists_wallet (m := filling.walletMap) ha
    refine ⟨wallet, hw, haddr, ?_⟩
    rw [← H.slot _ ha, Filling.slot] at hslot
    obtain ⟨chains, hget⟩ := Option.isSome_iff_exists.mp (H.isSome_get _ ha)
    rw [hget, Option.bind_some] at hslot
    rw [hchains, hget, Option.getD_some, hslot]

theorem Filed.get_of_mem {filed : List (ChainId × BaseData ι)} {filling : Filling ι}
    (H : r.Filed protocol filed filling) {wallet : Wallet ι}
    (hw : wallet ∈ wallets filling.walletMap r.addresses) {e : ChainId × ChainData ι}
    (he : e ∈ wallet.chains) : wallet.chains.get e.1 = some e.2 := by
  rcases (mem_wallets H.isSome_get hw).2 with hchains | hchains
  · rw [hchains] at he
    cases he
  · exact (JsMap.get_eq_some_iff (H.chains _ _ hchains)).mpr he

end Request

/-! ## When the totals add up -/

/-- What a `total?` or a `totalValue` is as a number: nothing if it is missing. -/
def valueOf (total : Option Total) : Option ℚ := total.elim (some 0) Total.value

/-- An amount as it counts under a feature: borrowing is negative. -/
def signed (feature : Option FeatureEnum) (amount : ℚ) : ℚ :=
  if feature = some .borrowing then -amount else amount

/-- What an entry adds to the totals, if it adds a number. -/
def BaseData.amount (baseData : BaseData ι) : ℚ :=
  signed baseData.feature ((valueOf baseData.total).getD 0)

def FeatureData.amount (feature : Option FeatureEnum) (featureData : FeatureData ι) : ℚ :=
  signed feature ((valueOf featureData.totalValue).getD 0)

/-- What stands under the features that are listed. -/
def ChainData.listed (chainData : ChainData ι) : JsMap (Option FeatureEnum) (FeatureData ι) :=
  chainData.byFeature.filter fun e => e.1 ∈ (chainData.features.getD []).map some

/-- The total of a chain is that of the features that are listed, each of which has a number. -/
def ChainData.AddsUp (chainData : ChainData ι) : Prop :=
  (∀ e ∈ chainData.listed, (valueOf e.2.totalValue).isSome) ∧
    chainData.total = .number (chainData.listed.map fun e => e.2.amount e.1).sum

/-- An item stands under the wallet, the chain and the feature of its entry. -/
def Shown (wallets : List (Wallet ι)) (e : ChainId × BaseData ι) (item : ι) : Prop :=
  ∃ wallet ∈ wallets, wallet.address = e.2.userAddress ∧
    ∃ chainData, wallet.chains.get e.1 = some chainData ∧
      ∃ featureData, chainData.byFeature.get e.2.feature = some featureData ∧
        item ∈ featureData.items

namespace Request
variable {r : Request ι} {protocol : ProtocolInfo}

/-- The protocol lists the feature for the chain. -/
def Lists (r : Request ι) (protocol : ProtocolInfo) (chain : ChainId)
    (feature : Option FeatureEnum) : Prop :=
  feature ∈ ((r.features protocol chain).getD []).map some

instance : DecidablePred (r.Lists protocol chain) :=
  fun _ => inferInstanceAs (Decidable (_ ∈ List.map _ _))

/-- The entries that count in the features that are listed: the last one of each of these. -/
def shown (r : Request ι) (protocol : ProtocolInfo) (chain : ChainId)
    (entries : List (BaseData ι)) : List (BaseData ι) :=
  (JsMap.standing BaseData.feature entries).filter fun b => r.Lists protocol chain b.feature

/-- The entries that do not: those that a later one of their feature replaces, and those of features
that are not listed. -/
def hidden (r : Request ι) (protocol : ProtocolInfo) (chain : ChainId)
    (entries : List (BaseData ι)) : List (BaseData ι) :=
  JsMap.replaced BaseData.feature entries ++
    (JsMap.standing BaseData.feature entries).filter fun b => ¬ r.Lists protocol chain b.feature

def amounts (entries : List (BaseData ι)) : ℚ := (entries.map BaseData.amount).sum

theorem amounts_cons (b : BaseData ι) (entries : List (BaseData ι)) :
    amounts (b :: entries) = b.amount + amounts entries := List.sum_cons

theorem amounts_hidden (chain : ChainId) (entries : List (BaseData ι)) :
    amounts entries =
      amounts (r.hidden protocol chain entries) + amounts (r.shown protocol chain entries) := by
  have hall : (r.hidden protocol chain entries ++ r.shown protocol chain entries).Perm entries := by
    have hsplit := List.filter_append_perm (fun b => decide (r.Lists protocol chain b.feature))
      (JsMap.standing BaseData.feature entries)
    refine .trans ?_ (JsMap.replaced_append_standing BaseData.feature entries)
    rw [hidden, List.append_assoc]
    refine .append_left _ (List.perm_append_comm.trans ?_)
    simpa only [shown, decide_not] using hsplit
  rw [amounts, ← (hall.map _).sum_eq, List.map_append, List.sum_append]
  rfl

/-- The features that stand for entries are those of the entries that no later one replaces. -/
theorem byFeature_perm (r : Request ι) (protocol : ProtocolInfo) (chain : ChainId)
    (entries : List (BaseData ι)) :
    (r.addAll (r.newChainData protocol chain) entries).byFeature.Perm
      ((JsMap.standing BaseData.feature entries).map fun b => (b.feature, b.featureData)) := by
  rw [addAll_byFeature]
  have h := JsMap.ofEntries_perm (entries.map fun b => (b.feature, b.featureData))
  rwa [JsMap.standing_map] at h

theorem get_byFeature_iff (r : Request ι) (protocol : ProtocolInfo) (chain : ChainId)
    (entries : List (BaseData ι)) {feature : Option FeatureEnum} {featureData : FeatureData ι} :
    (r.addAll (r.newChainData protocol chain) entries).byFeature.get feature = some featureData ↔
      ∃ b ∈ JsMap.standing BaseData.feature entries,
        b.feature = feature ∧ b.featureData = featureData := by
  have hnodup : (r.addAll (r.newChainData protocol chain) entries).byFeature.keys.Nodup := by
    rw [addAll_byFeature]
    exact JsMap.nodup_keys_ofEntries _
  rw [JsMap.get_eq_some_iff hnodup, (byFeature_perm r protocol chain entries).mem_iff, List.mem_map]
  simp only [Prod.mk.injEq]

theorem listed_perm (r : Request ι) (protocol : ProtocolInfo) (chain : ChainId)
    (entries : List (BaseData ι)) :
    (r.addAll (r.newChainData protocol chain) entries).listed.Perm
      ((r.shown protocol chain entries).map fun b => (b.feature, b.featureData)) := by
  rw [ChainData.listed, addAll_features]
  refine ((byFeature_perm r protocol chain entries).filter _).trans (.of_eq ?_)
  rw [List.filter_map]
  rfl

/-- The total counts every entry, and the features those that are shown. -/
theorem addAll_addsUp_iff (r : Request ι) (protocol : ProtocolInfo) (chain : ChainId)
    (entries : List (BaseData ι)) :
    (r.addAll (r.newChainData protocol chain) entries).AddsUp ↔
      (∀ b ∈ r.shown protocol chain entries, (valueOf b.total).isSome) ∧
        r.tally entries = .number (amounts (r.shown protocol chain entries)) := by
  have hperm := listed_perm r protocol chain entries
  have hsum := (hperm.map fun e => e.2.amount e.1).sum_eq
  unfold ChainData.AddsUp
  rw [addAll_total, hsum, List.map_map]
  refine and_congr ?_ Iff.rfl
  simp only [hperm.mem_iff, List.forall_mem_map]
  rfl

/-! ## Totals without texts -/

/-- An entry whose total is a text that counts. -/
def hasText (baseData : BaseData ι) : Bool :=
  match baseData.total with
  | some (.text text) => text ≠ ""
  | _ => false

theorem count_number {baseData : BaseData ι} (h : ¬ hasText baseData) (x : ℚ) :
    r.count (.number x) baseData = .number (x + baseData.amount) := by
  have hzero : signed baseData.feature 0 = 0 := by
    unfold signed
    split <;> simp
  unfold hasText at h
  unfold count BaseData.amount
  cases htotal : baseData.total with
  | none => simp [valueOf, hzero]
  | some total =>
    cases total with
    | nan => simp [Total.truthy, valueOf, Total.value, hzero]
    | text text =>
      rw [htotal] at h
      have htext : text = "" := not_not.mp fun hne => h (decide_eq_true hne)
      simp [Total.truthy, valueOf, Total.value, hzero, htext]
    | number value =>
      by_cases hvalue : value = 0
      · simp [Total.truthy, valueOf, Total.value, hzero, hvalue]
      · have htruthy : (Total.number value).truthy = true := decide_eq_true hvalue
        change (if (Total.number value).truthy then _ else _) =
          Total.number (x + if baseData.feature = some .borrowing then -value else value)
        rw [if_pos htruthy]
        split
        · exact congrArg Total.number (sub_eq_add_neg x value)
        · rfl

/-- Without texts, the totals of entries are added up as numbers. -/
theorem tally_number {entries : List (BaseData ι)} (h : ∀ b ∈ entries, ¬ hasText b) :
    r.tally entries = .number (amounts entries) := by
  have hfold : ∀ x, entries.foldl r.count (.number x) = .number (x + amounts entries) := by
    induction entries with
    | nil => simp [amounts]
    | cons b entries ih =>
      intro x
      obtain ⟨hb, hentries⟩ := List.forall_mem_cons.mp h
      rw [List.foldl_cons, count_number hb, ih hentries, amounts_cons, add_assoc]
  rw [tally, hfold, zero_add]

/-- The amounts of all entries, by their wallets and chains. -/
theorem sum_entriesOf {filed : List (ChainId × BaseData ι)} {addresses : Finset Address}
    {chains : Finset ChainId} (h : ∀ e ∈ filed, e.2.userAddress ∈ addresses ∧ e.1 ∈ chains) :
    ∑ address ∈ addresses, ∑ chain ∈ chains, amounts (entriesOf filed address chain) =
      amounts (filed.map Prod.snd) := by
  induction filed with
  | nil => simp [entriesOf, amounts]
  | cons e filed ih =>
    obtain ⟨⟨ha, hc⟩, hfiled⟩ := List.forall_mem_cons.mp h
    have hcons : ∀ address chain, amounts (entriesOf (e :: filed) address chain) =
        (if e.2.userAddress = address then if e.1 = chain then e.2.amount else 0 else 0) +
          amounts (entriesOf filed address chain) := by
      intro address chain
      rw [entriesOf, List.filter_cons]
      by_cases haddress : e.2.userAddress = address
      · by_cases hchain : e.1 = chain
        · simp [haddress, hchain, amounts_cons, entriesOf]
        · simp [haddress, hchain, entriesOf]
      · simp [haddress, entriesOf]
    simp only [hcons, Finset.sum_add_distrib, ih hfiled]
    have hfirst : ∑ address ∈ addresses, ∑ chain ∈ chains,
        (if e.2.userAddress = address then if e.1 = chain then e.2.amount else 0 else 0) =
          e.2.amount := by
      rw [Finset.sum_eq_single_of_mem _ ha fun address _ hne => by simp [hne.symm],
        Finset.sum_eq_single_of_mem _ hc fun chain _ hne => by simp [hne.symm], if_pos rfl,
        if_pos rfl]
    rw [hfirst, List.map_cons, amounts_cons]

/-- The totals of the wallets are those of their entries. -/
theorem Filed.sum_wallets {filed : List (ChainId × BaseData ι)} {filling : Filling ι}
    (H : r.Filed protocol filed filling) (hchains : ∀ e ∈ filed, e.1 ∈ r.chains) :
    ((wallets filling.walletMap r.addresses).map fun wallet => chainsTotal wallet.chains).sum =
      ∑ address ∈ r.addresses.toFinset, ∑ chain ∈ r.chains.toFinset,
        ((r.tally (entriesOf filed address chain)).value.getD 0) := by
  rw [Request.sum_wallets]
  refine Finset.sum_congr rfl fun address ha => ?_
  have ha := List.mem_toFinset.mp ha
  obtain ⟨chains, hget⟩ := Option.isSome_iff_exists.mp (H.isSome_get address ha)
  have hslot : ∀ chain, chains.get chain =
      r.chainDataOf protocol chain (entriesOf filed address chain) := by
    intro chain
    rw [← H.slot address ha chain, Filling.slot, hget, Option.bind_some]
  have hsub : chains.keys ⊆ r.chains.dedup := by
    intro chain hchain
    obtain ⟨chainData, hdata⟩ := JsMap.mem_keys.mp hchain
    rw [hslot, chainDataOf] at hdata
    obtain ⟨hne, -⟩ := Option.ite_none_left_eq_some.mp hdata
    obtain ⟨b, hb⟩ := List.exists_mem_of_ne_nil _ hne
    obtain ⟨e, he, -⟩ := List.mem_map.mp hb
    obtain ⟨he, hkey⟩ := List.mem_filter.mp he
    obtain ⟨-, hchain⟩ : e.2.userAddress = address ∧ e.1 = chain := by simpa using hkey
    exact List.mem_dedup.mpr (hchain ▸ hchains e he)
  rw [hget, Option.getD_some, chainsTotal, JsMap.sum_map_get (List.nodup_dedup r.chains)
    (H.chains address chains hget) hsub fun c : ChainData ι => c.total.value.getD 0,
    ← List.sum_toFinset _ (List.nodup_dedup r.chains)]
  refine Finset.sum_congr (Finset.ext fun _ => by simp) fun chain _ => ?_
  rw [hslot, chainDataOf]
  split
  · rename_i hnil
    rw [hnil]
    rfl
  · rw [Option.map_some, Option.getD_some, addAll_total]
    rfl

/-! ## The entries that a protocol may give -/

/-- The totals of the answer add up, and it shows every item of every entry. -/
def AddsUp (r : Request ι) : Prop :=
  ∃ response, r.getProtocolFeaturesDataV2 = .ok response ∧
    ∀ protocol, r.protocol = some protocol → ∃ wallets total,
      response.data = some (wallets, total) ∧
      (∀ wallet ∈ wallets, ∀ e ∈ wallet.chains, e.2.AddsUp) ∧
      total = .number (wallets.map fun wallet => chainsTotal wallet.chains).sum ∧
      ∀ e ∈ r.entries protocol, ∀ item ∈ e.2.items, Shown wallets e item

/-- Totals put together in their order: those of borrowing are taken away, as numbers, and a text is
appended, or appended to. Missing, empty and zero ones do nothing. -/
def together (r : Request ι) (entries : List (BaseData ι)) : Total :=
  (entries.filterMap fun b => (b.total.filter Total.truthy).map fun total => (b.feature, total)).foldl
    (fun all e => if e.1 = some .borrowing then r.minus all e.2 else r.plus all e.2) (.number 0)

/-- What is hidden of the entries of a wallet and a chain cancels out. Where there are texts, what is
put together is what is shown all the same. -/
def Cancels (r : Request ι) (protocol : ProtocolInfo) (chain : ChainId)
    (entries : List (BaseData ι)) : Prop :=
  if ∃ b ∈ entries, hasText b then
    r.together entries = .number (amounts (r.shown protocol chain entries))
  else amounts (r.hidden protocol chain entries) = 0

/-- The entries of one feature are as good as their last one. -/
structure Accountable (r : Request ι) (protocol : ProtocolInfo) : Prop where
  filable : ∀ e ∈ r.entries protocol, r.Filable protocol e
  number : ∀ address chain, ∀ b ∈ r.shown protocol chain
    (entriesOf (r.entries protocol) address chain), (valueOf b.total).isSome
  total : ∀ address chain,
    r.Cancels protocol chain (entriesOf (r.entries protocol) address chain)
  texts : (∃ e ∈ r.entries protocol, hasText e.2) →
    r.together ((r.entries protocol).map Prod.snd) =
      .number (∑ address ∈ r.addresses.toFinset, ∑ chain ∈ r.chains.toFinset,
        amounts (r.shown protocol chain (entriesOf (r.entries protocol) address chain)))
  items : ∀ e ∈ r.entries protocol, ∀ item ∈ e.2.items, ∃ b ∈ JsMap.standing BaseData.feature
    (entriesOf (r.entries protocol) e.2.userAddress e.1), b.feature = e.2.feature ∧ item ∈ b.items

/-- The code counts entries one after another as totals are put together. -/
theorem together_eq (r : Request ι) (entries : List (BaseData ι)) :
    r.together entries = r.tally entries := by
  unfold together tally
  generalize Total.number 0 = all
  induction entries generalizing all with
  | nil => rfl
  | cons b entries ih =>
    rw [List.foldl_cons, count, ← ih]
    cases htotal : b.total with
    | none => rw [List.filterMap_cons_none (by rw [htotal]; rfl)]
    | some total =>
      dsimp only
      split
      · next htruthy =>
        rw [List.filterMap_cons_some (b := (b.feature, total))
          (by rw [htotal, Option.filter_some_pos htruthy]; rfl)]
        rfl
      · next htruthy =>
        have hskip : (some total).filter Total.truthy = none := Option.filter_some_eq_none.mpr htruthy
        rw [List.filterMap_cons_none (by rw [htotal, hskip]; rfl)]

/-- For entries without texts the total is what is shown when what is hidden cancels out. -/
theorem cancels_iff (r : Request ι) (protocol : ProtocolInfo) (chain : ChainId)
    (entries : List (BaseData ι)) :
    r.Cancels protocol chain entries ↔
      r.tally entries = .number (amounts (r.shown protocol chain entries)) := by
  unfold Cancels
  rw [together_eq]
  split
  · exact Iff.rfl
  · rename_i htext
    have hnone : ∀ b ∈ entries, ¬ hasText b := fun b hb h => htext ⟨b, hb, h⟩
    rw [tally_number hnone, @amounts_hidden _ r protocol chain entries]
    simp

theorem entriesOf_eq_nil {filed : List (ChainId × BaseData ι)} {address : Address}
    (h : ∀ e ∈ filed, e.2.userAddress ≠ address) (chain : ChainId) :
    entriesOf filed address chain = [] := by
  unfold entriesOf
  rw [List.map_eq_nil_iff, List.filter_eq_nil_iff]
  intro e he
  simp [h e he]

/-- The chains of the wallets add up when the entries of every wallet and chain do. -/
theorem Filed.adds_iff {filed : List (ChainId × BaseData ι)} {filling : Filling ι}
    (H : r.Filed protocol filed filling) (hfiled : ∀ e ∈ filed, e.2.userAddress ∈ r.addresses) :
    (∀ wallet ∈ wallets filling.walletMap r.addresses, ∀ e ∈ wallet.chains, e.2.AddsUp) ↔
      ∀ address chain,
        (r.addAll (r.newChainData protocol chain) (entriesOf filed address chain)).AddsUp := by
  constructor
  · intro h address chain
    by_cases hnil : entriesOf filed address chain = []
    · rw [hnil]
      exact ⟨by rintro e ⟨⟩, rfl⟩
    · have ha : address ∈ r.addresses := by
        refine not_not.mp fun ha => hnil (entriesOf_eq_nil (fun e he heq => ha ?_) chain)
        exact heq ▸ hfiled e he
      have hdata : r.chainDataOf protocol chain (entriesOf filed address chain) =
          some (r.addAll (r.newChainData protocol chain) (entriesOf filed address chain)) :=
        if_neg hnil
      obtain ⟨wallet, hw, -, hget⟩ := H.wallet_iff.mpr ⟨ha, hdata⟩
      exact h wallet hw _ (JsMap.mem_of_get hget)
  · intro h wallet hw e he
    obtain ⟨-, hdata⟩ := H.wallet_iff.mp ⟨wallet, hw, rfl, H.get_of_mem hw he⟩
    unfold chainDataOf at hdata
    split at hdata
    · cases hdata
    · rw [← Option.some.inj hdata]
      exact h wallet.address e.1

theorem Filed.shown_iff {filed : List (ChainId × BaseData ι)} {filling : Filling ι}
    (H : r.Filed protocol filed filling) {e : ChainId × BaseData ι} (he : e ∈ filed)
    (ha : e.2.userAddress ∈ r.addresses) (item : ι) :
    Shown (wallets filling.walletMap r.addresses) e item ↔
      ∃ b ∈ JsMap.standing BaseData.feature (entriesOf filed e.2.userAddress e.1),
        b.feature = e.2.feature ∧ item ∈ b.items := by
  have hne : entriesOf filed e.2.userAddress e.1 ≠ [] := by
    refine List.ne_nil_of_mem (a := e.2) (List.mem_map.mpr ⟨e, List.mem_filter.mpr ⟨he, ?_⟩, rfl⟩)
    simp
  have hdata : r.chainDataOf protocol e.1 (entriesOf filed e.2.userAddress e.1) =
      some (r.addAll (r.newChainData protocol e.1) (entriesOf filed e.2.userAddress e.1)) :=
    if_neg hne
  constructor
  · rintro ⟨wallet, hw, haddr, chainData, hget, featureData, hf, hitem⟩
    obtain ⟨-, hslot⟩ := H.wallet_iff.mp ⟨wallet, hw, haddr, hget⟩
    rw [hdata] at hslot
    cases hslot
    obtain ⟨b, hb, hfeature, rfl⟩ := (get_byFeature_iff r protocol _ _).mp hf
    exact ⟨b, hb, hfeature, hitem⟩
  · rintro ⟨b, hb, hfeature, hitem⟩
    obtain ⟨wallet, hw, haddr, hget⟩ := H.wallet_iff.mpr ⟨ha, hdata⟩
    exact ⟨wallet, hw, haddr, _, hget, b.featureData,
      (get_byFeature_iff r protocol _ _).mpr ⟨b, hb, hfeature, rfl⟩, hitem⟩

theorem chain_mem_of_entries {e : ChainId × BaseData ι} (he : e ∈ r.entries protocol) :
    e.1 ∈ r.chains := by
  obtain ⟨chain, hchain, he⟩ := List.mem_flatMap.mp he
  have hmem : chain ∈ r.chains := (List.mem_filter.mp (mem_unique.mp hchain)).1
  unfold entriesOn at he
  split at he
  · cases he
  · obtain ⟨b, -, rfl⟩ := List.mem_map.mp he
    exact hmem

/-- Where the wallets and chains add up, the total of the answer is their sum, unless texts come
between. -/
theorem total_iff (hfilable : ∀ e ∈ r.entries protocol, r.Filable protocol e)
    {filling : Filling ι} (H : r.Filed protocol (r.entries protocol) filling)
    (htotal : ∀ address chain,
      r.Cancels protocol chain (entriesOf (r.entries protocol) address chain)) :
    filling.total = .number
        ((wallets filling.walletMap r.addresses).map fun wallet => chainsTotal wallet.chains).sum ↔
      ((∃ e ∈ r.entries protocol, hasText e.2) →
        r.together ((r.entries protocol).map Prod.snd) =
          .number (∑ address ∈ r.addresses.toFinset, ∑ chain ∈ r.chains.toFinset,
            amounts (r.shown protocol chain (entriesOf (r.entries protocol) address chain)))) := by
  have hsum := H.sum_wallets fun e he => chain_mem_of_entries he
  have hshown : ∑ address ∈ r.addresses.toFinset, ∑ chain ∈ r.chains.toFinset,
      ((r.tally (entriesOf (r.entries protocol) address chain)).value.getD 0) =
      ∑ address ∈ r.addresses.toFinset, ∑ chain ∈ r.chains.toFinset,
        amounts (r.shown protocol chain (entriesOf (r.entries protocol) address chain)) := by
    refine Finset.sum_congr rfl fun address _ => Finset.sum_congr rfl fun chain _ => ?_
    rw [(cancels_iff r protocol chain _).mp (htotal address chain)]
    rfl
  by_cases htext : ∃ e ∈ r.entries protocol, hasText e.2
  · rw [H.total, hsum, hshown, together_eq]
    exact ⟨fun h _ => h, fun h => h htext⟩
  · refine iff_of_true ?_ fun h => absurd h htext
    have hnone : ∀ b ∈ (r.entries protocol).map Prod.snd, ¬ hasText b :=
      List.forall_mem_map.mpr fun e he h => htext ⟨e, he, h⟩
    have hall : ∑ address ∈ r.addresses.toFinset, ∑ chain ∈ r.chains.toFinset,
        ((r.tally (entriesOf (r.entries protocol) address chain)).value.getD 0) =
          amounts ((r.entries protocol).map Prod.snd) := by
      rw [← sum_entriesOf fun e he => ⟨List.mem_toFinset.mpr (hfilable e he).1,
        List.mem_toFinset.mpr (chain_mem_of_entries he)⟩]
      refine Finset.sum_congr rfl fun address _ => Finset.sum_congr rfl fun chain _ => ?_
      have hsub : ∀ b ∈ entriesOf (r.entries protocol) address chain, ¬ hasText b := by
        intro b hb
        obtain ⟨e, he, rfl⟩ := List.mem_map.mp hb
        exact hnone _ (List.mem_map_of_mem (List.mem_filter.mp he).1)
      rw [tally_number hsub]
      rfl
    rw [H.total, tally_number hnone, hsum, hall]

/-- The answer adds up exactly when every entry can be filed, the entries that are not shown under a
feature that is listed have totals that cancel out, and those that a later one of their feature
replaces have no items of their own. -/
theorem addsUp_iff (r : Request ι) :
    r.AddsUp ↔ ∀ protocol, r.protocol = some protocol → r.Accountable protocol := by
  unfold AddsUp getProtocolFeaturesDataV2
  cases hp : r.protocol with
  | none => exact iff_of_true ⟨_, rfl, fun _ h => by cases h⟩ fun _ h => by cases h
  | some protocol =>
    obtain ⟨hs, hok⟩ := r.processChains protocol
    simp only [Option.some.injEq, forall_eq']
    constructor
    · rintro ⟨response, hresponse, ws, total, hdata, hadds, htotal, hitems⟩
      obtain ⟨filling, hfilling, hr⟩ := bind_eq_ok.mp hresponse
      cases hr
      cases hdata
      have H := hok filling hfilling
      have hfilable := hs.mp ⟨filling, hfilling⟩
      have hall := fun address chain => (addAll_addsUp_iff r protocol chain _).mp
        ((H.adds_iff fun e he => (hfilable e he).1).mp hadds address chain)
      have hcancels := fun address chain => (cancels_iff r protocol chain _).mpr (hall address chain).2
      exact ⟨hfilable, fun address chain => (hall address chain).1, hcancels,
        (total_iff hfilable H hcancels).mp htotal,
        fun e he item hi => (H.shown_iff he (hfilable e he).1 item).mp (hitems e he item hi)⟩
    · intro h
      obtain ⟨filling, hfilling⟩ := hs.mpr h.filable
      have H := hok filling hfilling
      refine ⟨_, bind_eq_ok.mpr ⟨filling, hfilling, rfl⟩, _, _, rfl, ?_, ?_, ?_⟩
      · exact (H.adds_iff fun e he => (h.filable e he).1).mpr fun address chain =>
          (addAll_addsUp_iff r protocol chain _).mpr
            ⟨h.number address chain, (cancels_iff r protocol chain _).mp (h.total address chain)⟩
      · exact (total_iff h.filable H h.total).mpr h.texts
      · exact fun e he item hi =>
          (H.shown_iff he (h.filable e he).1 item).mpr (h.items e he item hi)

/-! ## Two entries of one feature, and an address with a checksum -/

def poolsEntry (userAddress : Address) (total : ℚ) (item : Nat) : BaseData Nat where
  userAddress := userAddress
  feature := some .pools
  total := some (.number total)
  locked := none
  items := [item]

/-- A protocol on one chain answers with its entries. -/
def sampleRequest (address : Address) (data : List (BaseData Nat)) : Request Nat where
  toString value := s!"{value}"
  toNumber text := text.toInt?.map fun value => (value : ℚ)
  protocolName := "apeswap"
  protocol := some ⟨"apeswap", ["bnb"], fun abbr => if abbr = "bnb" then some [.pools] else none⟩
  chains := [2]
  addresses := [address]
  ChainIdToAbbr chain := if chain = 2 then some "bnb" else none
  checks := sampleChecks
  getProtocolFeaturesV2 asked _ := some (data.filter (·.userAddress ∈ asked), none)

/-- Two entries with pools: the chain has the total of both, and the feature that of the last. -/
theorem twoPools_not_addsUp :
    ¬ (sampleRequest lowerAddress
      [poolsEntry lowerAddress 10 0, poolsEntry lowerAddress 5 1]).AddsUp := by
  rintro ⟨response, hresponse, h⟩
  obtain ⟨ws, total, hdata, hadds, -, -⟩ := h _ rfl
  cases hresponse
  cases hdata
  obtain ⟨-, htotal⟩ := hadds _ (List.mem_singleton_self _) _ (List.mem_singleton_self _)
  have hsum : Total.number (0 + 10 + 5) = .number (5 + 0) := htotal
  norm_num at hsum

/-- The entries come with the address in lower case, which `walletMap` does not have. -/
example :
    (sampleRequest checksumAddress [poolsEntry lowerAddress 10 0]).getProtocolFeaturesDataV2 =
      .error "Cannot read properties of undefined (reading 'chains')" := rfl

end Request
end ProtocolTotals
end Integration
end DefiBackend
