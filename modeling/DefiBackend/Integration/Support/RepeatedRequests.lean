import DefiBackend.Integration.Support.PlatformPartition
import DefiBackend.Integration.Support.UserSources
import Mathlib.Algebra.Order.BigOperators.Group.List

/-! # Requests with repetitions

`getUserPositionsForPlatform` for lists of chains and addresses in which elements repeat, against
the request with every repetition removed. -/

namespace DefiBackend
namespace Integration

/-- A protocol of a platform, with its source of positions. -/
structure RegisteredProtocol where
  chain : ChainId
  features : List String
  source : UserSource

def RegisteredProtocol.toPlatform (p : RegisteredProtocol) : PlatformProtocol :=
  ⟨p.chain, p.features, some p.source.getUsersData⟩

/-- A platform: its protocols, and those whose initialization is tried again with every request,
`none` being a success. -/
structure Platform where
  protocols : List RegisteredProtocol
  retried : List (RegisteredProtocol × Option String)

namespace Platform

/-- `validatedProtocols`. -/
def validatedProtocols (platform : Platform) : List RegisteredProtocol × List String :=
  (platform.protocols ++ platform.retried.filterMap fun r => if r.2.isNone then some r.1 else none,
    platform.retried.filterMap Prod.snd)

/-- `getSupportedChains`. -/
def getSupportedChains (platform : Platform) : List ChainId :=
  unique (platform.protocols.map RegisteredProtocol.chain)

end Platform

structure UserEntryResponse where
  errors : List String
  wallets : List PlatformUserEntry
  total : ℚ

/-- `getUserPositionsForPlatform`. -/
def getUserPositionsForPlatform (A : AddressChecks) (platform : Platform) (chains : List ChainId)
    (addresses : List Address) : UserEntryResponse :=
  let (protocols, errors) := platform.validatedProtocols
  let response := getUsersData A (protocols.map RegisteredProtocol.toPlatform) errors
    (if chains = [] then platform.getSupportedChains else chains) addresses
  { errors := unique response.errors
    wallets := response.data
    total := response.data.foldl (fun total wallet => total + wallet.total) 0 }

/-- All positions of a wallet. -/
def PlatformUserEntry.positions (w : PlatformUserEntry) : List Position :=
  w.chains.flatMap fun e => e.positions.items

section
variable (A : AddressChecks) (platform : Platform) (chains : List ChainId)
  (addresses : List Address)

/-- Repetitions in a request change nothing: every wallet has the positions and the total of the
wallet for the same address in the answer to the request without repetitions, and the total is the
sum over the different addresses. -/
structure CountsOnce : Prop where
  wallets : ∀ w ∈ (getUserPositionsForPlatform A platform chains addresses).wallets,
    ∃ w' ∈ (getUserPositionsForPlatform A platform (unique chains) (unique addresses)).wallets,
      w'.address = w.address ∧ w.positions.Perm w'.positions ∧ w.total = w'.total
  total : (getUserPositionsForPlatform A platform chains addresses).total =
    ((getUserPositionsForPlatform A platform (unique chains)
      (unique addresses)).wallets.map (·.total)).sum

/-- The chains that are asked for: the supported ones if none is given. -/
def requestedChains : List ChainId := if chains = [] then platform.getSupportedChains else chains

/-- What a protocol has for an address when it is asked for a list of addresses. -/
def share (source : UserSource) (asked : List Address) (address : Address) : List Position :=
  copies ((source.processed asked).count address)
    (enforceTokenArrayOutput (source.positionsOf address))

/-- What the protocols on a chain have for an address when a list of addresses is requested. -/
def chainPositions (protocols : List RegisteredProtocol) (addresses : List Address)
    (address : Address) (chain : ChainId) : List Position :=
  protocols.flatMap fun p =>
    if p.chain = chain then share p.source (A.keepAddressesByChainId addresses chain) address else []

/-- The condition under which repetitions change nothing. Protocols process no address for which
they have positions more often than without repetitions; on a chain that is repeated no protocol has
positions; and what the repeated addresses have adds up to nothing. -/
structure NoDoubleCount : Prop where
  processed : ∀ a ∈ addresses, ∀ p ∈ platform.validatedProtocols.1,
    p.chain ∈ requestedChains platform chains → p.source.positionsOf a ≠ [] →
    (p.source.processed (A.keepAddressesByChainId addresses p.chain)).count a =
      (p.source.processed (A.keepAddressesByChainId (unique addresses) p.chain)).count a
  repeatedChains : ∀ c ∈ surplus [] (requestedChains platform chains), ∀ a ∈ addresses,
    chainPositions A platform.validatedProtocols.1 (unique addresses) a c = []
  repeatedAddresses : ((surplus [] addresses).map fun a =>
    (((unique (requestedChains platform chains)).flatMap
      (chainPositions A platform.validatedProtocols.1 (unique addresses) a)).map
        Position.worth).sum).sum = 0

end

section
variable {A : AddressChecks} {platform : Platform} {chains : List ChainId}
  {addresses : List Address} {protocols : List RegisteredProtocol} {source : UserSource}

theorem mem_of_mem_processed (h : a ∈ source.processed asked) : a ∈ asked := by
  induction asked with
  | nil => exact h
  | cons b asked ih =>
    rw [UserSource.processed] at h
    split at h
    · exact List.mem_cons.mpr (.inl (List.mem_singleton.mp h))
    · exact List.mem_cons.mpr ((List.mem_cons.mp h).imp id ih)

theorem enforceTokenArrayOutput_copies (n : Nat) (list : List Position) :
    enforceTokenArrayOutput (copies n list) = copies n (enforceTokenArrayOutput list) := by
  simp [enforceTokenArrayOutput, copies, List.map_flatten]

/-- The merged positions of an address on a requested chain are what the protocols have for it. -/
theorem mergedPositions_sources (hc : c ∈ chains) :
    mergedPositions a c (resolvedProtocols A chains addresses
      (protocols.map RegisteredProtocol.toPlatform)) =
      chainPositions A protocols addresses a c := by
  unfold mergedPositions resolvedProtocols chainPositions
  rw [flatMap_filterMap, List.flatMap_map]
  refine List.flatMap_congr fun p _ => ?_
  by_cases hchain : p.chain = c
  · subst hchain
    rw [if_pos rfl, share]
    by_cases hasked : A.keepAddressesByChainId addresses p.chain = []
    · simp [ask, RegisteredProtocol.toPlatform, hasked, UserSource.processed, copies]
    · have hask : ask A chains addresses p.toPlatform =
          some (p.source.getUsersData (A.keepAddressesByChainId addresses p.chain)) := by
        simp [ask, RegisteredProtocol.toPlatform, hasked, hc]
      rcases getUsersData_source p.source (A.keepAddressesByChainId addresses p.chain) with
        ⟨wallets, errors, hdata, hwallets⟩ | ⟨⟨reason, hdata⟩, hnone⟩
      · rw [hask, hdata]
        by_cases ha : a ∈ A.keepAddressesByChainId addresses p.chain
        · simp [RegisteredProtocol.toPlatform, ha, hwallets, enforceTokenArrayOutput_copies]
        · have hcount : (p.source.processed (A.keepAddressesByChainId addresses p.chain)).count a =
              0 := List.count_eq_zero.mpr fun h => ha (mem_of_mem_processed h)
          simp [RegisteredProtocol.toPlatform, ha, hcount, copies]
      · rw [hask, hdata]
        simp [hnone, enforceTokenArrayOutput, copies]
  · rw [if_neg hchain]
    cases h : ask A chains addresses p.toPlatform with
    | none => rfl
    | some outcome =>
      cases outcome with
      | rejected reason => rfl
      | fulfilled wallets errors => simp [RegisteredProtocol.toPlatform, hchain]

theorem sum_map_flatMap {f : β → ℚ} {g : α → List β} (l : List α) :
    ((l.flatMap g).map f).sum = (l.map fun a => ((g a).map f).sum).sum := by
  rw [List.flatMap, List.map_flatten, List.sum_flatten, List.map_map, List.map_map]
  rfl

/-- The wallet of a requested address: its positions, and their sum. -/
theorem mem_wallets {w : PlatformUserEntry}
    (hw : w ∈ (getUserPositionsForPlatform A platform chains addresses).wallets) :
    w.address ∈ addresses ∧
      w.positions.Perm ((requestedChains platform chains).flatMap
        (chainPositions A platform.validatedProtocols.1 addresses w.address)) ∧
      w.total = (w.positions.map Position.worth).sum := by
  have hdata : w ∈ (getUsersData A
      (platform.validatedProtocols.1.map RegisteredProtocol.toPlatform)
      platform.validatedProtocols.2 (requestedChains platform chains) addresses).data := hw
  obtain ⟨haddress, htotal, hchains⟩ := mem_data hdata
  refine ⟨haddress, ?_, ?_⟩
  · rw [PlatformUserEntry.positions, hchains, List.flatMap_map]
    refine List.Perm.flatMap_left _ fun c hc => ?_
    rw [← mergedPositions_sources hc, mergeUserProtocolDataPerChain, items_foldl_ensure]
    exact items_groupBy _ _
  · rw [htotal, getWalletTotal_eq, PlatformUserEntry.positions, sum_map_flatMap, hchains,
      List.map_map, List.map_map]
    exact congrArg List.sum (List.map_congr_left fun c _ => total_mergeUserProtocolDataPerChain)

/-- Every requested address has a wallet. -/
theorem exists_mem_wallets (ha : a ∈ addresses) :
    ∃ w ∈ (getUserPositionsForPlatform A platform chains addresses).wallets, w.address = a :=
  ⟨_, List.mem_map_of_mem ha, rfl⟩

theorem requestedChains_unique :
    requestedChains platform (unique chains) = unique (requestedChains platform chains) := by
  by_cases h : chains = []
  · simp [requestedChains, h, Platform.getSupportedChains]
  · simp [requestedChains, h]

/-! ## How often addresses are processed -/

/-- Without repetitions, an address is processed no more often. The invariant is that none of the
addresses that are left out ends the loop. -/
theorem count_processed_fresh_le (set : List Address)
    (hset : ∀ b ∈ set, A.validFor c (A.unifyAddress b) → source.stopsAt (A.unifyAddress b) = false) :
    (source.processed (A.keepAddressesByChainId (fresh set addresses) c)).count a ≤
      (source.processed (A.keepAddressesByChainId addresses c)).count a := by
  simp only [A.keepAddressesByChainId_eq]
  induction addresses generalizing set with
  | nil => simp [fresh]
  | cons b addresses ih =>
    rw [fresh]
    split
    · rename_i hb
      refine (ih set hset).trans ?_
      rw [List.map_cons, List.filter_cons]
      split
      · rename_i hvalid
        simp only [UserSource.processed, hset b hb hvalid, Bool.false_eq_true, if_false,
          List.count_cons]
        exact Nat.le_add_right ..
      · exact le_rfl
    · rename_i hb
      rw [List.map_cons, List.map_cons, List.filter_cons, List.filter_cons]
      split
      · rename_i hvalid
        rw [UserSource.processed, UserSource.processed]
        split
        · exact le_rfl
        · rename_i hstop
          rw [List.count_cons, List.count_cons]
          refine Nat.add_le_add_right (ih _ fun d hd hvalid' => ?_) _
          rcases List.mem_append.mp hd with hd | hd
          · exact hset d hd hvalid'
          · obtain rfl := List.mem_singleton.mp hd
            simpa using hstop
      · rename_i hvalid
        refine ih _ fun d hd hvalid' => ?_
        rcases List.mem_append.mp hd with hd | hd
        · exact hset d hd hvalid'
        · obtain rfl := List.mem_singleton.mp hd
          exact absurd hvalid' hvalid

theorem count_processed_unique_le :
    (source.processed (A.keepAddressesByChainId (unique addresses) c)).count a ≤
      (source.processed (A.keepAddressesByChainId addresses c)).count a := by
  rw [unique_eq_fresh]
  exact count_processed_fresh_le [] fun b hb => nomatch hb

/-! ## How many positions there are -/

/-- Sums of smaller numbers that are no smaller have equal terms. -/
theorem eq_of_sum_le {f g : α → Nat} {l : List α} (hle : ∀ a ∈ l, f a ≤ g a)
    (hsum : (l.map g).sum ≤ (l.map f).sum) : ∀ a ∈ l, f a = g a := by
  induction l with
  | nil => exact fun a ha => nomatch ha
  | cons b l ih =>
    have hb := hle b (List.mem_cons_self ..)
    have hl : ∀ a ∈ l, f a ≤ g a := fun a ha => hle a (List.mem_cons_of_mem _ ha)
    have htail : (l.map f).sum ≤ (l.map g).sum := List.sum_le_sum hl
    simp only [List.map_cons, List.sum_cons] at hsum
    rw [List.forall_mem_cons]
    exact ⟨by omega, ih hl (by omega)⟩

theorem length_share :
    (share source asked a).length = (source.processed asked).count a * (source.positionsOf a).length := by
  simp [share, copies, enforceTokenArrayOutput]

/-- Without repetitions, a chain has no more positions of an address. -/
theorem length_chainPositions_unique_le (A : AddressChecks) (protocols : List RegisteredProtocol)
    (addresses : List Address) (a : Address) (c : ChainId) :
    (chainPositions A protocols (unique addresses) a c).length ≤
      (chainPositions A protocols addresses a c).length := by
  simp only [chainPositions, List.length_flatMap]
  refine List.sum_le_sum fun p _ => ?_
  split
  · rw [length_share, length_share]
    exact Nat.mul_le_mul_right _ count_processed_unique_le
  · exact le_rfl

/-- A chain has as many positions with repetitions as without only if every protocol processes the
address as often. -/
theorem count_eq_of_length_eq
    (h : (chainPositions A protocols addresses a p.chain).length =
      (chainPositions A protocols (unique addresses) a p.chain).length)
    (hp : p ∈ protocols) (hpos : p.source.positionsOf a ≠ []) :
    (p.source.processed (A.keepAddressesByChainId addresses p.chain)).count a =
      (p.source.processed (A.keepAddressesByChainId (unique addresses) p.chain)).count a := by
  simp only [chainPositions, List.length_flatMap] at h
  have hterm := eq_of_sum_le (fun q _ => ?_) h.le p hp
  · rw [if_pos rfl, if_pos rfl, length_share, length_share] at hterm
    exact (Nat.eq_of_mul_eq_mul_right (List.length_pos_iff.mpr hpos) hterm).symm
  · split
    · rw [length_share, length_share]
      exact Nat.mul_le_mul_right _ count_processed_unique_le
    · exact le_rfl

/-- The positions of an address are the same with repetitions and without exactly when no protocol
processes it more often for its positions and no repeated chain has positions for it. -/
theorem perm_positions_iff {asked : List ChainId} :
    (asked.flatMap (chainPositions A protocols addresses a)).Perm
        ((unique asked).flatMap (chainPositions A protocols (unique addresses) a)) ↔
      (∀ p ∈ protocols, p.chain ∈ asked → p.source.positionsOf a ≠ [] →
        (p.source.processed (A.keepAddressesByChainId addresses p.chain)).count a =
          (p.source.processed (A.keepAddressesByChainId (unique addresses) p.chain)).count a) ∧
      ∀ c ∈ surplus [] asked, chainPositions A protocols (unique addresses) a c = [] := by
  constructor
  · intro h
    have hlen := h.length_eq
    have hsplit := ((perm_fresh_append_surplus [] asked).flatMap_right
      (chainPositions A protocols addresses a)).length_eq
    rw [← unique_eq_fresh, List.flatMap_append, List.length_append] at hsplit
    rw [hsplit, List.length_flatMap, List.length_flatMap] at hlen
    have hle : ∀ c ∈ unique asked, _ := fun c _ =>
      length_chainPositions_unique_le A protocols addresses a c
    have hsum := List.sum_le_sum hle
    rw [List.length_flatMap] at hlen
    constructor
    · intro p hp hasked hpos
      have heq := eq_of_sum_le hle (by omega) p.chain (mem_unique.mpr hasked)
      exact count_eq_of_length_eq heq.symm hp hpos
    · intro c hc
      have hzero : ((surplus [] asked).map fun c =>
          (chainPositions A protocols addresses a c).length).sum = 0 := by omega
      have hc0 := List.sum_eq_zero_iff.mp hzero _ (List.mem_map_of_mem hc)
      exact List.eq_nil_of_length_eq_zero
        (Nat.le_zero.mp (hc0 ▸ length_chainPositions_unique_le A protocols addresses a c))
  · rintro ⟨hprocessed, hrepeated⟩
    have hchain : ∀ c ∈ asked, chainPositions A protocols addresses a c =
        chainPositions A protocols (unique addresses) a c := by
      intro c hc
      refine List.flatMap_congr fun p hp => ?_
      split
      · rename_i hpc
        subst hpc
        by_cases hpos : p.source.positionsOf a = []
        · simp [share, hpos, enforceTokenArrayOutput, copies]
        · rw [share, share, hprocessed p hp hc hpos]
      · rfl
    rw [List.flatMap_congr hchain, flatMap_fresh [] asked hrepeated, unique_eq_fresh asked]

/-! ## Totals -/

theorem map_total_wallets :
    (getUserPositionsForPlatform A platform chains addresses).wallets.map (·.total) =
      addresses.map fun a => (((requestedChains platform chains).flatMap
        (chainPositions A platform.validatedProtocols.1 addresses a)).map Position.worth).sum := by
  have hwallets : ∃ f : Address → PlatformUserEntry, (∀ a, (f a).address = a) ∧
      (getUserPositionsForPlatform A platform chains addresses).wallets = addresses.map f :=
    ⟨_, fun _ => rfl, rfl⟩
  obtain ⟨f, hf, hwallets⟩ := hwallets
  rw [hwallets, List.map_map]
  refine List.map_congr_left fun a ha => ?_
  obtain ⟨-, hperm, htotal⟩ := mem_wallets (hwallets ▸ List.mem_map_of_mem ha)
  rw [hf a] at hperm
  exact htotal.trans (hperm.map _).sum_eq

theorem total_eq_sum : (getUserPositionsForPlatform A platform chains addresses).total =
    ((getUserPositionsForPlatform A platform chains addresses).wallets.map (·.total)).sum := by
  have h := foldl_eq_sum (f := PlatformUserEntry.total) (fun _ _ => rfl)
    (getUserPositionsForPlatform A platform chains addresses).wallets 0
  rw [zero_add] at h
  exact h

/-- The wallets are the same with repetitions and without exactly when the positions of every
address are. -/
theorem wallets_iff :
    (∀ w ∈ (getUserPositionsForPlatform A platform chains addresses).wallets,
      ∃ w' ∈ (getUserPositionsForPlatform A platform (unique chains) (unique addresses)).wallets,
        w'.address = w.address ∧ w.positions.Perm w'.positions ∧ w.total = w'.total) ↔
    ∀ a ∈ addresses, ((requestedChains platform chains).flatMap
        (chainPositions A platform.validatedProtocols.1 addresses a)).Perm
      ((unique (requestedChains platform chains)).flatMap
        (chainPositions A platform.validatedProtocols.1 (unique addresses) a)) := by
  rw [← requestedChains_unique]
  constructor
  · intro h a ha
    obtain ⟨w, hw, rfl⟩ := exists_mem_wallets ha
    obtain ⟨w', hw', haddress, hperm, -⟩ := h w hw
    obtain ⟨-, hpos, -⟩ := mem_wallets hw
    obtain ⟨-, hpos', -⟩ := mem_wallets hw'
    rw [haddress] at hpos'
    exact hpos.symm.trans (hperm.trans hpos')
  · intro h w hw
    obtain ⟨ha, hpos, htotal⟩ := mem_wallets hw
    obtain ⟨w', hw', haddress⟩ := exists_mem_wallets (mem_unique.mpr ha)
    obtain ⟨-, hpos', htotal'⟩ := mem_wallets hw'
    rw [haddress] at hpos'
    have hperm := hpos.trans ((h _ ha).trans hpos'.symm)
    exact ⟨w', hw', haddress, hperm, htotal.trans ((hperm.map _).sum_eq.trans htotal'.symm)⟩

/-- With the same positions, the totals agree exactly when the repeated addresses add nothing. -/
theorem total_iff
    (h : ∀ a ∈ addresses, ((requestedChains platform chains).flatMap
        (chainPositions A platform.validatedProtocols.1 addresses a)).Perm
      ((unique (requestedChains platform chains)).flatMap
        (chainPositions A platform.validatedProtocols.1 (unique addresses) a))) :
    (getUserPositionsForPlatform A platform chains addresses).total =
        ((getUserPositionsForPlatform A platform (unique chains)
          (unique addresses)).wallets.map (·.total)).sum ↔
      ((surplus [] addresses).map fun a =>
        (((unique (requestedChains platform chains)).flatMap
          (chainPositions A platform.validatedProtocols.1 (unique addresses) a)).map
            Position.worth).sum).sum = 0 := by
  rw [total_eq_sum, map_total_wallets, map_total_wallets, requestedChains_unique,
    List.map_congr_left fun a ha => ((h a ha).map Position.worth).sum_eq,
    ((perm_fresh_append_surplus [] addresses).map _).sum_eq, List.map_append, List.sum_append,
    ← unique_eq_fresh]
  exact add_eq_left

/-- Repetitions in a request change nothing exactly under the condition. -/
theorem countsOnce_iff (A : AddressChecks) (platform : Platform) (chains : List ChainId)
    (addresses : List Address) :
    CountsOnce A platform chains addresses ↔ NoDoubleCount A platform chains addresses := by
  constructor
  · rintro ⟨hwallets, htotal⟩
    have hperm := wallets_iff.mp hwallets
    have hiff := fun a ha => perm_positions_iff.mp (hperm a ha)
    exact ⟨fun a ha => (hiff a ha).1, fun c hc a ha => (hiff a ha).2 c hc,
      (total_iff hperm).mp htotal⟩
  · rintro ⟨hprocessed, hrepeated, hzero⟩
    have hperm := fun a ha =>
      perm_positions_iff.mpr ⟨hprocessed a ha, fun c hc => hrepeated c hc a ha⟩
    exact ⟨wallets_iff.mpr hperm, (total_iff hperm).mpr hzero⟩

end

/-! ## An address given twice -/

/-- A platform with one protocol, in which the address has a position worth 100. -/
def samplePlatform : Platform where
  protocols := [{
    chain := 1
    features := ["staking"]
    source := .cacheable (.ok []) (some fun a =>
      .ok (if a = lowerAddress then [some samplePosition] else [])) }]
  retried := []

/-- Twice in the request, the address counts four times: in two wallets with two positions. -/
theorem samplePlatform_not_countsOnce :
    ¬ CountsOnce sampleChecks samplePlatform [1] [lowerAddress, lowerAddress] := by
  intro h
  have hlength : ∀ w ∈ (getUserPositionsForPlatform sampleChecks samplePlatform [1]
      [lowerAddress, lowerAddress]).wallets, w.positions.length = 2 := by decide
  have hlength' : ∀ w ∈ (getUserPositionsForPlatform sampleChecks samplePlatform (unique [1])
      (unique [lowerAddress, lowerAddress])).wallets, w.positions.length = 1 := by decide
  obtain ⟨w, hw⟩ := List.exists_mem_of_ne_nil (getUserPositionsForPlatform sampleChecks
    samplePlatform [1] [lowerAddress, lowerAddress]).wallets (List.cons_ne_nil _ _)
  obtain ⟨w', hw', -, hperm, -⟩ := h.wallets w hw
  have heq := hperm.length_eq
  rw [hlength w hw, hlength' w' hw'] at heq
  exact absurd heq (by decide)

end Integration
end DefiBackend
