import DefiBackend.Integration.Platforms.OccamX

/-! # The cached path against the on-demand path

`getPoolData` hydrates either the pools it reads back from the cache, or those which it fetches on
demand. `rawPools` says which ones; `run_getPoolDataAlone` connects it to the steps of a call that
runs alone. Right after `cachePoolData` the two paths hydrate the same sequence exactly when
nothing could be cached at all, or everything could and no id stands for two opportunities. -/

namespace DefiBackend
namespace Integration
open Theory

/-- A list survives being filtered by `f` and mapped back by `g` when every element does. -/
theorem map_filterMap_eq_self_iff {f : α → Option β} {g : β → α} {l : List α} :
    (l.filterMap f).map g = l ↔ ∀ a ∈ l, ∃ b, f a = some b ∧ g b = a := by
  induction l with
  | nil => simp
  | cons a l ih =>
    rw [List.forall_mem_cons, ← ih]
    cases h : f a with
    | none =>
      -- an element is lost, so the result is too short
      rw [List.filterMap_cons_none h]
      refine ⟨fun e => ?_, fun ⟨⟨_, hb, _⟩, _⟩ => nomatch hb⟩
      have hlen := congrArg List.length e
      have hle := List.length_filterMap_le f l
      simp only [List.length_map, List.length_cons] at hlen
      omega
    | some b => simp [List.filterMap_cons_some h]

section
variable {T : Type u} {O : Type v} [IWalletMinimal T] {P : RootProtocol}
  {cache : Cache T O} {pools : List (Option T)}

/-! ## What is read back after a write -/

theorem readList_mset :
    readList P.poolListCacheKey (cache.mset (cacheEntries P pools)) = poolList pools := by
  rw [readList, mset_poolListCacheKey, if_pos rfl]

/-- Under the id of a written pool stands a written pool with this id. -/
theorem readPool_mset (P : RootProtocol) (cache : Cache T O) {id : String} (hid : id ∈ poolList pools) :
    ∃ o, readPool P (cache.mset (cacheEntries P pools)) id = some o ∧ some o ∈ pools ∧
      truthyId (some o) = some id := by
  obtain ⟨o, ho, hoid⟩ := mem_poolList.mp hid
  have hmem : (P.singlePoolCacheKey id, .pool o) ∈ cacheEntries (O := O) P pools :=
    List.mem_cons_of_mem _ (mem_poolEntries.mpr ⟨o, id, ho, hoid, rfl⟩)
  obtain ⟨v, hv, he⟩ := Store.mset_of_mem cache hmem
  rcases List.mem_cons.mp he with he | he
  · exact absurd (Prod.mk.inj he).1.symm RootProtocol.poolListCacheKey_ne_single
  · obtain ⟨o', id', ho', hid', he⟩ := mem_poolEntries.mp he
    obtain ⟨hk, rfl⟩ := Prod.mk.inj he
    obtain ⟨-, rfl⟩ := RootProtocol.singlePoolCacheKey_inj.mp hk
    exact ⟨o', by rw [readPool, hv], ho', hid'⟩

/-- Every id of the written list is found. -/
theorem map_readPools_mset (P : RootProtocol) (cache : Cache T O) (pools : List (Option T)) :
    (readPools P (cache.mset (cacheEntries P pools)) (poolList pools)).map some =
      (poolList pools).map (readPool P (cache.mset (cacheEntries P pools))) := by
  rw [readPools, List.map_filterMap, List.filterMap_congr (g := fun id =>
    some (readPool P (cache.mset (cacheEntries P pools)) id)), List.filterMap_eq_map']
  intro id hid
  obtain ⟨o, ho, -⟩ := readPool_mset P cache hid
  rw [ho]
  rfl

/-- After a write of pools some of which have an id, the written list is answered. -/
theorem rawPools_mset (h : poolList pools ≠ []) (upstream : List (Option T)) :
    rawPools P (cache.mset (cacheEntries P pools)) upstream =
      (poolList pools).map (readPool P (cache.mset (cacheEntries P pools))) := by
  have hlen := congrArg List.length (map_readPools_mset P cache pools)
  rw [List.length_map, List.length_map] at hlen
  simp only [rawPools, cachedPools, readList_mset, if_neg h, hlen, ne_eq, not_true_eq_false,
    if_false]
  exact map_readPools_mset P cache pools

omit [IWalletMinimal T] in
/-- Without a list, the pools are fetched on demand. -/
theorem rawPools_erase (upstream : List (Option T)) :
    rawPools P (cache.erase P.poolListCacheKey) upstream = upstream := by
  simp [rawPools, cachedPools, readList]

/-- The condition under which the cache gives back what was written: nothing has an id, or
everything has one, and no id stands for two different opportunities. -/
def Cacheable (pools : List (Option T)) : Prop :=
  (∀ p ∈ pools, truthyId p = none) ∨
    (∀ p ∈ pools, truthyId p ≠ none) ∧
      ∀ p ∈ pools, ∀ q ∈ pools, truthyId p = truthyId q → p = q

instance [DecidableEq T] : Decidable (Cacheable pools) := inferInstanceAs (Decidable (_ ∨ _ ∧ _))

theorem poolList_eq_nil : poolList pools = [] ↔ ∀ p ∈ pools, truthyId p = none := by
  simp [poolList, List.filterMap_eq_nil_iff]

/-- Right after `cachePoolData` has cached `pools`, the cached path of `getPoolData` hydrates the
same sequence as its on-demand path exactly when `pools` is cacheable. -/
theorem rawPools_cached_eq_iff (P : RootProtocol) (cache cache' : Cache T O)
    (pools : List (Option T)) :
    rawPools P (cache.mset (cacheEntries P pools)) pools =
      rawPools P (cache'.erase P.poolListCacheKey) pools ↔ Cacheable pools := by
  rw [rawPools_erase]
  by_cases hnil : poolList pools = []
  · -- an empty list counts as a missing one
    have hcold : rawPools P (cache.mset (cacheEntries P pools)) pools = pools := by
      simp [rawPools, cachedPools, readList_mset, hnil]
    exact iff_of_true hcold (.inl (poolList_eq_nil.mp hnil))
  · rw [rawPools_mset hnil, poolList, map_filterMap_eq_self_iff]
    constructor
    · intro h
      refine .inr ⟨fun p hp => ?_, fun p hp q hq hpq => ?_⟩
      · obtain ⟨id, hid, -⟩ := h p hp
        simp [hid]
      · obtain ⟨id, hid, hread⟩ := h p hp
        obtain ⟨id', hid', hread'⟩ := h q hq
        obtain rfl : id = id' := by simpa [hid, hid'] using hpq
        exact hread.symm.trans hread'
    · rintro (hnone | ⟨hsome, heq⟩) p hp
      · exact absurd (poolList_eq_nil.mpr hnone) hnil
      · obtain ⟨id, hid⟩ := Option.ne_none_iff_exists'.mp (hsome p hp)
        obtain ⟨o, hread, ho, hoid⟩ :=
          readPool_mset P cache (List.mem_filterMap.mpr ⟨p, hp, hid⟩)
        exact ⟨id, hid, hread.trans (heq _ ho p hp (hoid.trans hid.symm))⟩

end

/-- A null entry among the opportunities is hydrated on demand and missing from the cached path. -/
theorem rawPools_cached_null_ne :
    let pool : OccamXPool := ⟨"0x1dd1f4ee2a0b9b93a9a53c4a5b6d0b7ac9a4a9f1"⟩
    let pools := [some (OccamX.toMinimal .liquidity pool), none]
    let cached : Cache OccamXMinimal Unit :=
      Store.empty.mset (cacheEntries (OccamX.protocol .liquidity) pools)
    rawPools (OccamX.protocol .liquidity) cached pools ≠
      rawPools (O := Unit) (OccamX.protocol .liquidity) Store.empty pools := by
  decide

/-! ## The paths as runs -/

section
variable {ι : Type w} {T : Type u} {O : Type v} [DecidableEq ι] [IWalletMinimal T]
  (P : ι → RootProtocol)

/-- The steps of `cachePoolData` when nothing else runs. -/
def cachePoolDataAlone (n : Nat) (i : ι) (upstream : List (Option T)) : List (Action ι T O) :=
  [.cachePoolData n i, .opportunities n upstream, .written n]

/-- The steps of `getPoolData` up to the hydration when nothing else runs. -/
def getPoolDataAlone (cache : Cache T O) (n : Nat) (i : ι) (upstream : List (Option T)) :
    List (Action ι T O) :=
  let onDemand := [.opportunities n upstream, .written n]
  [.getPoolData n i, .readHydrated n, .readList n] ++
    match readList (P i).poolListCacheKey cache with
    | [] => onDemand
    | list =>
      .readPools n ::
        if list.length ≠ (readPools (P i) cache list).length then onDemand else []

variable {P} {s : World ι T O} {upstream : List (Option T)}

/-- A `cachePoolData` alone writes the entries of what it fetches. -/
theorem run_cachePoolDataAlone (hn : s.calls n = none) :
    ∃ s', run (step P) s (cachePoolDataAlone n i upstream) = some s' ∧ s'.calls n = none ∧
      s'.cache = s.cache.mset (cacheEntries (P i) upstream) ∧ s'.hydrated = s.hydrated := by
  refine ⟨_, by simp [cachePoolDataAlone, step, hn, World.goto]; rfl, ?_⟩
  simp [World.finish, World.fetched, World.setCache]

/-- A `getPoolData` alone that finds no response of the last minute hydrates `rawPools`. -/
theorem run_getPoolDataAlone (hn : s.calls n = none)
    (hcold : s.cache (P i).hydratedCacheKey = none) :
    ∃ s', run (step P) s (getPoolDataAlone P s.cache n i upstream) = some s' ∧
      s'.hydrated = s.hydrated ++ [(i, rawPools (P i) s.cache upstream)] := by
  cases hlist : readList (P i).poolListCacheKey s.cache with
  | nil =>
    have hraw : rawPools (P i) s.cache upstream = upstream := by
      simp [rawPools, cachedPools, hlist]
    refine ⟨_, by simp [getPoolDataAlone, step, hn, hcold, hlist, World.goto]; rfl, ?_⟩
    simp [World.hydrate, World.goto, World.fetched, World.setCache, hraw]
  | cons id ids =>
    by_cases hlen : ids.length + 1 = (readPools (P i) s.cache (id :: ids)).length
    · have hraw : rawPools (P i) s.cache upstream =
          (readPools (P i) s.cache (id :: ids)).map some := by
        simp [rawPools, cachedPools, hlist, hlen]
      refine ⟨_, by simp [getPoolDataAlone, step, hn, hcold, hlist, hlen, World.goto]; rfl, ?_⟩
      simp [World.hydrate, World.goto, hraw]
    · have hraw : rawPools (P i) s.cache upstream = upstream := by
        simp [rawPools, cachedPools, hlist, hlen]
      refine ⟨_, by simp [getPoolDataAlone, step, hn, hcold, hlist, hlen, World.goto]; rfl, ?_⟩
      simp [World.hydrate, World.goto, World.fetched, World.setCache, hraw]

end
end Integration
end DefiBackend
