import DefiBackend.Integration.Support.ProtocolKeys
import DefiBackend.Theory.KeyValue
import DefiBackend.Theory.Run

/-! # Caching of opportunities

`RootProtocolCacheable.cachePoolData` and `getPoolData`, over any type `T` of minimal
opportunities and any type `O` of hydrated ones.

* `cacheEntries`, `poolList`, `readList`, `readPools`: what the two functions write and read;
* `rawPools`: the raw opportunities that an undisturbed `getPoolData` hydrates;
* `step`: the two functions as a system. Any number of instances share one cache, any number of
  calls are in flight, every `await` is one step, an awaited operation may fail, and a cached
  value may expire at any time. A multi-set is one step: the store writes it in a transaction.

The state keeps two records that the code does not: the opportunities each instance's
`getCacheableOpportunityData` has returned, and the raw opportunities handed to
`hydrateOpportunityData`. -/

namespace DefiBackend
namespace Integration
open Theory

/-- The one field of a minimal opportunity that the cache looks at, absent when it is null or
undefined. -/
class IWalletMinimal (T : Type u) where
  id : T → Option String

/-- `pool?.id`, when it is truthy. -/
def truthyId [IWalletMinimal T] (pool : Option T) : Option String :=
  pool.bind fun pool => (IWalletMinimal.id pool).filter (· ≠ "")

structure PoolDataResponse (O : Type v) where
  data : List O
  errors : List String
  deriving DecidableEq

/-- The values this layer stores in the cache. -/
inductive CacheValue (T : Type u) (O : Type v)
  | list (ids : List String)
  | pool (pool : T)
  | hydrated (response : PoolDataResponse O)

abbrev Cache (T : Type u) (O : Type v) := Store String (CacheValue T O)

section
variable {T : Type u} {O : Type v} [IWalletMinimal T]

/-- The ids collected by `cachePoolData`; null pools and pools without an id are left out. -/
def poolList (pools : List (Option T)) : List String := pools.filterMap truthyId

/-- The entry of one pool, if it can be cached. -/
def poolEntry (P : RootProtocol) (pool : Option T) : Option (String × CacheValue T O) :=
  pool.bind fun pool =>
    (truthyId (some pool)).map fun id => (P.singlePoolCacheKey id, .pool pool)

/-- The entries of the multi-set of `cachePoolData`, the pool list in front. -/
def cacheEntries (P : RootProtocol) (pools : List (Option T)) : List (String × CacheValue T O) :=
  (P.poolListCacheKey, .list (poolList pools)) :: pools.filterMap (poolEntry P)

/-- The pool list under a key; an empty one counts as a missing one. -/
def readList (listKey : String) (cache : Cache T O) : List String :=
  match cache listKey with
  | some (.list ids) => ids
  | _ => []

/-- A cached pool. -/
def readPool (P : RootProtocol) (cache : Cache T O) (id : String) : Option T :=
  match cache (P.singlePoolCacheKey id) with
  | some (.pool pool) => some pool
  | _ => none

/-- The multi-get of `getPoolData`, without the missing pools. -/
def readPools (P : RootProtocol) (cache : Cache T O) (list : List String) : List T :=
  list.filterMap (readPool P cache)

/-- The pools that `getPoolData` finds in the cache: none when there is no list, or when it does
not match the pools. -/
def cachedPools (P : RootProtocol) (cache : Cache T O) : Option (List T) :=
  let list := readList P.poolListCacheKey cache
  if list = [] then none
  else
    let pools := readPools P cache list
    if list.length ≠ pools.length then none else some pools

/-- The raw opportunities that `getPoolData` hydrates when nothing else runs: those found in the
cache, or else those which `getCacheableOpportunityData` returns now. -/
def rawPools (P : RootProtocol) (cache : Cache T O) (upstream : List (Option T)) :
    List (Option T) :=
  match cachedPools P cache with
  | some pools => pools.map some
  | none => upstream

end

/-- Where a call is waiting, with the keys it has computed. A `cachePoolData` made by `getPoolData`
holds the `cacheKey` of its caller, one made by a sync does not. -/
inductive Phase (T : Type u) (O : Type v)
  | fetching (cacheKey : Option String)
  | writing (cacheKey : Option String) (cached : List (String × CacheValue T O))
      (pools : List (Option T))
  | readingHydrated (cacheKey : String)
  | readingList (cacheKey listKey : String)
  | readingPools (cacheKey : String) (list : List String)
  | hydrating (cacheKey : String) (pools : List (Option T))
  | saving (cacheKey : String) (response : PoolDataResponse O)

inductive Action (ι : Type w) (T : Type u) (O : Type v)
  | cachePoolData (n : Nat) (i : ι)
  | getPoolData (n : Nat) (i : ι)
  | opportunities (n : Nat) (pools : List (Option T))
  | written (n : Nat)
  | readHydrated (n : Nat)
  | readList (n : Nat)
  | readPools (n : Nat)
  | hydrated (n : Nat) (response : PoolDataResponse O)
  | saved (n : Nat)
  | reject (n : Nat)
  | expire (key : String)

structure World (ι : Type w) (T : Type u) (O : Type v) where
  cache : Cache T O
  /-- The calls in flight, each with its instance. -/
  calls : Nat → Option (ι × Phase T O)
  /-- What `getCacheableOpportunityData` of each instance has returned. -/
  returned : ι → List T
  /-- The raw opportunities handed to `hydrateOpportunityData`, with the instance. -/
  hydrated : List (ι × List (Option T))

namespace World
variable {ι : Type w} {T : Type u} {O : Type v} (s : World ι T O)

def init : World ι T O := ⟨Store.empty, fun _ => none, fun _ => [], []⟩

/-- Call `n` of instance `i` goes on to wait at `phase`. -/
def goto (n : Nat) (i : ι) (phase : Phase T O) : World ι T O :=
  { s with calls := Function.update s.calls n (some (i, phase)) }

/-- Call `n` is over. -/
def finish (n : Nat) : World ι T O := { s with calls := Function.update s.calls n none }

def setCache (cache : Cache T O) : World ι T O := { s with cache }

/-- `getCacheableOpportunityData` of instance `i` returned `pools`. -/
def fetched [DecidableEq ι] (i : ι) (pools : List (Option T)) : World ι T O :=
  { s with returned := Function.update s.returned i (s.returned i ++ pools.reduceOption) }

/-- Call `n` hands `pools` to `hydrateOpportunityData`. -/
def hydrate (n : Nat) (i : ι) (cacheKey : String) (pools : List (Option T)) : World ι T O :=
  { s.goto n i (.hydrating cacheKey pools) with hydrated := s.hydrated ++ [(i, pools)] }

end World

section
variable {ι : Type w} {T : Type u} {O : Type v} [DecidableEq ι] [IWalletMinimal T]
  (P : ι → RootProtocol)

/-- One step of the system. -/
def step (s : World ι T O) : Action ι T O → Option (World ι T O)
  | .cachePoolData n i =>
    match s.calls n with
    | none => some (s.goto n i (.fetching none))
    | some _ => none
  | .getPoolData n i =>
    match s.calls n with
    | none => some (s.goto n i (.readingHydrated (P i).hydratedCacheKey))
    | some _ => none
  | .opportunities n pools =>
    match s.calls n with
    | some (i, .fetching cacheKey) =>
      some ((s.fetched i pools).goto n i (.writing cacheKey (cacheEntries (P i) pools) pools))
    | _ => none
  | .written n =>
    match s.calls n with
    | some (i, .writing cacheKey cached pools) =>
      let s := s.setCache (s.cache.mset cached)
      match cacheKey with
      | some cacheKey => some (s.hydrate n i cacheKey pools)
      | none => some (s.finish n)
    | _ => none
  | .readHydrated n =>
    match s.calls n with
    | some (i, .readingHydrated cacheKey) =>
      match s.cache cacheKey with
      | some _ => some (s.finish n)
      | none => some (s.goto n i (.readingList cacheKey (P i).poolListCacheKey))
    | _ => none
  | .readList n =>
    match s.calls n with
    | some (i, .readingList cacheKey listKey) =>
      match readList listKey s.cache with
      | [] => some (s.goto n i (.fetching (some cacheKey)))
      | list => some (s.goto n i (.readingPools cacheKey list))
    | _ => none
  | .readPools n =>
    match s.calls n with
    | some (i, .readingPools cacheKey list) =>
      let pools := readPools (P i) s.cache list
      if list.length ≠ pools.length then some (s.goto n i (.fetching (some cacheKey)))
      else some (s.hydrate n i cacheKey (pools.map some))
    | _ => none
  | .hydrated n response =>
    match s.calls n with
    | some (i, .hydrating cacheKey _) =>
      match response.errors with
      | [] => some (s.goto n i (.saving cacheKey response))
      | _ => some (s.finish n)
    | _ => none
  | .saved n =>
    match s.calls n with
    | some (_, .saving cacheKey response) =>
      some ((s.setCache (s.cache.set cacheKey (.hydrated response))).finish n)
    | _ => none
  | .reject n =>
    match s.calls n with
    | some _ => some (s.finish n)
    | none => none
  | .expire key => some (s.setCache (s.cache.erase key))

end

/-! ## What the cache holds after a write -/

section
variable {T : Type u} {O : Type v} [IWalletMinimal T] {P Q : RootProtocol}
  {cache : Cache T O} {pools : List (Option T)}

theorem truthyId_eq_some {pool : Option T} {id : String} (h : truthyId pool = some id) :
    ∃ o, pool = some o ∧ truthyId (some o) = some id := by
  cases pool with
  | none => simp [truthyId] at h
  | some o => exact ⟨o, rfl, h⟩

theorem mem_poolList {id : String} :
    id ∈ poolList pools ↔ ∃ o, some o ∈ pools ∧ truthyId (some o) = some id := by
  simp only [poolList, List.mem_filterMap]
  constructor
  · rintro ⟨pool, hpool, hid⟩
    obtain ⟨o, rfl, ho⟩ := truthyId_eq_some hid
    exact ⟨o, hpool, ho⟩
  · rintro ⟨o, ho, hid⟩
    exact ⟨some o, ho, hid⟩

theorem mem_poolEntries {e : String × CacheValue T O} :
    e ∈ pools.filterMap (poolEntry P) ↔ ∃ o id, some o ∈ pools ∧ truthyId (some o) = some id ∧
      e = (P.singlePoolCacheKey id, .pool o) := by
  simp only [List.mem_filterMap, poolEntry, Option.bind_eq_some_iff, Option.map_eq_some_iff]
  constructor
  · rintro ⟨_, ho, o, rfl, id, hid, rfl⟩
    exact ⟨o, id, ho, hid, rfl⟩
  · rintro ⟨o, id, ho, hid, rfl⟩
    exact ⟨some o, ho, o, rfl, id, hid, rfl⟩

/-- A write of `P` writes the list under its own key and no other list. -/
theorem mset_poolListCacheKey : cache.mset (cacheEntries P pools) Q.poolListCacheKey =
    if P.protocolId = Q.protocolId then some (.list (poolList pools))
    else cache Q.poolListCacheKey := by
  have hne : ∀ e ∈ pools.filterMap (poolEntry (O := O) P), e.1 ≠ Q.poolListCacheKey := by
    intro e he
    obtain ⟨o, id, -, -, rfl⟩ := mem_poolEntries.mp he
    exact RootProtocol.poolListCacheKey_ne_single.symm
  rw [cacheEntries, Store.mset_cons, Store.mset_of_notMem hne]
  split
  · rename_i h
    rw [RootProtocol.poolListCacheKey_inj.mpr h, Store.set_self]
  · rename_i h
    exact Store.set_of_ne fun e => h (RootProtocol.poolListCacheKey_inj.mp e).symm

/-- A pool under a key after a write of `P` is a written one or the one from before. -/
theorem pool_of_mset {id : String}
    (h : cache.mset (cacheEntries P pools) (Q.singlePoolCacheKey id) = some (.pool o)) :
    (P.chain = Q.chain ∧ some o ∈ pools ∧ truthyId (some o) = some id) ∨
      cache (Q.singlePoolCacheKey id) = some (.pool o) := by
  rcases Store.of_mset h with he | h
  · rcases List.mem_cons.mp he with he | he
    · exact absurd (Prod.mk.inj he).1 RootProtocol.poolListCacheKey_ne_single.symm
    · obtain ⟨o', id', ho, hid, he⟩ := mem_poolEntries.mp he
      obtain ⟨hk, hv⟩ := Prod.mk.inj he
      obtain ⟨hchain, rfl⟩ := RootProtocol.singlePoolCacheKey_inj.mp hk
      obtain rfl : o = o' := by simpa using hv
      exact .inl ⟨hchain.symm, ho, hid⟩
  · exact .inr h

end

/-! ## What a step does to the calls and to the cache -/

/-- A call computes its keys from the identity of its instance. -/
def Phase.KeysOk {T : Type u} {O : Type v} [IWalletMinimal T] (P : RootProtocol) :
    Phase T O → Prop
  | .fetching cacheKey => ∀ key ∈ cacheKey, key = P.hydratedCacheKey
  | .writing cacheKey cached pools =>
    (∀ key ∈ cacheKey, key = P.hydratedCacheKey) ∧ cached = cacheEntries P pools
  | .readingList cacheKey listKey =>
    cacheKey = P.hydratedCacheKey ∧ listKey = P.poolListCacheKey
  | .readingHydrated cacheKey | .readingPools cacheKey _ | .hydrating cacheKey _
  | .saving cacheKey _ => cacheKey = P.hydratedCacheKey

section
variable {ι : Type w} {T : Type u} {O : Type v} [IWalletMinimal T]
  {P : ι → RootProtocol} {s s' : World ι T O} {a : Action ι T O}

def World.KeysOk (P : ι → RootProtocol) (s : World ι T O) : Prop :=
  ∀ n i phase, s.calls n = some (i, phase) → phase.KeysOk (P i)

theorem World.KeysOk.init : (World.init : World ι T O).KeysOk P :=
  fun _ _ _ h => nomatch h

omit [IWalletMinimal T] in
/-- A call that goes on is the one that was moved, or was there before. -/
theorem World.calls_goto (h : (s.goto n i phase).calls m = some (j, phase')) :
    (j = i ∧ phase' = phase) ∨ s.calls m = some (j, phase') := by
  by_cases hmn : m = n
  · subst hmn
    simp only [World.goto, Function.update_self, Option.some.injEq, Prod.mk.injEq] at h
    exact .inl ⟨h.1.symm, h.2.symm⟩
  · simp only [World.goto, Function.update_of_ne hmn] at h
    exact .inr h

omit [IWalletMinimal T] in
theorem World.calls_finish (h : (s.finish n).calls m = some (j, phase)) :
    s.calls m = some (j, phase) := by
  by_cases hmn : m = n
  · simp [World.finish, hmn] at h
  · simpa only [World.finish, Function.update_of_ne hmn] using h

theorem World.KeysOk.goto (h : s.KeysOk P) (hphase : phase.KeysOk (P i)) :
    (s.goto n i phase).KeysOk P := by
  intro m j phase' hm
  obtain ⟨rfl, rfl⟩ | hm := World.calls_goto hm
  · exact hphase
  · exact h _ _ _ hm

theorem World.KeysOk.hydrate (h : s.KeysOk P) (hkey : cacheKey = (P i).hydratedCacheKey) :
    (s.hydrate n i cacheKey pools).KeysOk P := by
  have h' : (s.goto n i (.hydrating cacheKey pools)).KeysOk P := h.goto hkey
  exact h'

theorem World.KeysOk.finish (h : s.KeysOk P) : (s.finish n).KeysOk P :=
  fun _ _ _ hm => h _ _ _ (World.calls_finish hm)

/-- The cache after an enabled action. -/
def World.cacheAfter (s : World ι T O) : Action ι T O → Cache T O
  | .written n =>
    match s.calls n with
    | some (_, .writing _ cached _) => s.cache.mset cached
    | _ => s.cache
  | .saved n =>
    match s.calls n with
    | some (_, .saving cacheKey response) => s.cache.set cacheKey (.hydrated response)
    | _ => s.cache
  | .expire key => s.cache.erase key
  | _ => s.cache

variable [DecidableEq ι]

theorem step_cache (h : step P s a = some s') : s'.cache = s.cacheAfter a := by
  cases a <;> simp only [step] at h
  case written n =>
    split at h
    · simp only [World.cacheAfter, *]
      split at h <;> cases h <;> rfl
    · cases h
  case saved n =>
    split at h
    · cases h; simp [World.cacheAfter, World.finish, World.setCache, *]
    · cases h
  case expire key => cases h; rfl
  all_goals
    repeat' split at h
    all_goals cases h
    all_goals rfl

theorem World.KeysOk.step (h : s.KeysOk P) (hstep : step P s a = some s') : s'.KeysOk P := by
  cases a <;> simp only [Integration.step] at hstep
  case cachePoolData n i =>
    split at hstep
    · cases hstep; exact h.goto fun key hkey => by cases hkey
    · cases hstep
  case getPoolData n i =>
    split at hstep
    · cases hstep; exact h.goto rfl
    · cases hstep
  case opportunities n pools =>
    split at hstep
    · rename_i i cacheKey hcall
      cases hstep
      have h' : (s.fetched i pools).KeysOk P := h
      exact h'.goto ⟨h _ _ _ hcall, rfl⟩
    · cases hstep
  case written n =>
    split at hstep
    · rename_i i cacheKey cached pools hcall
      have hkey := (h _ _ _ hcall).1
      have h' : (s.setCache (s.cache.mset cached)).KeysOk P := h
      split at hstep
      · cases hstep
        exact h'.hydrate (hkey _ rfl)
      · cases hstep; exact h'.finish
    · cases hstep
  case readHydrated n =>
    split at hstep
    · rename_i i cacheKey hcall
      have hkey : cacheKey = _ := h _ _ _ hcall
      split at hstep
      · cases hstep; exact h.finish
      · cases hstep; exact h.goto ⟨hkey, rfl⟩
    · cases hstep
  case readList n =>
    split at hstep
    · rename_i i cacheKey listKey hcall
      have hkey : cacheKey = _ := (h _ _ _ hcall).1
      split at hstep
      · cases hstep; exact h.goto fun key e => (Option.some.inj e).symm.trans hkey
      · cases hstep; exact h.goto hkey
    · cases hstep
  case readPools n =>
    split at hstep
    · rename_i i cacheKey list hcall
      have hkey : cacheKey = _ := h _ _ _ hcall
      split at hstep
      · cases hstep; exact h.goto fun key e => (Option.some.inj e).symm.trans hkey
      · cases hstep
        exact h.hydrate hkey
    · cases hstep
  case hydrated n response =>
    split at hstep
    · rename_i i cacheKey pools hcall
      have hkey : cacheKey = _ := h _ _ _ hcall
      split at hstep
      · cases hstep; exact h.goto hkey
      · cases hstep; exact h.finish
    · cases hstep
  case saved n =>
    split at hstep
    · cases hstep
      have h' : ∀ cache, (s.setCache cache).KeysOk P := fun _ => h
      exact (h' _).finish
    · cases hstep
  case reject n =>
    split at hstep
    · cases hstep; exact h.finish
    · cases hstep
  case expire key =>
    cases hstep
    exact h

end
end Integration
end DefiBackend
