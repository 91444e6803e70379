import DefiBackend.Integration.Platforms.OccamX
import Mathlib.Data.List.ReduceOption

/-! # Isolation of the protocols that share a cache

List keys are different for different protocols, but a pool is cached under its chain and its id
alone. So a protocol reads back what another protocol wrote as soon as two protocols on one chain
return different opportunities with one id.

* `Isolated`: no call has hydrated an opportunity that its own instance did not return;
* `StepOk`: a step in which no opportunity arrives whose id another instance on the chain has used
  for a different opportunity;
* `Inv`: the invariant of the runs that meet `StepOk`, with one lemma for each kind of change;
* `isolated_of_run`: such runs, in any interleaving, with failures and expiries, are isolated. -/

namespace DefiBackend
namespace Integration
open Theory

section
variable {ι : Type w} {T : Type u} {O : Type v} [IWalletMinimal T]
  {P : ι → RootProtocol} {s s' : World ι T O}

/-- No call has hydrated an opportunity that its own instance did not return. -/
def Isolated (s : World ι T O) : Prop :=
  ∀ i pools, (i, pools) ∈ s.hydrated → ∀ o, some o ∈ pools → o ∈ s.returned i

/-- No opportunity arrives for an instance under an id that another instance on its chain has
returned for a different opportunity. -/
def StepOk (P : ι → RootProtocol) (s : World ι T O) : Action ι T O → Prop
  | .opportunities n pools => ∀ i phase, s.calls n = some (i, phase) →
    ∀ o id, some o ∈ pools → truthyId (some o) = some id →
    ∀ j, j ≠ i → (P j).chain = (P i).chain →
    ∀ o' ∈ s.returned j, truthyId (some o') = some id → o' = o
  | _ => True

/-! ## The invariant -/

/-- Some opportunity that instance `i` returned has this id. -/
def HasId (returned : ι → List T) (i : ι) (id : String) : Prop :=
  ∃ o ∈ returned i, truthyId (some o) = some id

/-- What a waiting call remembers comes from its own instance. -/
def CallOk (returned : ι → List T) (i : ι) : Phase T O → Prop
  | .writing _ _ pools => ∀ o, some o ∈ pools → o ∈ returned i
  | .readingPools _ list => ∀ id ∈ list, HasId returned i id
  | _ => True

/-- What the cache holds was returned: lists by the instance itself, pools by an instance on the
chain. -/
structure CacheOk (P : ι → RootProtocol) (returned : ι → List T) (cache : Cache T O) : Prop where
  listed : cache (P i).poolListCacheKey = some (.list list) → ∀ id ∈ list, HasId returned i id
  pooled : ∀ {id}, cache ((P i).singlePoolCacheKey id) = some (.pool o) →
    truthyId (some o) = some id ∧ ∃ j, (P j).chain = (P i).chain ∧ o ∈ returned j

/-- Two instances on a chain agree on the opportunities whose ids they share. -/
def Agree (P : ι → RootProtocol) (returned : ι → List T) : Prop :=
  ∀ i j, i ≠ j → (P i).chain = (P j).chain → ∀ o ∈ returned i, ∀ o' ∈ returned j, ∀ id,
    truthyId (some o) = some id → truthyId (some o') = some id → o = o'

structure Inv (P : ι → RootProtocol) (s : World ι T O) : Prop where
  calls : ∀ {n i phase}, s.calls n = some (i, phase) → CallOk s.returned i phase
  cache : CacheOk P s.returned s.cache
  agree : Agree P s.returned
  isolated : Isolated s

theorem Inv.init : Inv P (World.init : World ι T O) where
  calls h := nomatch h
  cache := ⟨fun h => (nomatch h), fun h => (nomatch h)⟩
  agree _ _ _ _ _ h := nomatch h
  isolated _ _ h := nomatch h

theorem HasId.mono {r r' : ι → List T} {id : String} (hr : ∀ i, r i ⊆ r' i) (h : HasId r i id) :
    HasId r' i id :=
  let ⟨o, ho, hid⟩ := h
  ⟨o, hr i ho, hid⟩

theorem CallOk.mono {r r' : ι → List T} {phase : Phase T O} (hr : ∀ i, r i ⊆ r' i)
    (h : CallOk r i phase) : CallOk r' i phase := by
  cases phase with
  | writing cacheKey cached pools => exact fun o ho => hr i (h o ho)
  | readingPools cacheKey list => exact fun id hid => (h id hid).mono hr
  | _ => trivial

theorem CacheOk.mono {r r' : ι → List T} {cache : Cache T O} (hr : ∀ i, r i ⊆ r' i)
    (h : CacheOk P r cache) : CacheOk P r' cache where
  listed hl id hid := (h.listed hl id hid).mono hr
  pooled ho :=
    let ⟨hid, j, hj, hmem⟩ := h.pooled ho
    ⟨hid, j, hj, hr j hmem⟩

/-! ## What the cache operations keep -/

theorem CacheOk.erase {r : ι → List T} {cache : Cache T O} (h : CacheOk P r cache) :
    CacheOk P r (cache.erase key) where
  listed hl := h.listed (Store.of_erase hl)
  pooled ho := h.pooled (Store.of_erase ho)

/-- Hydrated responses are stored under keys of their own. -/
theorem CacheOk.setHydrated {r : ι → List T} {cache : Cache T O} (h : CacheOk P r cache) :
    CacheOk P r (cache.set (P i).hydratedCacheKey (.hydrated response)) where
  listed hl := by
    rw [Store.set_of_ne RootProtocol.hydratedCacheKey_ne_poolList.symm] at hl
    exact h.listed hl
  pooled ho := by
    rw [Store.set_of_ne RootProtocol.hydratedCacheKey_ne_single.symm] at ho
    exact h.pooled ho

/-- The multi-set of `cachePoolData` writes a list of its own instance and pools of its chain. -/
theorem CacheOk.mset {r : ι → List T} {cache : Cache T O}
    (hP : Function.Injective fun i => (P i).protocolId) (h : CacheOk P r cache)
    (hpools : ∀ o, some o ∈ pools → o ∈ r i) :
    CacheOk P r (cache.mset (cacheEntries (P i) pools)) where
  listed hl id hid := by
    rw [mset_poolListCacheKey] at hl
    split at hl
    · rename_i hij
      cases hl
      obtain rfl := hP hij
      obtain ⟨o, ho, hid⟩ := mem_poolList.mp hid
      exact ⟨o, hpools o ho, hid⟩
    · exact h.listed hl id hid
  pooled ho := by
    rcases pool_of_mset ho with ⟨hchain, hmem, hid⟩ | ho
    · exact ⟨hid, i, hchain, hpools _ hmem⟩
    · exact h.pooled ho

/-- Under the invariant the pools read back for a list of own ids are own pools. -/
theorem Inv.mem_readPools (h : Inv P s) (hlist : ∀ id ∈ list, HasId s.returned i id)
    (ho : o ∈ readPools (P i) s.cache list) : o ∈ s.returned i := by
  obtain ⟨id, hid, ho⟩ := List.mem_filterMap.mp ho
  have hcached : s.cache ((P i).singlePoolCacheKey id) = some (.pool o) := by
    unfold readPool at ho
    split at ho
    · cases ho; assumption
    · cases ho
  obtain ⟨hoid, j, hchain, hj⟩ := h.cache.pooled hcached
  obtain ⟨o', ho', ho'id⟩ := hlist id hid
  by_cases hij : i = j
  · subst hij; exact hj
  · obtain rfl := h.agree i j hij hchain.symm o' ho' o hj id ho'id hoid
    exact ho'

/-! ## What the changes of the state keep -/

theorem Inv.goto (h : Inv P s) (hphase : CallOk s.returned i phase) :
    Inv P (s.goto n i phase) where
  calls {m j phase'} hm := by
    obtain ⟨rfl, rfl⟩ | hm := World.calls_goto hm
    · exact hphase
    · exact h.calls hm
  cache := h.cache
  agree := h.agree
  isolated := h.isolated

theorem Inv.finish (h : Inv P s) : Inv P (s.finish n) where
  calls hm := h.calls (World.calls_finish hm)
  cache := h.cache
  agree := h.agree
  isolated := h.isolated

theorem Inv.setCache {cache : Cache T O} (h : Inv P s) (hcache : CacheOk P s.returned cache) :
    Inv P (s.setCache cache) where
  calls := h.calls
  cache := hcache
  agree := h.agree
  isolated := h.isolated

theorem Inv.hydrate (h : Inv P s) (hpools : ∀ o, some o ∈ pools → o ∈ s.returned i) :
    Inv P (s.hydrate n i cacheKey pools) where
  calls hm :=
    have h' : Inv P (s.goto n i (.hydrating cacheKey pools)) := h.goto trivial
    h'.calls hm
  cache := h.cache
  agree := h.agree
  isolated j pools' hmem o ho := by
    rcases List.mem_append.mp hmem with hmem | hmem
    · exact h.isolated j pools' hmem o ho
    · obtain ⟨rfl, rfl⟩ := Prod.mk.inj (List.mem_singleton.mp hmem)
      exact hpools o ho

variable [DecidableEq ι]

omit [IWalletMinimal T] in
theorem World.returned_fetched (s : World ι T O) :
    (s.fetched i pools).returned j =
      s.returned j ++ if j = i then pools.reduceOption else [] := by
  by_cases h : j = i
  · subst h; simp [World.fetched]
  · simp [World.fetched, h]

omit [IWalletMinimal T] in
theorem World.returned_subset_fetched (s : World ι T O) (j : ι) :
    s.returned j ⊆ (s.fetched i pools).returned j := by
  rw [World.returned_fetched]
  exact List.subset_append_left ..

omit [IWalletMinimal T] in
theorem World.mem_fetched (s : World ι T O) (ho : some o ∈ pools) :
    o ∈ (s.fetched i pools).returned i := by
  simp [World.returned_fetched, List.reduceOption_mem_iff, ho]

theorem Inv.fetched (h : Inv P s) (hcall : s.calls n = some (i, phase))
    (hok : StepOk P s (.opportunities n pools)) : Inv P (s.fetched i pools) where
  calls hm := (h.calls hm).mono s.returned_subset_fetched
  cache := h.cache.mono s.returned_subset_fetched
  agree j k hjk hchain o ho o' ho' id hid hid' := by
    have split : ∀ {j o}, o ∈ (s.fetched i pools).returned j →
        o ∈ s.returned j ∨ j = i ∧ some o ∈ pools := by
      intro j o ho
      rw [World.returned_fetched, List.mem_append] at ho
      rcases ho with ho | ho
      · exact .inl ho
      · split at ho
        · exact .inr ⟨‹_›, List.reduceOption_mem_iff.mp ho⟩
        · exact absurd ho List.not_mem_nil
    rcases split ho with hj | ⟨rfl, hj⟩
    · rcases split ho' with hk | ⟨rfl, hk⟩
      · exact h.agree j k hjk hchain o hj o' hk id hid hid'
      · exact hok _ _ hcall o' id hk hid' j hjk hchain o hj hid
    · rcases split ho' with hk | ⟨rfl, _⟩
      · exact (hok _ _ hcall o id hj hid k hjk.symm hchain.symm o' hk hid').symm
      · exact absurd rfl hjk
  isolated j pools' hmem o ho := s.returned_subset_fetched j (h.isolated j pools' hmem o ho)

/-! ## Runs -/

theorem Inv.step (hP : Function.Injective fun i => (P i).protocolId) (hk : s.KeysOk P)
    (h : Inv P s) (hok : StepOk P s a) (hstep : step P s a = some s') : Inv P s' := by
  cases a <;> simp only [Integration.step] at hstep
  case cachePoolData n i =>
    split at hstep
    · cases hstep; exact h.goto trivial
    · cases hstep
  case getPoolData n i =>
    split at hstep
    · cases hstep; exact h.goto trivial
    · cases hstep
  case opportunities n pools =>
    split at hstep
    · cases hstep
      exact (h.fetched ‹_› hok).goto fun o ho => s.mem_fetched ho
    · cases hstep
  case written n =>
    split at hstep
    · rename_i i cacheKey cached pools hcall
      obtain ⟨-, rfl⟩ := hk _ _ _ hcall
      have hpools := h.calls hcall
      have h' := h.setCache (h.cache.mset hP hpools)
      split at hstep
      · cases hstep; exact h'.hydrate hpools
      · cases hstep; exact h'.finish
    · cases hstep
  case readHydrated n =>
    split at hstep
    · split at hstep
      · cases hstep; exact h.finish
      · cases hstep; exact h.goto trivial
    · cases hstep
  case readList n =>
    split at hstep
    · rename_i i cacheKey listKey hcall
      obtain ⟨-, rfl⟩ := hk _ _ _ hcall
      split at hstep
      · cases hstep; exact h.goto trivial
      · cases hstep
        refine h.goto fun id hid => ?_
        unfold readList at hid
        split at hid
        · exact h.cache.listed ‹_› id hid
        · exact absurd hid List.not_mem_nil
    · cases hstep
  case readPools n =>
    split at hstep
    · rename_i i cacheKey list hcall
      split at hstep
      · cases hstep; exact h.goto trivial
      · cases hstep
        refine h.hydrate fun o ho => ?_
        obtain ⟨o', ho', e⟩ := List.mem_map.mp ho
        cases e
        exact h.mem_readPools (h.calls hcall) ho'
    · cases hstep
  case hydrated n response =>
    split at hstep
    · split at hstep
      · cases hstep; exact h.goto trivial
      · cases hstep; exact h.finish
    · cases hstep
  case saved n =>
    split at hstep
    · rename_i i cacheKey response hcall
      obtain rfl := hk _ _ _ hcall
      cases hstep
      exact (h.setCache h.cache.setHydrated).finish
    · cases hstep
  case reject n =>
    split at hstep
    · cases hstep; exact h.finish
    · cases hstep
  case expire key =>
    cases hstep
    exact h.setCache h.cache.erase

/-- Protocols are isolated in every run in which no opportunity arrives under an id that another
instance on the chain has returned for a different one. -/
theorem isolated_of_run (hP : Function.Injective fun i => (P i).protocolId)
    (H : RunsUnder (step P) (StepOk P) World.init as s) : Isolated s := by
  have hinv : s.KeysOk P ∧ Inv P s := by
    refine H.invariant (I := fun s => s.KeysOk P ∧ Inv P s) ?_ ⟨World.KeysOk.init, Inv.init⟩
    exact fun ⟨hk, h⟩ hok hstep => ⟨hk.step hstep, h.step hP hk hok hstep⟩
  exact hinv.2.isolated

end

/-! ## Two protocols on one chain -/

namespace OccamX

def poolA : OccamXPool := ⟨"0x1dd1f4ee2a0b9b93a9a53c4a5b6d0b7ac9a4a9f1"⟩

def poolB : OccamXPool := ⟨"0x7f2c0b1d9a35e8c4d6f0a2b3c5e7d9f1a3b5c7d9"⟩

/-- Both protocols are synced, while the exchange has one pool each time, and then the liquidity
protocol is read. -/
def syncAndRead (pool farm : OccamXPool) : List (Action OccamX OccamXMinimal Unit) :=
  [.cachePoolData 0 .liquidity, .opportunities 0 (fetchOpportunityData .liquidity [pool]),
    .written 0, .cachePoolData 1 .farms, .opportunities 1 (fetchOpportunityData .farms [farm]),
    .written 1, .getPoolData 2 .liquidity, .readHydrated 2, .readList 2, .readPools 2]

/-- Pools with different contracts stay apart. -/
theorem isolated_of_run_syncAndRead :
    ∃ s, run (step protocol) World.init (syncAndRead poolA poolB) = some s ∧
      (.liquidity, [some (toMinimal .liquidity poolA)]) ∈ s.hydrated ∧ Isolated s := by
  have H : ∃ s, RunsUnder (step protocol) (StepOk protocol) World.init (syncAndRead poolA poolB) s ∧
      (.liquidity, [some (toMinimal .liquidity poolA)]) ∈ s.hydrated := by
    refine ⟨_, .cons trivial rfl (.cons ?_ rfl (.cons trivial rfl (.cons trivial rfl (.cons ?_ rfl
      (.cons trivial rfl (.cons trivial rfl (.cons trivial rfl (.cons trivial rfl
        (.cons trivial rfl .nil))))))))), List.mem_singleton_self _⟩
    · exact fun i phase hcall o id ho hid j hj hchain o' ho' => nomatch ho'
    · rintro i phase hcall o id ho hid (_ | _) hj hchain o' ho' hid'
      · obtain rfl := List.mem_singleton.mp ho'
        obtain rfl : o = toMinimal .farms poolB := by simpa [fetchOpportunityData] using ho
        exact absurd (hid.trans hid'.symm) (by decide)
      · exact nomatch ho'
  obtain ⟨s, H, hs⟩ := H
  exact ⟨s, H.run_eq, hs, isolated_of_run protocolId_injective H⟩

/-- Both protocols take the pools of the exchange for their own: after a sync of both, the
liquidity protocol hydrates the farm of the pool. -/
theorem syncAndRead_not_isolated :
    ∃ s, run (step protocol) World.init (syncAndRead poolA poolA) = some s ∧ ¬ Isolated s := by
  refine ⟨_, rfl, fun h => ?_⟩
  have hmem := h .liquidity _ (List.mem_singleton_self _) _ (List.mem_singleton_self _)
  exact absurd hmem (by decide)

end OccamX
end Integration
end DefiBackend
