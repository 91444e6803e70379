import DefiBackend.Rpc.EndpointsMap
import DefiBackend.Theory.Sorting
import Mathlib.Data.List.Pairwise

/-! # The order of endpoints

`updateEndpointsPriority` of `endpoints-statistic.service.ts`, from its start to its end: the
entries of each chain get their new statistics and are sorted by `compareEndpointStatistic`, which
writes the priority of its second entry to its first one. Which entries are compared is up to the
sort.

* `Ranked`: a list is a permutation of what it was, by priority and then by rating, and all entries
  have kept their priorities.
* `ranks_iff`: with every sort all lists are ranked exactly when on each chain all entries have one
  priority, and are by rating already if that is zero. -/

namespace DefiBackend
namespace Rpc
namespace EndpointsMap
open Theory

/-- How a sort reads the number that a comparison gives. -/
def sign (v : ℚ) : Ordering := if v < 0 then .lt else if 0 < v then .gt else .eq

/-- The comparison of the entries at two places. -/
def comparePlaces (list : List EndpointStatistic) (heap : Heap) (i j : Fin list.length) :
    Heap × Ordering :=
  let (heap, v) := compareEndpointStatistic heap (list.get i) (list.get j)
  (heap, sign v)

/-- `updatedEndpointStatistics.sort(this.compareEndpointStatistic)`. -/
def sortEntries (engine : Engine) (heap : Heap) (list : List EndpointStatistic) :
    Heap × List EndpointStatistic :=
  let (heap, order) := (engine.sort list.length).run (comparePlaces list) heap
  (heap, order.map list.get)

section
variable (engine : Engine) (scores : EndpointStatistic → List SuccessScore)

/-- The new statistic of an entry. -/
def refresh (heap : Heap) (e : EndpointStatistic) : Heap :=
  Function.update heap e.object { heap e.object with callsStatistic := .ofScores (scores e) }

/-- The entries of a chain. -/
def updateChain (heap : Heap) (list : List EndpointStatistic) : Heap × List EndpointStatistic :=
  sortEntries engine (list.foldl (refresh scores) heap) list

def updateKey (s : Heap × EndpointsToChainMap) (chainId : ChainId) : Heap × EndpointsToChainMap :=
  match s.2.get chainId with
  | some list =>
    let (heap, list) := updateChain engine scores s.1 list
    (heap, s.2.set chainId list)
  | none => s

/-- `updateEndpointsPriority`, where the cache has some scores for each entry. -/
def updateEndpointsPriority (heap : Heap) (endpointsMap : EndpointsToChainMap) :
    Heap × EndpointsToChainMap :=
  endpointsMap.keys.foldl (updateKey engine scores) (heap, endpointsMap)

end

/-- What a map has to be: one list for each chain, and no entry twice. -/
structure WellFormed (endpointsMap : EndpointsToChainMap) : Prop where
  keys : endpointsMap.keys.Nodup
  objects : (endpointsMap.flatMap fun chain => chain.2.map (·.object)).Nodup

/-- A list by priority, then by rating. The first heap is that from before. -/
structure Ranked (heap heap' : Heap) (list list' : List EndpointStatistic) : Prop where
  perm : list'.Perm list
  sorted : list'.Pairwise fun a b =>
    (heap' b.object).priority < (heap' a.object).priority ∨
      (heap' a.object).priority = (heap' b.object).priority ∧
        (heap' b.object).callsStatistic.rating ≤ (heap' a.object).callsStatistic.rating
  priority : ∀ e ∈ list, (heap' e.object).priority = (heap e.object).priority

/-- The lists of all chains are ranked. -/
def Ranks (engine : Engine) (scores : EndpointStatistic → List SuccessScore) (heap : Heap)
    (endpointsMap : EndpointsToChainMap) : Prop :=
  ∀ chainId list, endpointsMap.get chainId = some list →
    ∃ list', (updateEndpointsPriority engine scores heap endpointsMap).2.get chainId = some list' ∧
      Ranked heap (updateEndpointsPriority engine scores heap endpointsMap).1 list list'

/-- All entries have one priority, and are by rating if it is zero. -/
def OnePriority (scores : EndpointStatistic → List SuccessScore) (heap : Heap)
    (list : List EndpointStatistic) : Prop :=
  ∃ p, (∀ e ∈ list, (heap e.object).priority = p) ∧
    (p = 0 → list.Pairwise fun a b =>
      (CallsStatistic.ofScores (scores b)).rating ≤ (CallsStatistic.ofScores (scores a)).rating)

/-! ## Maps -/

/-- The objects of all entries. -/
def objects (endpointsMap : EndpointsToChainMap) : List ℕ :=
  endpointsMap.flatMap fun chain => chain.2.map (·.object)

theorem WellFormed.set {endpointsMap : EndpointsToChainMap} (H : WellFormed endpointsMap)
    {chainId : ChainId} {list list' : List EndpointStatistic}
    (hget : endpointsMap.get chainId = some list) (hperm : list'.Perm list) :
    WellFormed (endpointsMap.set chainId list') := by
  refine ⟨JsMap.nodup_keys_set H.keys, ?_⟩
  have hset := JsMap.flatMap_set_perm (k := chainId) (a := list') H.keys
    fun chain => chain.2.map (·.object)
  rw [hget] at hset
  have hobjects := hset.trans ((hperm.map (·.object)).append_left _)
  exact ((List.perm_append_right_iff _).mp hobjects).nodup_iff.mpr H.objects

theorem objects_pushTo {endpointsMap : EndpointsToChainMap} (hkeys : endpointsMap.keys.Nodup)
    (chainId : ChainId) (e : EndpointStatistic) :
    (objects (endpointsMap.pushTo chainId e)).Perm (objects endpointsMap ++ [e.object]) := by
  have hset := JsMap.flatMap_set_perm (k := chainId)
    (a := (endpointsMap.get chainId).getD [] ++ [e]) hkeys fun chain => chain.2.map (·.object)
  have hold : ((endpointsMap.get chainId).elim [] fun old => old.map (·.object)) =
      ((endpointsMap.get chainId).getD []).map (·.object) := by
    cases endpointsMap.get chainId with
    | none => rfl
    | some old => rfl
  rw [hold, List.map_append] at hset
  have hswap : (objects endpointsMap ++ (((endpointsMap.get chainId).getD []).map (·.object) ++
      [e.object])).Perm (objects endpointsMap ++ [e.object] ++
        ((endpointsMap.get chainId).getD []).map (·.object)) := by
    rw [List.append_assoc]
    exact List.perm_append_comm.append_left _
  exact (List.perm_append_right_iff _).mp (hset.trans hswap)

/-- Entries are created with new references. -/
theorem foldl_addEndpoint_wellFormed (endpoints : List EndpointEntity) (s : State)
    (newEndpointMap : EndpointsToChainMap) (H : WellFormed newEndpointMap)
    (hsize : ∀ object ∈ objects newEndpointMap, object < s.size) :
    WellFormed (endpoints.foldl (fun r endpoint => r.1.addEndpoint r.2 endpoint)
      (s, newEndpointMap)).2 := by
  induction endpoints generalizing s newEndpointMap with
  | nil => exact H
  | cons endpoint endpoints ih =>
    rw [List.foldl_cons]
    have hpush := objects_pushTo H.keys endpoint.chainId ⟨s.size, endpoint.toEndpoint⟩
    apply ih
    · refine ⟨JsMap.nodup_keys_set H.keys, hpush.nodup_iff.mpr ?_⟩
      apply List.nodup_append.mpr
      refine ⟨H.objects, List.nodup_singleton _, ?_⟩
      rintro object hobject _ hnew rfl
      rw [List.mem_singleton.mp hnew] at hobject
      exact lt_irrefl _ (hsize _ hobject)
    · intro object hobject
      rcases List.mem_append.mp (hpush.mem_iff.mp hobject) with hold | hnew
      · exact (hsize object hold).trans (Nat.lt_succ_self _)
      · rw [List.mem_singleton.mp hnew]
        exact Nat.lt_succ_self _

/-- The map that a sync puts in place. -/
theorem wellFormed_syncEndpoints (s : State) (endpoints : List EndpointEntity) :
    WellFormed (s.syncEndpoints endpoints).endpointsMap := by
  have hmap : (s.syncEndpoints endpoints).endpointsMap =
      (endpoints.foldl (fun r endpoint => r.1.addEndpoint r.2 endpoint) (s, [])).2 :=
    Function.update_self ..
  rw [hmap]
  exact foldl_addEndpoint_wellFormed endpoints s [] ⟨List.nodup_nil, List.nodup_nil⟩
    (List.forall_mem_nil _)

/-! ## One chain -/

section
variable {engine : Engine} {scores : EndpointStatistic → List SuccessScore} {heap : Heap}
variable {list : List EndpointStatistic}

theorem foldl_refresh_priority (list : List EndpointStatistic) (heap : Heap) (object : ℕ) :
    (list.foldl (refresh scores) heap object).priority = (heap object).priority := by
  induction list generalizing heap with
  | nil => rfl
  | cons e list ih =>
    rw [List.foldl_cons, ih, refresh, Function.update_apply]
    split
    · next h => rw [h]
    · rfl

theorem foldl_refresh_of_notMem (scores : EndpointStatistic → List SuccessScore)
    {object : ℕ} (list : List EndpointStatistic) (heap : Heap)
    (h : object ∉ list.map (·.object)) :
    list.foldl (refresh scores) heap object = heap object := by
  induction list generalizing heap with
  | nil => rfl
  | cons e list ih =>
    obtain ⟨hne, h⟩ := List.ne_and_not_mem_of_not_mem_cons h
    rw [List.foldl_cons, ih _ h, refresh, Function.update_of_ne hne]

/-- Each entry gets the statistic of its own scores. -/
theorem foldl_refresh_callsStatistic (hnodup : (list.map (·.object)).Nodup) :
    ∀ e ∈ list, (list.foldl (refresh scores) heap e.object).callsStatistic =
      .ofScores (scores e) := by
  induction list generalizing heap with
  | nil => exact fun _ h => by cases h
  | cons e list ih =>
    obtain ⟨hnew, hnodup⟩ := List.nodup_cons.mp hnodup
    intro e' he'
    rw [List.foldl_cons]
    rcases List.mem_cons.mp he' with rfl | he'
    · rw [foldl_refresh_of_notMem _ _ _ hnew, refresh, Function.update_self]
    · exact ih hnodup e' he'

/-- A comparison writes to no other entries. -/
theorem comparePlaces_of_notMem {object : ℕ} (h : object ∉ list.map (·.object)) (heap : Heap)
    (i j : Fin list.length) : (comparePlaces list heap i j).1 object = heap object := by
  have hne : object ≠ (list.get i).object := by
    rintro rfl
    exact h (List.mem_map_of_mem (List.get_mem list i))
  exact Function.update_of_ne hne _ _

theorem updateChain_of_notMem {object : ℕ} (h : object ∉ list.map (·.object)) (heap : Heap) :
    (updateChain engine scores heap list).1 object = heap object := by
  rw [← foldl_refresh_of_notMem scores list heap h]
  apply Comparisons.run_induction (P := fun heap' : Heap =>
    heap' object = list.foldl (refresh scores) heap object)
  · intro heap' i j hheap'
    rw [comparePlaces_of_notMem h, hheap']
  · rfl

theorem updateChain_perm (heap : Heap) : (updateChain engine scores heap list).2.Perm list := by
  have hperm := ((engine.permutes list.length).run (comparePlaces list)
    (list.foldl (refresh scores) heap)).map list.get
  rw [List.map_get_finRange] at hperm
  exact hperm

/-- The key by which entries are sorted that have one priority, which is not zero. -/
def ratingKey (scores : EndpointStatistic → List SuccessScore) (list : List EndpointStatistic)
    (i : Fin list.length) : ℚ :=
  -(CallsStatistic.ofScores (scores (list.get i))).rating

/-- Between entries of one priority, a comparison changes nothing. -/
theorem comparePlaces_eq (hnodup : (list.map (·.object)).Nodup) {p : ℤ}
    (hp : ∀ e ∈ list, (heap e.object).priority = p) (i j : Fin list.length) :
    comparePlaces list (list.foldl (refresh scores) heap) i j =
      (list.foldl (refresh scores) heap,
        if p ≠ 0 then compareKeys (ratingKey scores list) i j else .eq) := by
  have hpriority : ∀ i : Fin list.length,
      (list.foldl (refresh scores) heap (list.get i).object).priority = p := by
    intro i
    rw [foldl_refresh_priority]
    exact hp _ (List.get_mem list i)
  have hrating : ∀ i : Fin list.length,
      (list.foldl (refresh scores) heap (list.get i).object).callsStatistic =
        .ofScores (scores (list.get i)) :=
    fun i => foldl_refresh_callsStatistic hnodup _ (List.get_mem list i)
  have hheap : Function.update (list.foldl (refresh scores) heap) (list.get i).object
      { list.foldl (refresh scores) heap (list.get i).object with
        priority := (list.foldl (refresh scores) heap (list.get j).object).priority } =
      list.foldl (refresh scores) heap := by
    rw [hpriority j, ← hpriority i]
    exact Function.update_eq_self _ _
  rw [comparePlaces, compareEndpointStatistic, hheap, hpriority, hpriority, hrating, hrating]
  by_cases hzero : p = 0
  · rw [if_neg (not_not.mpr hzero), if_neg (not_not.mpr hzero), sub_self]
    rfl
  · rw [if_pos hzero, if_pos hzero]
    simp only [sign, compareKeys, ratingKey, sub_neg, sub_pos, neg_lt_neg_iff]

theorem updateChain_eq (hnodup : (list.map (·.object)).Nodup) {p : ℤ}
    (hp : ∀ e ∈ list, (heap e.object).priority = p) :
    updateChain engine scores heap list =
      (list.foldl (refresh scores) heap, ((engine.sort list.length).order fun i j =>
        if p ≠ 0 then compareKeys (ratingKey scores list) i j else .eq).map list.get) := by
  rw [updateChain, sortEntries, Comparisons.run_of_kept (comparePlaces_eq hnodup hp)]

/-- The list of a chain is ranked where its entries have one priority. -/
theorem OnePriority.ranked (engine : Engine) (hnodup : (list.map (·.object)).Nodup)
    (H : OnePriority scores heap list) :
    Ranked heap (updateChain engine scores heap list).1 list
      (updateChain engine scores heap list).2 := by
  obtain ⟨p, hp, hzero⟩ := H
  refine ⟨updateChain_perm heap, ?_, ?_⟩
  · have hmem : ∀ e ∈ (updateChain engine scores heap list).2, e ∈ list :=
      fun e he => (updateChain_perm heap).mem_iff.mp he
    have hrating : (updateChain engine scores heap list).2.Pairwise fun a b =>
        (CallsStatistic.ofScores (scores b)).rating ≤
          (CallsStatistic.ofScores (scores a)).rating := by
      rw [updateChain_eq hnodup hp]
      by_cases h : p = 0
      · have horder : ((engine.sort list.length).order fun i j => if p ≠ 0 then
            compareKeys (ratingKey scores list) i j else .eq) = List.finRange list.length := by
          simp only [h, ne_eq, not_true_eq_false, if_false]
          exact engine.order_of_eq _
        rw [horder, List.map_get_finRange]
        exact hzero h
      · simp only [ne_eq, h, not_false_eq_true, if_true]
        apply List.pairwise_map.mpr
        apply (engine.sorted list.length (ratingKey scores list)).imp
        intro i j hij
        have hle : ratingKey scores list i ≤ ratingKey scores list j := by
          rcases hij with hlt | ⟨heq, -⟩
          · exact hlt.le
          · exact heq.le
        exact neg_le_neg_iff.mp hle
    apply hrating.imp_of_mem
    intro a b ha hb hab
    right
    rw [updateChain_eq hnodup hp, foldl_refresh_priority, foldl_refresh_priority,
      hp a (hmem a ha), hp b (hmem b hb), foldl_refresh_callsStatistic hnodup a (hmem a ha),
      foldl_refresh_callsStatistic hnodup b (hmem b hb)]
    exact ⟨rfl, hab⟩
  · intro e _
    rw [updateChain_eq hnodup hp, foldl_refresh_priority]

/-- A comparison takes the priority of the second entry over to the first one. -/
theorem spreads_priority (list : List EndpointStatistic) (p : ℤ) :
    Spreads (fun (heap : Heap) i => (heap (list.get i).object).priority = p)
      (comparePlaces list) := by
  have hwritten : ∀ (heap : Heap) (i j : Fin list.length),
      ((comparePlaces list heap i j).1 (list.get i).object).priority =
        (heap (list.get j).object).priority := by
    intro heap i j
    change (Function.update heap _ _ _).priority = _
    rw [Function.update_self]
  constructor
  · intro heap i j k hj hk
    rcases eq_or_ne (list.get k).object (list.get i).object with h | h
    · rw [h, hwritten, hj]
    · change (Function.update heap _ _ _).priority = p
      rw [Function.update_of_ne h, hk]
  · intro heap i j hj
    rw [hwritten, hj]

/-- An insertion gives all entries the priority of the first one. -/
theorem OnePriority.of_ranked (hnodup : (list.map (·.object)).Nodup)
    (H : Ranked heap (updateChain insertion scores heap list).1 list
      (updateChain insertion scores heap list).2) : OnePriority scores heap list := by
  cases list with
  | nil => exact ⟨0, List.forall_mem_nil _, fun _ => List.Pairwise.nil⟩
  | cons first rest =>
    have hp : ∀ e ∈ first :: rest, (heap e.object).priority = (heap first.object).priority := by
      intro e he
      obtain ⟨i, rfl⟩ := List.get_of_mem he
      rw [← H.priority _ he]
      apply (spreads_priority (first :: rest) _).run_insertion
      exact foldl_refresh_priority _ _ _
    refine ⟨_, hp, fun hzero => ?_⟩
    have hsorted := H.sorted
    have hlist : (updateChain insertion scores heap (first :: rest)).2 = first :: rest := by
      rw [updateChain_eq hnodup hp]
      simp only [hzero, ne_eq, not_true_eq_false, if_false]
      rw [insertion.order_of_eq, List.map_get_finRange]
    rw [hlist] at hsorted
    apply hsorted.imp_of_mem
    intro a b ha hb hab
    rw [updateChain_eq hnodup hp, foldl_refresh_priority, foldl_refresh_priority, hp a ha, hp b hb,
      foldl_refresh_callsStatistic hnodup a ha, foldl_refresh_callsStatistic hnodup b hb] at hab
    exact (hab.resolve_left (lt_irrefl _)).2

end

/-! ## All chains -/

section
variable {engine : Engine} {scores : EndpointStatistic → List SuccessScore} {heap : Heap}
variable {endpointsMap : EndpointsToChainMap}

/-- Entries on two chains are different. -/
theorem WellFormed.disjoint (H : WellFormed endpointsMap) {chainId chainId' : ChainId}
    {list list' : List EndpointStatistic} (h : endpointsMap.get chainId = some list)
    (h' : endpointsMap.get chainId' = some list') (hne : chainId ≠ chainId') :
    ∀ e ∈ list, e.object ∉ list'.map (·.object) := by
  have hpairwise := (List.nodup_flatMap.mp H.objects).2
  have hsymm : Std.Symm (Function.onFun List.Disjoint
      fun chain : ChainId × List EndpointStatistic => chain.2.map (·.object)) :=
    ⟨fun _ _ h => h.symm⟩
  have hdisjoint := hpairwise.forall (JsMap.mem_of_get h) (JsMap.mem_of_get h')
    fun heq => hne (Prod.mk.inj heq).1
  exact fun e he hmem => hdisjoint (List.mem_map_of_mem he) hmem

theorem WellFormed.nodup (H : WellFormed endpointsMap) {chainId : ChainId}
    {list : List EndpointStatistic} (h : endpointsMap.get chainId = some list) :
    (list.map (·.object)).Nodup :=
  (List.nodup_flatMap.mp H.objects).1 _ (JsMap.mem_of_get h)

/-- What is well formed remains so. -/
theorem WellFormed.update (engine : Engine) (scores : EndpointStatistic → List SuccessScore)
    (heap : Heap) (H : WellFormed endpointsMap) :
    WellFormed (updateEndpointsPriority engine scores heap endpointsMap).2 := by
  apply List.foldlRecOn (motive := fun s : Heap × EndpointsToChainMap => WellFormed s.2)
  · exact H
  · intro s hs key _
    rw [updateKey]
    cases hget : s.2.get key with
    | none => exact hs
    | some list => exact hs.set hget (updateChain_perm _)

/-- A chain that is not among some is left as it is by their updates. -/
theorem foldl_updateKey_of_notMem (engine : Engine)
    (scores : EndpointStatistic → List SuccessScore) (H : WellFormed endpointsMap)
    {chainId : ChainId} {list : List EndpointStatistic} (hget : endpointsMap.get chainId = some list)
    {keys : List ChainId} (hnew : chainId ∉ keys) (s : Heap × EndpointsToChainMap)
    (hs : ∀ key ∈ keys, s.2.get key = endpointsMap.get key) (hkeys : keys.Nodup) :
    (keys.foldl (updateKey engine scores) s).2.get chainId = s.2.get chainId ∧
      ∀ e ∈ list, (keys.foldl (updateKey engine scores) s).1 e.object = s.1 e.object := by
  induction keys generalizing s with
  | nil => exact ⟨rfl, fun _ _ => rfl⟩
  | cons key keys ih =>
    obtain ⟨hne, hnew⟩ := List.ne_and_not_mem_of_not_mem_cons hnew
    obtain ⟨hkey, hkeys⟩ := List.nodup_cons.mp hkeys
    obtain ⟨hfirst, hs⟩ := List.forall_mem_cons.mp hs
    have hstep : (updateKey engine scores s key).2.get chainId = s.2.get chainId ∧
        (∀ e ∈ list, (updateKey engine scores s key).1 e.object = s.1 e.object) ∧
        ∀ key' ∈ keys, (updateKey engine scores s key).2.get key' = endpointsMap.get key' := by
      rw [updateKey]
      cases hlist : s.2.get key with
      | none => exact ⟨rfl, fun _ _ => rfl, hs⟩
      | some list' =>
        refine ⟨JsMap.get_set.trans (if_neg hne.symm), fun e he => ?_, fun key' hkey' => ?_⟩
        · exact updateChain_of_notMem (H.disjoint hget (hfirst ▸ hlist) hne e he) _
        · have hne' : key ≠ key' := by
            rintro rfl
            exact hkey hkey'
          exact (JsMap.get_set.trans (if_neg hne')).trans (hs key' hkey')
    obtain ⟨hget', hheap', hs'⟩ := hstep
    obtain ⟨hget'', hheap''⟩ := ih hnew _ hs' hkeys
    exact ⟨hget''.trans hget', fun e he => (hheap'' e he).trans (hheap' e he)⟩

/-- Each chain is updated as it would be alone. -/
theorem updateEndpointsPriority_get (engine : Engine)
    (scores : EndpointStatistic → List SuccessScore) (heap : Heap) (H : WellFormed endpointsMap)
    {chainId : ChainId} {list : List EndpointStatistic}
    (hget : endpointsMap.get chainId = some list) :
    ∃ heap' : Heap, (∀ e ∈ list, heap' e.object = heap e.object) ∧
      (updateEndpointsPriority engine scores heap endpointsMap).2.get chainId =
        some (updateChain engine scores heap' list).2 ∧
      ∀ e ∈ list, (updateEndpointsPriority engine scores heap endpointsMap).1 e.object =
        (updateChain engine scores heap' list).1 e.object := by
  obtain ⟨before, after, hkeys⟩ := List.append_of_mem (JsMap.mem_keys.mpr ⟨list, hget⟩)
  have hnodup := H.keys
  rw [hkeys] at hnodup
  obtain ⟨hbefore, hafter, hdisjoint⟩ := List.nodup_append.mp hnodup
  obtain ⟨hnewAfter, hafter⟩ := List.nodup_cons.mp hafter
  have hnewBefore : chainId ∉ before := fun h => hdisjoint _ h _ List.mem_cons_self rfl
  -- the chains before it
  let s := before.foldl (updateKey engine scores) (heap, endpointsMap)
  obtain ⟨hs, hheap⟩ := foldl_updateKey_of_notMem engine scores H hget hnewBefore
    (heap, endpointsMap) (fun _ _ => rfl) hbefore
  have hrest : ∀ key ∈ after, s.2.get key = endpointsMap.get key := by
    intro key hkey
    have hmem : key ∈ endpointsMap.keys := by
      rw [hkeys]
      exact List.mem_append_right _ (List.mem_cons_of_mem _ hkey)
    obtain ⟨list', hlist'⟩ := JsMap.mem_keys.mp hmem
    have hnew : key ∉ before :=
      fun h => hdisjoint _ h _ (List.mem_cons_of_mem _ hkey) rfl
    exact (foldl_updateKey_of_notMem engine scores H hlist' hnew (heap, endpointsMap) (fun _ _ => rfl)
      hbefore).1
  -- the chain itself
  have hself : updateKey engine scores s chainId =
      ((updateChain engine scores s.1 list).1,
        s.2.set chainId (updateChain engine scores s.1 list).2) := by
    rw [updateKey, hs, hget]
  have hrest' : ∀ key ∈ after, (updateKey engine scores s chainId).2.get key =
      endpointsMap.get key := by
    intro key hkey
    have hne : chainId ≠ key := by
      rintro rfl
      exact hnewAfter hkey
    rw [hself]
    exact (JsMap.get_set.trans (if_neg hne)).trans (hrest key hkey)
  -- the chains after it
  obtain ⟨hget', hheap'⟩ := foldl_updateKey_of_notMem engine scores H hget hnewAfter
    (updateKey engine scores s chainId) hrest' hafter
  refine ⟨s.1, hheap, ?_, ?_⟩
  · rw [updateEndpointsPriority, hkeys, List.foldl_append, List.foldl_cons, hget', hself]
    exact JsMap.get_set_self
  · intro e he
    rw [updateEndpointsPriority, hkeys, List.foldl_append, List.foldl_cons, hheap' e he, hself]

/-- Only the entries of a list matter. -/
theorem OnePriority.congr {heap' : Heap} {list : List EndpointStatistic}
    (h : ∀ e ∈ list, heap' e.object = heap e.object) :
    OnePriority scores heap' list ↔ OnePriority scores heap list := by
  apply exists_congr
  intro p
  apply and_congr_left
  intro _
  apply forall₂_congr
  intro e he
  rw [h e he]

theorem Ranked.congr {heap₁ heap₂ heap₁' heap₂' : Heap} {list list' : List EndpointStatistic}
    (h : ∀ e ∈ list, heap₁ e.object = heap₂ e.object)
    (h' : ∀ e ∈ list, heap₁' e.object = heap₂' e.object) (H : Ranked heap₁ heap₁' list list') :
    Ranked heap₂ heap₂' list list' := by
  refine ⟨H.perm, ?_, fun e he => ?_⟩
  · apply H.sorted.imp_of_mem
    intro a b ha hb hab
    rw [h' a (H.perm.mem_iff.mp ha), h' b (H.perm.mem_iff.mp hb)] at hab
    exact hab
  · rw [← h e he, ← h' e he]
    exact H.priority e he

end

/-- What an insertion ranks has one priority on each chain. -/
theorem onePriority_of_ranks {scores : EndpointStatistic → List SuccessScore} {heap : Heap}
    {endpointsMap : EndpointsToChainMap} (H : WellFormed endpointsMap)
    (hranks : Ranks insertion scores heap endpointsMap) {chainId : ChainId}
    {list : List EndpointStatistic} (hget : endpointsMap.get chainId = some list) :
    OnePriority scores heap list := by
  obtain ⟨heap', hheap', hlist, hafter⟩ :=
    updateEndpointsPriority_get insertion scores heap H hget
  obtain ⟨list', hlist', hranked⟩ := hranks chainId list hget
  cases hlist.symm.trans hlist'
  apply (OnePriority.congr hheap').mp
  apply OnePriority.of_ranked (H.nodup hget)
  exact hranked.congr (fun e he => (hheap' e he).symm) hafter

/-- With every sort all lists are ranked exactly when on each chain all entries have one priority,
and are by rating already if it is zero. -/
theorem ranks_iff (scores : EndpointStatistic → List SuccessScore) (heap : Heap)
    (endpointsMap : EndpointsToChainMap) (H : WellFormed endpointsMap) :
    (∀ engine, Ranks engine scores heap endpointsMap) ↔
      ∀ chainId list, endpointsMap.get chainId = some list → OnePriority scores heap list := by
  constructor
  · exact fun hranks _ _ hget => onePriority_of_ranks H (hranks insertion) hget
  · intro hone engine chainId list hget
    obtain ⟨heap', hheap', hlist, hafter⟩ :=
      updateEndpointsPriority_get engine scores heap H hget
    refine ⟨_, hlist, ?_⟩
    have hranked :=
      ((OnePriority.congr hheap').mpr (hone chainId list hget)).ranked engine (H.nodup hget)
    exact hranked.congr hheap' fun e he => (hafter e he).symm

/-! ## Two priorities -/

/-- An endpoint of the first chain. -/
def entry (object : ℕ) : EndpointStatistic := ⟨object, ⟨object, "", 1, true⟩⟩

/-- The second of two entries has the higher priority. -/
def unequalHeap : Heap := fun object => ⟨.ofScores [], object⟩

def twoEntries : EndpointsToChainMap := [(1, [entry 1, entry 2])]

theorem wellFormed_twoEntries : WellFormed twoEntries := ⟨by decide, by decide⟩

/-- Two entries without scores, of one priority. -/
theorem equal_ranked : Ranks insertion (fun _ => []) (fun _ => ⟨.ofScores [], 1⟩) twoEntries := by
  apply (ranks_iff _ _ _ wellFormed_twoEntries).mpr
  intro chainId list _
  exact ⟨1, fun _ _ => rfl, fun h => absurd h (by decide)⟩

/-- Of entries of two priorities, one gets that of the other. -/
theorem unequal_unranked : ¬ Ranks insertion (fun _ => []) unequalHeap twoEntries := by
  intro H
  have hget : twoEntries.get 1 = some [entry 1, entry 2] := rfl
  obtain ⟨p, hp, -⟩ := onePriority_of_ranks wellFormed_twoEntries H hget
  have hfirst : 1 = p := hp (entry 1) (by decide)
  have hsecond : 2 = p := hp (entry 2) (by decide)
  omega

end EndpointsMap
end Rpc
end DefiBackend
