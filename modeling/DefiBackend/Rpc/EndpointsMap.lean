import DefiBackend.Common.JsMap
import DefiBackend.Rpc.SuccessScores
import DefiBackend.Theory.Run
import Mathlib.Algebra.Order.Field.Rat

/-! # The map of endpoints

`endpoints-statistic.service.ts`: one job replaces the map of the enabled endpoints, another one
orders the list of every chain by what the cache has of its endpoints. Both are started by timers,
and any number of them may be under way.

* `step`, `State.init`: the awaited steps of `syncEndpointsFromDatabase` and
  `updateEndpointsPriority`;
* `exact_of_undisturbed`: the map has the endpoints that were read last, if none of the jobs under
  way is about to visit a chain that has gone, or in the middle of one whose endpoints have
  changed. -/

namespace DefiBackend
namespace Rpc
namespace EndpointsMap
open Theory

/-! ## Data -/

structure CallsStatistic where
  fail : Nat
  success : Nat
  rating : ℚ
  deriving DecidableEq

/-- `new CallsStatistic(scores)`. -/
def CallsStatistic.ofScores (scores : List SuccessScore) : CallsStatistic :=
  let success := scores.countP (·.value = .success)
  let fail := scores.countP (·.value = .fail)
  let total := success + fail
  ⟨fail, success, if total ≤ 5 then 1 else success / total⟩

/-- `EndpointEntity`, as a row of the table. -/
structure EndpointEntity extends Endpoint where
  isEnabled : Bool
  priority : Int

def getEnabled (database : List EndpointEntity) : List EndpointEntity := database.filter (·.isEnabled)

/-- An entry of the map with the endpoint it is for: a reference, under whose number the heap has
what is written to the entry and to its endpoint. -/
structure EndpointStatistic where
  object : Nat
  endpoint : Endpoint
  deriving DecidableEq

structure Fields where
  callsStatistic : CallsStatistic
  priority : Int

abbrev Heap := Nat → Fields

abbrev EndpointsToChainMap := JsMap ChainId (List EndpointStatistic)

/-- `compareEndpointStatistic`. Its condition is an assignment. -/
def compareEndpointStatistic (heap : Heap) (a b : EndpointStatistic) : Heap × ℚ :=
  let heap := Function.update heap a.object { heap a.object with priority := (heap b.object).priority }
  (heap,
    if (heap b.object).priority ≠ 0 then
      (heap b.object).callsStatistic.rating - (heap a.object).callsStatistic.rating
    else ((heap b.object).priority - (heap a.object).priority : Int))

/-! ## Jobs -/

/-- An iterator over the keys of a map. It sees the keys that are added to that map later. -/
structure KeyIterator where
  map : Nat
  position : Nat

/-- A job, by what it awaits: the rows of the database, the next chain, the next entry of a chain
(of those that are left) or the scores of an entry. -/
inductive Task
  | idle
  | reading
  | nextChain (chainIds : KeyIterator) (chainId : Option ChainId)
  | nextEndpoint (chainIds : KeyIterator) (chainId : ChainId)
      (updated rest : List EndpointStatistic)
  | scores (chainIds : KeyIterator) (chainId : ChainId) (updated : List EndpointStatistic)
      (endpointStatistic : EndpointStatistic) (rest : List EndpointStatistic)
  | finished
  | rejected
  | threw

/-- The maps there have been, of which the `current` one is `this.endpointsMap`; and the endpoints
that a sync has read last. -/
structure State where
  heap : Heap
  size : Nat
  maps : Nat → EndpointsToChainMap
  current : Nat
  tasks : Nat → Task
  lastRead : List EndpointEntity

inductive Action
  | sync (task : Nat)
  | update (task : Nat)
  | read (task : Nat) (database : List EndpointEntity)
  | chain (task : Nat)
  | endpoint (task : Nat)
  | scores (task : Nat) (scores : List SuccessScore)
  | sorted (task : Nat) (compared : List (EndpointStatistic × EndpointStatistic))
      (ordered : List EndpointStatistic)
  | reject (task : Nat)

namespace State
variable (s : State)

def endpointsMap : EndpointsToChainMap := s.maps s.current

def setTask (task : Nat) (t : Task) : State := { s with tasks := Function.update s.tasks task t }

/-- `this.endpointsMap.set(chainId, list)`. -/
def write (chainId : ChainId) (list : List EndpointStatistic) : State :=
  { s with maps := Function.update s.maps s.current (s.endpointsMap.set chainId list) }

/-- `chainIds.next()`, and the job that awaits its result. -/
def next (chainIds : KeyIterator) : Task :=
  .nextChain ⟨chainIds.map, chainIds.position + 1⟩ (s.maps chainIds.map).keys[chainIds.position]?

/-- The start of `updateEndpointsPriority`. -/
def updateEndpointsPriority (task : Nat) : State := s.setTask task (s.next ⟨s.current, 0⟩)

/-- The callback of `syncEndpointsFromDatabase`, for an endpoint and the new map. -/
def addEndpoint (newEndpointMap : EndpointsToChainMap) (endpoint : EndpointEntity) :
    State × EndpointsToChainMap :=
  let prevEndpoint := (s.endpointsMap.get endpoint.chainId).bind
    (·.find? (·.endpoint.id = endpoint.id))
  let callsStatistic := match prevEndpoint with
    | some prevEndpoint => (s.heap prevEndpoint.object).callsStatistic
    | none => .ofScores []
  ({ s with
      heap := Function.update s.heap s.size ⟨callsStatistic, endpoint.priority⟩
      size := s.size + 1 },
    newEndpointMap.pushTo endpoint.chainId ⟨s.size, endpoint.toEndpoint⟩)

/-- What `syncEndpointsFromDatabase` does with the rows. -/
def syncEndpoints (endpoints : List EndpointEntity) : State :=
  let (s, newEndpointMap) := endpoints.foldl (fun r endpoint => r.1.addEndpoint r.2 endpoint) (s, [])
  { s with
    maps := Function.update s.maps (s.current + 1) newEndpointMap
    current := s.current + 1
    lastRead := endpoints }

/-- No endpoints have been read, and no job has been started. -/
def init (heap : Heap) : State := ⟨heap, 0, fun _ => [], 0, fun _ => .idle, []⟩

end State

/-- One step. The cache may answer with any scores. Which entries a sort compares, and into which
order it puts them, is left open: the comparison is not an order. -/
def step (s : State) : Action → Option State
  | .sync task =>
    match s.tasks task with
    | .idle => some (s.setTask task .reading)
    | _ => none
  | .update task =>
    match s.tasks task with
    | .idle => some (s.updateEndpointsPriority task)
    | _ => none
  | .read task database =>
    match s.tasks task with
    | .reading => some ((s.syncEndpoints (getEnabled database)).updateEndpointsPriority task)
    | _ => none
  | .chain task =>
    match s.tasks task with
    | .nextChain _ none => some (s.setTask task .finished)
    | .nextChain chainIds (some chainId) =>
      match s.endpointsMap.get chainId with
      | some endpointStatistics =>
        some (s.setTask task (.nextEndpoint chainIds chainId [] endpointStatistics))
      | none => some (s.setTask task .threw)
    | _ => none
  | .endpoint task =>
    match s.tasks task with
    | .nextEndpoint chainIds chainId updated (endpointStatistic :: rest) =>
      some (s.setTask task (.scores chainIds chainId updated endpointStatistic rest))
    | _ => none
  | .scores task scores =>
    match s.tasks task with
    | .scores chainIds chainId updated endpointStatistic rest =>
      let fields := { s.heap endpointStatistic.object with callsStatistic := .ofScores scores }
      some ({ s with heap := Function.update s.heap endpointStatistic.object fields }.setTask task
        (.nextEndpoint chainIds chainId (updated ++ [endpointStatistic]) rest))
    | _ => none
  | .sorted task compared ordered =>
    match s.tasks task with
    | .nextEndpoint chainIds chainId updated [] =>
      if (∀ e ∈ compared, e.1 ∈ updated ∧ e.2 ∈ updated) ∧ ordered.Perm updated then
        let heap := compared.foldl (fun heap e => (compareEndpointStatistic heap e.1 e.2).1) s.heap
        let s := { s with heap }.write chainId ordered
        some (s.setTask task (s.next chainIds))
      else none
    | _ => none
  | .reject task =>
    match s.tasks task with
    | .reading | .scores .. => some (s.setTask task .rejected)
    | _ => none

/-! ## What the map has -/

namespace Task

/-- The chain whose entries a job is about to look up. -/
def pending : Task → List ChainId
  | nextChain _ chainId => chainId.toList
  | _ => []

def iterator : Task → Option KeyIterator
  | nextChain chainIds _ | nextEndpoint chainIds .. | scores chainIds .. => some chainIds
  | _ => none

/-- The chain that a job is in the middle of, with the entries that it will write for it. -/
def held : Task → Option (ChainId × List EndpointStatistic)
  | nextEndpoint _ chainId updated rest => some (chainId, updated ++ rest)
  | scores _ chainId updated endpointStatistic rest =>
    some (chainId, updated ++ endpointStatistic :: rest)
  | _ => none

end Task

namespace State
variable (s : State)

/-- The endpoints of a chain in the map. -/
def endpoints (chainId : ChainId) : List Endpoint :=
  ((s.endpointsMap.get chainId).getD []).map (·.endpoint)

/-- The chains to which an iterator will come. -/
def remaining (chainIds : KeyIterator) : List ChainId :=
  (s.maps chainIds.map).keys.drop chainIds.position

/-- The chains that a job has yet to visit. -/
def toVisit (t : Task) : List ChainId := t.pending ++ (t.iterator.map s.remaining).getD []

end State

/-- The endpoints of a chain among rows. -/
def endpointsOf (rows : List EndpointEntity) (chainId : ChainId) : List Endpoint :=
  (rows.filter (·.chainId = chainId)).map (·.toEndpoint)

/-- No job has thrown, and unless a sync waits for its rows the map has for every chain the
endpoints that were read last. -/
structure Exact (s : State) : Prop where
  noThrow : ∀ task, s.tasks task ≠ .threw
  endpoints : (∀ task, s.tasks task ≠ .reading) →
    ∀ chainId, (s.endpoints chainId).Perm (endpointsOf s.lastRead chainId)

/-- Rows arrive while every other job has still to visit only chains that they have, and holds for
the chain it is in the middle of the endpoints that they have. -/
def Undisturbed (s : State) : Action → Prop
  | .read task database => ∀ other, other ≠ task →
      (∀ chainId ∈ s.toVisit (s.tasks other), ∃ e ∈ getEnabled database, e.chainId = chainId) ∧
        ∀ chainId list, (s.tasks other).held = some (chainId, list) →
          (list.map (·.endpoint)).Perm (endpointsOf (getEnabled database) chainId)
  | _ => True

/-- A job agrees with the map. -/
structure Steady (s : State) (t : Task) : Prop where
  pending : ∀ chainId ∈ t.pending, chainId ∈ s.endpointsMap.keys
  iterator : ∀ chainIds, t.iterator = some chainIds → chainIds.map ≤ s.current ∧
    ∀ chainId ∈ s.remaining chainIds, chainId ∈ s.endpointsMap.keys
  held : ∀ chainId list, t.held = some (chainId, list) →
    (list.map (·.endpoint)).Perm (s.endpoints chainId)
  noThrow : t ≠ .threw

/-- The map has the endpoints that were read last, and all jobs agree with it. -/
structure Inv (s : State) : Prop where
  endpoints : ∀ chainId, (s.endpoints chainId).Perm (endpointsOf s.lastRead chainId)
  steady : ∀ task, Steady s (s.tasks task)

section
variable {s s' : State} {a : Action} {t : Task} {task : Nat} {chainIds : KeyIterator}
  {chainId : ChainId} {list updated rest : List EndpointStatistic}
  {endpointStatistic : EndpointStatistic}

theorem Inv.exact (H : Inv s) : Exact s := ⟨fun task => (H.steady task).noThrow, fun _ => H.endpoints⟩

/-- Nothing but the maps matters. -/
theorem Steady.of_maps (H : Steady s t) (hmaps : s'.maps = s.maps)
    (hcurrent : s'.current = s.current) : Steady s' t := by
  have hmap : s'.endpointsMap = s.endpointsMap := by
    rw [State.endpointsMap, hmaps, hcurrent, ← State.endpointsMap]
  refine ⟨fun c hc => hmap ▸ H.pending c hc, fun it hit => ?_, fun c list hc => ?_, H.noThrow⟩
  · rw [State.remaining, hmaps, hcurrent, hmap]
    exact H.iterator it hit
  · rw [State.endpoints, hmap]
    exact H.held c list hc

theorem Inv.setTask (H : Inv s) (h : Steady s t) : Inv (s.setTask task t) where
  endpoints := H.endpoints
  steady other := by
    rw [State.setTask]
    by_cases hother : other = task
    · subst hother
      simp only [Function.update_self]
      exact h.of_maps rfl rfl
    · simp only [Function.update_of_ne hother]
      exact (H.steady other).of_maps rfl rfl

theorem Steady.of_idle (hpending : t.pending = []) (hiterator : t.iterator = none)
    (hheld : t.held = none) (hthrow : t ≠ .threw) : Steady s t where
  pending := by simp [hpending]
  iterator := by simp [hiterator]
  held := by simp [hheld]
  noThrow := hthrow

/-- The next chain of an iterator is one to which it would come. -/
theorem Steady.next (hmap : chainIds.map ≤ s.current)
    (h : ∀ chainId ∈ s.remaining chainIds, chainId ∈ s.endpointsMap.keys) :
    Steady s (s.next chainIds) where
  pending chainId hc := by
    refine h chainId ?_
    have hkey : (s.maps chainIds.map).keys[chainIds.position]? = some chainId :=
      Option.mem_toList.mp hc
    obtain ⟨hlt, rfl⟩ := List.getElem?_eq_some_iff.mp hkey
    rw [State.remaining, List.drop_eq_getElem_cons hlt]
    exact List.mem_cons_self ..
  iterator chainIds' he := by
    cases he
    refine ⟨hmap, fun chainId hc => h chainId ?_⟩
    exact (List.drop_sublist_drop_left _ (Nat.le_succ _)).subset hc
  held _ _ he := by cases he
  noThrow he := by cases he

theorem endpointsMap_write : (s.write c list).endpointsMap = s.endpointsMap.set c list :=
  Function.update_self ..

theorem keys_write (h : chainId ∈ s.endpointsMap.keys) :
    chainId ∈ (s.write c list).endpointsMap.keys := by
  rw [endpointsMap_write, JsMap.keys_set]
  exact mem_addToSet.mpr (.inl h)

theorem endpoints_write : (s.write c list).endpoints chainId =
    if c = chainId then list.map (·.endpoint) else s.endpoints chainId := by
  rw [State.endpoints, endpointsMap_write, JsMap.get_set]
  split <;> rfl

theorem endpoints_setTask (s : State) (task : Nat) (t : Task) :
    (s.setTask task t).endpoints = s.endpoints := rfl

theorem endpoints_write_self (s : State) (c : ChainId) (list : List EndpointStatistic) :
    (s.write c list).endpoints c = list.map (·.endpoint) := by
  rw [endpoints_write, if_pos rfl]

/-- A list with the endpoints that the chain has is written. -/
theorem endpoints_write_perm (h : (list.map (·.endpoint)).Perm (s.endpoints c)) :
    ((s.write c list).endpoints chainId).Perm (s.endpoints chainId) := by
  rw [endpoints_write]
  split
  · next hc =>
    subst hc
    exact h
  · exact .refl _

theorem remaining_write (h : chainIds.map ≠ s.current) :
    (s.write c list).remaining chainIds = s.remaining chainIds :=
  congrArg (fun m : EndpointsToChainMap => m.keys.drop chainIds.position)
    (Function.update_of_ne h ..)

theorem Steady.write (H : Steady s t) (h : (list.map (·.endpoint)).Perm (s.endpoints c)) :
    Steady (s.write c list) t where
  pending chainId hc := keys_write (H.pending chainId hc)
  iterator chainIds he := by
    obtain ⟨hmap, hremaining⟩ := H.iterator chainIds he
    refine ⟨hmap, fun chainId hc => ?_⟩
    by_cases hcurrent : chainIds.map = s.current
    · -- an iterator of the current map comes to keys of that map only
      rw [State.remaining, hcurrent] at hc
      exact List.mem_of_mem_drop hc
    · rw [remaining_write hcurrent] at hc
      exact keys_write (hremaining chainId hc)
  held chainId list' he := (H.held chainId list' he).trans (endpoints_write_perm h).symm
  noThrow := H.noThrow

theorem Inv.write (H : Inv s) (h : (list.map (·.endpoint)).Perm (s.endpoints c)) :
    Inv (s.write c list) where
  endpoints chainId := (endpoints_write_perm h).trans (H.endpoints chainId)
  steady other := (H.steady other).write h

theorem Steady.setHeap (H : Steady s t) (heap : Heap) : Steady { s with heap } t :=
  H.of_maps rfl rfl

theorem Inv.setHeap (H : Inv s) (heap : Heap) : Inv { s with heap } where
  endpoints := H.endpoints
  steady other := (H.steady other).setHeap heap

/-! ### Rows -/

/-- The new map of a sync has the endpoints of the rows. -/
theorem foldl_addEndpoint (endpoints : List EndpointEntity) (s : State) (m : EndpointsToChainMap) :
    let r := endpoints.foldl (fun r endpoint => r.1.addEndpoint r.2 endpoint) (s, m)
    (r.1.maps = s.maps ∧ r.1.current = s.current ∧ r.1.tasks = s.tasks) ∧
      (∀ chainId, ((r.2.get chainId).getD []).map (·.endpoint) =
        ((m.get chainId).getD []).map (·.endpoint) ++ endpointsOf endpoints chainId) ∧
      ∀ chainId, chainId ∈ r.2.keys ↔ chainId ∈ m.keys ∨ ∃ e ∈ endpoints, e.chainId = chainId := by
  induction endpoints generalizing s m with
  | nil => simp [endpointsOf]
  | cons e endpoints ih =>
    obtain ⟨hstate, hget, hkeys⟩ := ih (s.addEndpoint m e).1 (s.addEndpoint m e).2
    refine ⟨hstate, fun chainId => ?_, fun chainId => ?_⟩
    · rw [List.foldl_cons, hget, State.addEndpoint, JsMap.pushTo, JsMap.get_set]
      by_cases hc : e.chainId = chainId
      · subst hc
        simp [endpointsOf]
      · simp [hc, endpointsOf]
    · rw [List.foldl_cons, hkeys, State.addEndpoint, JsMap.pushTo, JsMap.keys_set, mem_addToSet,
        List.exists_mem_cons_iff, or_assoc, @eq_comm _ chainId]

/-- A job that starts agrees with the map. -/
theorem Steady.start : Steady s (s.next ⟨s.current, 0⟩) :=
  .next (le_refl _) fun _ hc => hc

/-- The rows replace the map. -/
theorem Inv.syncEndpoints (H : Inv s) (hreading : s.tasks task = .reading)
    (h : Undisturbed s (.read task database)) : Inv (s.syncEndpoints (getEnabled database)) := by
  obtain ⟨⟨hmaps, hcurrent, htasks⟩, hget, hkeys⟩ := foldl_addEndpoint (getEnabled database) s []
  have hmap : (s.syncEndpoints (getEnabled database)).endpointsMap =
      ((getEnabled database).foldl (fun r endpoint => r.1.addEndpoint r.2 endpoint) (s, [])).2 :=
    Function.update_self ..
  have hendpoints : ∀ chainId, (s.syncEndpoints (getEnabled database)).endpoints chainId =
      endpointsOf (getEnabled database) chainId := by
    intro chainId
    rw [State.endpoints, hmap, hget]
    rfl
  have hvisit : ∀ chainId, (∃ e ∈ getEnabled database, e.chainId = chainId) →
      chainId ∈ (s.syncEndpoints (getEnabled database)).endpointsMap.keys := by
    intro chainId he
    rw [hmap, hkeys]
    exact .inr he
  have hcurrent' : (s.syncEndpoints (getEnabled database)).current = s.current + 1 :=
    congrArg (· + 1) hcurrent
  have hremaining : ∀ chainIds : KeyIterator, chainIds.map ≤ s.current →
      (s.syncEndpoints (getEnabled database)).remaining chainIds = s.remaining chainIds := by
    intro chainIds hle
    have hne : chainIds.map ≠ ((getEnabled database).foldl
        (fun r endpoint => r.1.addEndpoint r.2 endpoint) (s, [])).1.current + 1 := by
      rw [hcurrent]
      omega
    exact congrArg (fun m : EndpointsToChainMap => m.keys.drop chainIds.position)
      ((Function.update_of_ne hne ..).trans (congrFun hmaps _))
  refine ⟨fun chainId => by rw [hendpoints]; exact .refl _, fun other => ?_⟩
  have htask : (s.syncEndpoints (getEnabled database)).tasks other = s.tasks other :=
    congrFun htasks other
  rw [htask]
  by_cases hother : other = task
  · rw [hother, hreading]
    exact .of_idle rfl rfl rfl Task.noConfusion
  · obtain ⟨hvisits, hheld⟩ := h other hother
    refine ⟨fun c hc => ?_, fun it hit => ?_, fun c list hc => ?_, (H.steady other).noThrow⟩
    · exact hvisit c (hvisits c (List.mem_append_left _ hc))
    · have hle := ((H.steady other).iterator it hit).1
      refine ⟨by omega, fun c hc => hvisit c (hvisits c (List.mem_append_right _ ?_))⟩
      rw [hremaining it hle] at hc
      rw [hit]
      exact hc
    · rw [hendpoints]
      exact hheld c list hc

theorem step_inv (H : Inv s) (hquiet : Undisturbed s a) (hstep : step s a = some s') : Inv s' := by
  cases a with
  | sync task =>
    simp only [step] at hstep
    split at hstep
    · cases hstep
      exact H.setTask (.of_idle rfl rfl rfl Task.noConfusion)
    · cases hstep
  | update task =>
    simp only [step] at hstep
    split at hstep
    · cases hstep
      exact H.setTask .start
    · cases hstep
  | read task database =>
    simp only [step] at hstep
    split at hstep
    · next hreading =>
      cases hstep
      exact (H.syncEndpoints hreading hquiet).setTask .start
    · cases hstep
  | chain task =>
    have hsteady := H.steady task
    simp only [step] at hstep
    split at hstep
    · cases hstep
      exact H.setTask (.of_idle rfl rfl rfl Task.noConfusion)
    · next chainIds chainId htask =>
      rw [htask] at hsteady
      have hkey : chainId ∈ s.endpointsMap.keys :=
        hsteady.pending chainId (List.mem_singleton_self _)
      split at hstep
      · next endpointStatistics hget =>
        cases hstep
        refine H.setTask
          ⟨fun _ hc => (List.not_mem_nil hc).elim, hsteady.iterator, ?_, Task.noConfusion⟩
        rintro _ _ ⟨⟩
        rw [State.endpoints, hget]
        exact .refl _
      · next hget => exact absurd hkey (JsMap.get_eq_none.mp hget)
    · cases hstep
  | endpoint task =>
    have hsteady := H.steady task
    simp only [step] at hstep
    split at hstep
    · next htask =>
      rw [htask] at hsteady
      cases hstep
      exact H.setTask ⟨hsteady.pending, hsteady.iterator, hsteady.held, Task.noConfusion⟩
    · cases hstep
  | scores task scores =>
    have hsteady := H.steady task
    simp only [step] at hstep
    split at hstep
    · next chainIds chainId updated endpointStatistic rest htask =>
      rw [htask] at hsteady
      cases hstep
      have hnext : Steady s
          (.nextEndpoint chainIds chainId (updated ++ [endpointStatistic]) rest) := by
        refine ⟨hsteady.pending, hsteady.iterator, ?_, Task.noConfusion⟩
        rintro _ _ ⟨⟩
        rw [List.append_assoc]
        exact hsteady.held _ _ rfl
      exact (H.setHeap _).setTask (hnext.setHeap _)
    · cases hstep
  | sorted task compared ordered =>
    have hsteady := H.steady task
    simp only [step] at hstep
    split at hstep
    · next chainIds chainId updated htask =>
      rw [htask] at hsteady
      split at hstep
      · next hsorted =>
        cases hstep
        have hheld : (ordered.map (·.endpoint)).Perm (s.endpoints chainId) := by
          refine (hsorted.2.map _).trans ?_
          have := hsteady.held chainId _ rfl
          rwa [List.append_nil] at this
        have hwrite : ∀ heap, Inv ((({ s with heap } : State).write chainId ordered).setTask task
            ((({ s with heap } : State).write chainId ordered).next chainIds)) := by
          intro heap
          obtain ⟨hmap, hremaining⟩ := ((hsteady.setHeap heap).write hheld).iterator chainIds rfl
          exact ((H.setHeap heap).write hheld).setTask (.next hmap hremaining)
        exact hwrite _
      · cases hstep
    · cases hstep
  | reject task =>
    simp only [step] at hstep
    split at hstep
    · cases hstep
      exact H.setTask (.of_idle rfl rfl rfl Task.noConfusion)
    · cases hstep
      exact H.setTask (.of_idle rfl rfl rfl Task.noConfusion)
    · cases hstep

theorem init_inv (heap : Heap) : Inv (State.init heap) where
  endpoints _ := .refl _
  steady _ := .of_idle rfl rfl rfl Task.noConfusion

/-- While no rows arrive that a job under way does not agree with, no job throws and the map has
what was read last. -/
theorem exact_of_undisturbed {heap : Heap} {as : List Action}
    (h : RunsUnder step Undisturbed (State.init heap) as s) : Exact s :=
  (h.invariant step_inv (init_inv heap)).exact

/-- A job throws when it comes to a chain that has gone. -/
theorem throws_of_gone (htask : s.tasks task = .nextChain chainIds (some chainId))
    (hgone : chainId ∉ s.endpointsMap.keys) : ∃ s', step s (.chain task) = some s' ∧ ¬ Exact s' := by
  have hget : s.endpointsMap.get chainId = none := JsMap.get_eq_none.mpr hgone
  refine ⟨s.setTask task .threw, ?_, fun h => h.noThrow task (Function.update_self ..)⟩
  simp only [step, htask, hget]

/-- A job that holds other endpoints than were read last puts them into the map. -/
theorem not_exact_of_stale {compared : List (EndpointStatistic × EndpointStatistic)}
    {ordered : List EndpointStatistic}
    (hstep : step s (.sorted task compared ordered) = some s')
    (hheld : (s.tasks task).held = some (chainId, list))
    (hstale : ¬ (list.map (·.endpoint)).Perm (endpointsOf s.lastRead chainId))
    (hreading : ∀ other, s'.tasks other ≠ .reading) : ¬ Exact s' := by
  intro h
  have hexact := h.endpoints hreading chainId
  simp only [step] at hstep
  split at hstep
  · next htask =>
    split at hstep
    · next hsorted =>
      cases hstep
      rw [htask] at hheld
      cases hheld
      refine hstale ?_
      rw [endpoints_setTask, endpoints_write_self] at hexact
      rw [List.append_nil]
      exact (hsorted.2.map _).symm.trans hexact
    · cases hstep
  · cases hstep

end

/-! ## An endpoint that is disabled -/

def ankr : EndpointEntity := ⟨⟨1, "https://rpc.ankr.com/eth", 1, true⟩, true, 0⟩

def llama : EndpointEntity := ⟨⟨2, "https://eth.llamarpc.com", 1, true⟩, true, 0⟩

def noFields : Heap := fun _ => ⟨.ofScores [], 0⟩

/-- A sync is still ordering a list when the next sync finds one of its endpoints disabled. -/
def disabling : List Action :=
  [.sync 0, .read 0 [ankr, llama], .chain 0, .sync 1,
   .read 1 [ankr, { llama with isEnabled := false }],
   .endpoint 0, .scores 0 [], .endpoint 0, .scores 0 [],
   .sorted 0 [] [⟨0, ankr.toEndpoint⟩, ⟨1, llama.toEndpoint⟩]]

/-- The first sync puts the disabled endpoint back. -/
theorem disabling_not_exact :
    ¬ ∀ s, run step (State.init noFields) disabling = some s → Exact s := by
  intro h
  obtain ⟨s, hs, hreading, hmap, hread⟩ : ∃ s, run step (State.init noFields) disabling = some s ∧
      (∀ task, s.tasks task ≠ .reading) ∧
      s.endpoints 1 = [ankr.toEndpoint, llama.toEndpoint] ∧
      endpointsOf s.lastRead 1 = [ankr.toEndpoint] := by
    refine ⟨_, rfl, fun task => ?_, rfl, rfl⟩
    match task with
    | 0 | 1 | _ + 2 => exact Task.noConfusion
  have hperm := (h s hs).endpoints hreading 1
  rw [hmap, hread] at hperm
  cases hperm.length_eq

/-- The jobs of one sync after another. -/
def inTurn : List Action :=
  [.sync 0, .read 0 [ankr, llama], .chain 0, .endpoint 0, .scores 0 [], .endpoint 0, .scores 0 [],
   .sorted 0 [] [⟨1, llama.toEndpoint⟩, ⟨0, ankr.toEndpoint⟩], .chain 0, .sync 1,
   .read 1 [ankr, { llama with isEnabled := false }]]

theorem inTurn_exact : ∃ s, run step (State.init noFields) inTurn = some s ∧ Exact s := by
  obtain ⟨s, hs⟩ : ∃ s, RunsUnder step Undisturbed (State.init noFields) inTurn s := by
    refine ⟨_, .cons trivial rfl <| .cons ?_ rfl <| .cons trivial rfl <| .cons trivial rfl <|
      .cons trivial rfl <| .cons trivial rfl <| .cons trivial rfl <| .cons trivial rfl <|
      .cons trivial rfl <| .cons trivial rfl <| .cons ?_ rfl .nil⟩
    · intro other hother
      match other with
      | 0 => exact absurd rfl hother
      | _ + 1 => exact ⟨fun _ hc => (List.not_mem_nil hc).elim, fun _ _ hc => nomatch hc⟩
    · intro other hother
      match other with
      | 0 => exact ⟨fun _ hc => (List.not_mem_nil hc).elim, fun _ _ hc => nomatch hc⟩
      | 1 => exact absurd rfl hother
      | _ + 2 => exact ⟨fun _ hc => (List.not_mem_nil hc).elim, fun _ _ hc => nomatch hc⟩
  exact ⟨s, hs.run_eq, exact_of_undisturbed hs⟩

end EndpointsMap
end Rpc
end DefiBackend
