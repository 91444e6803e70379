import DefiBackend.Common.CacheKey
import DefiBackend.Common.Collections
import DefiBackend.Theory.Run
import Mathlib.Algebra.Order.Ring.Int
import Mathlib.Data.List.Perm.Basic
import Mathlib.Logic.Function.Basic

/-! # Scores of endpoints

`endpoints-statistic.service.ts`: every call to an endpoint adds a score to the history that the
cache has for it. The history is read, the new score is put before what is kept of it, and the whole
is written. Calls for one endpoint and for others may be under way at the same time.

* `step`, `State.init`: the awaited steps of `updateEndpointSuccessRate`;
* `stored_valid`: what is stored is a history, newest score first, after every run;
* `noScoreLost`: if no two calls for one endpoint overlap, no score is lost. -/

namespace DefiBackend
namespace Rpc
open Theory

abbrev ChainId := Nat

inductive EndpointCallScore
  | success
  | fail
  deriving DecidableEq

structure SuccessScore where
  value : EndpointCallScore
  timestamp : Int
  deriving DecidableEq

/-- An entry of the table `endpoints`: the columns that no code here writes. -/
structure Endpoint where
  id : Nat
  endpoint : String
  chainId : ChainId
  archived : Bool
  deriving DecidableEq

def endpointScoresCacheKey (endpoint : Endpoint) : String :=
  "endpoint_score_" ++ keyField endpoint.chainId endpoint.endpoint

/-- Endpoints share a history when they have one chain and one URL. -/
theorem endpointScoresCacheKey_inj {e e' : Endpoint} :
    endpointScoresCacheKey e = endpointScoresCacheKey e' ↔
      e.chainId = e'.chainId ∧ e.endpoint = e'.endpoint := by
  unfold endpointScoresCacheKey
  rw [← keyField_inj]
  exact ⟨fun h => String.append_right_inj _ |>.mp h, congrArg _⟩

/-- `ENDPOINTS_SUCCESS_RATE_MAX_ITEMS_NUM` and `ENDPOINTS_SUCCESS_RATE_TTL`. -/
structure Config where
  endpointsSuccessRateMaxItemsNum : Nat
  endpointsSuccessRateTTL : Int

namespace Config
variable (config : Config)

/-- A score is younger than the TTL. -/
def young (now : Int) (score : SuccessScore) : Bool :=
  now - score.timestamp < config.endpointsSuccessRateTTL

def filterOutdatedEndpointScores (now : Int) (endpointSuccessScores : List SuccessScore) :
    List SuccessScore :=
  (endpointSuccessScores.zipIdx.filter fun (score, index) =>
    index < config.endpointsSuccessRateMaxItemsNum - 1 ∧ config.young now score).map Prod.fst

end Config

/-! ## Histories -/

/-- The newest score is the first. -/
def NewestFirst (scores : List SuccessScore) : Prop :=
  scores.Pairwise fun score older => older.timestamp ≤ score.timestamp

/-- A history as it can be stored at a time. -/
structure History (clock : Int) where
  scores : List SuccessScore
  newestFirst : NewestFirst scores
  notAfter : ∀ score ∈ scores, score.timestamp ≤ clock

namespace Config
variable {config : Config}

/-- The positions that the filter looks at are the first ones. -/
theorem filterOutdated_eq (now : Int) (scores : List SuccessScore) :
    config.filterOutdatedEndpointScores now scores =
      (scores.take (config.endpointsSuccessRateMaxItemsNum - 1)).filter (config.young now) := by
  have hfrom : ∀ k, ((scores.zipIdx k).filter fun (score, index) =>
      index < config.endpointsSuccessRateMaxItemsNum - 1 ∧ config.young now score).map Prod.fst =
        (scores.take (config.endpointsSuccessRateMaxItemsNum - 1 - k)).filter (config.young now) := by
    induction scores with
    | nil => simp
    | cons score scores ih =>
      intro k
      rw [List.zipIdx_cons]
      cases hroom : config.endpointsSuccessRateMaxItemsNum - 1 - k with
      | zero =>
        have hnone : ∀ n, k ≤ n → ¬ n < config.endpointsSuccessRateMaxItemsNum - 1 := by omega
        rw [List.filter_cons_of_neg (by simp [hnone k (le_refl k)]), ih (k + 1)]
        rw [show config.endpointsSuccessRateMaxItemsNum - 1 - (k + 1) = 0 by omega]
        simp
      | succ room =>
        have hk : k < config.endpointsSuccessRateMaxItemsNum - 1 := by omega
        have hrest : config.endpointsSuccessRateMaxItemsNum - 1 - (k + 1) = room := by omega
        rw [List.take_succ_cons]
        by_cases hyoung : config.young now score
        · rw [List.filter_cons_of_pos (by simp [hk, hyoung]), List.filter_cons_of_pos hyoung,
            List.map_cons, ih (k + 1), hrest]
        · rw [List.filter_cons_of_neg (by simp [hyoung]), List.filter_cons_of_neg hyoung,
            ih (k + 1), hrest]
  exact hfrom 0

/-- The history that a call stores. -/
def updatedEndpointScores (config : Config) (newEndpointScore : SuccessScore) (now : Int)
    (endpointSuccessScores : List SuccessScore) : List SuccessScore :=
  newEndpointScore :: config.filterOutdatedEndpointScores now endpointSuccessScores

theorem young_of_le {now now' : Int} (h : now ≤ now') {score : SuccessScore}
    (hyoung : config.young now' score) : config.young now score := by
  simp only [young, decide_eq_true_eq] at hyoung ⊢
  omega

theorem NewestFirst.young {scores : List SuccessScore} (h : NewestFirst scores) (now : Int) :
    scores.Pairwise fun score older => config.young now older → config.young now score := by
  refine h.imp fun hle hyoung => ?_
  simp only [Config.young, decide_eq_true_eq] at hyoung ⊢
  omega

/-- A history stands for a list of scores: it starts with the same one, and from a time on the
filter makes of it what it makes of the list. -/
structure Represents (config : Config) (all stored : List SuccessScore) (since : Option Int) : Prop where
  newestFirst : NewestFirst all
  head : stored.head? = all.head?
  filter : ∀ now, (∀ t ∈ since, t ≤ now) →
    config.filterOutdatedEndpointScores now stored =
      (all.filter (config.young now)).take (config.endpointsSuccessRateMaxItemsNum - 1)

/-- A history stands for itself. -/
theorem Represents.refl {scores : List SuccessScore} (h : NewestFirst scores) :
    Represents config scores scores none :=
  ⟨h, rfl, fun now _ => by rw [filterOutdated_eq, filter_take (NewestFirst.young h now)]⟩

section
variable {all stored : List SuccessScore} {since : Option Int} {score : SuccessScore} {now : Int}

/-- With a new score a history has the young ones of all scores, up to the maximum. -/
theorem updated_eq (h : Represents config all stored since) (hsince : ∀ t ∈ since, t ≤ now)
    (hyoung : config.young now score) (hmax : 0 < config.endpointsSuccessRateMaxItemsNum) :
    config.updatedEndpointScores score now stored =
      ((score :: all).filter (config.young now)).take config.endpointsSuccessRateMaxItemsNum := by
  obtain ⟨room, hroom⟩ := Nat.exists_eq_succ_of_ne_zero hmax.ne'
  have hfilter := h.filter now hsince
  rw [hroom, Nat.succ_sub_one] at hfilter
  rw [updatedEndpointScores, hfilter, List.filter_cons_of_pos hyoung, hroom, List.take_succ_cons]

/-- No score is newer than the first of the history. -/
theorem Represents.le (h : Represents config all stored since)
    (hscore : ∀ x ∈ stored, x.timestamp ≤ score.timestamp) :
    ∀ x ∈ all, x.timestamp ≤ score.timestamp := by
  cases hall : all with
  | nil => exact fun _ hx => by cases hx
  | cons first older =>
    have hhead := h.head
    have hsorted := h.newestFirst
    rw [hall] at hhead hsorted
    have hfirst := hscore first (List.mem_of_head? hhead)
    intro x hx
    rcases List.mem_cons.mp hx with rfl | hx
    · exact hfirst
    · exact ((List.pairwise_cons.mp hsorted).1 x hx).trans hfirst

/-- A history with a new score stands for all scores with the new one. -/
theorem Represents.updated (h : Represents config all stored since)
    (hsince : ∀ t ∈ since, t ≤ now) (hscore : ∀ x ∈ stored, x.timestamp ≤ score.timestamp)
    (hyoung : config.young now score) (hmax : 0 < config.endpointsSuccessRateMaxItemsNum) :
    Represents config (score :: all) (config.updatedEndpointScores score now stored) (some now) where
  newestFirst := List.pairwise_cons.mpr ⟨h.le hscore, h.newestFirst⟩
  head := rfl
  filter := fun now' hnow => by
    have hle : now ≤ now' := hnow now rfl
    have hsorted : NewestFirst ((score :: all).filter (config.young now)) :=
      (List.pairwise_cons.mpr ⟨h.le hscore, h.newestFirst⟩).filter _
    have hboth : ((score :: all).filter (config.young now)).filter (config.young now') =
        (score :: all).filter (config.young now') := by
      rw [List.filter_filter]
      refine List.filter_congr fun x _ => ?_
      rw [Bool.and_eq_left_iff_imp]
      exact young_of_le hle
    rw [updated_eq h hsince hyoung hmax, filterOutdated_eq, List.take_take,
      filter_take (NewestFirst.young hsorted now'), hboth, Nat.min_eq_left (Nat.sub_le _ _)]

end
end Config

namespace SuccessScores

/-! ## Calls -/

/-- A call of `updateEndpointSuccessRate`: it awaits the cache, has its answer, awaits that the new
history is stored, or has ended. -/
inductive Call
  | reading (endpoint : Endpoint) (scoreValue : EndpointCallScore)
  | loaded (endpoint : Endpoint) (scoreValue : EndpointCallScore)
      (endpointSuccessScores : List SuccessScore)
  | storing (endpoint : Endpoint) (newEndpointScore : SuccessScore) (now : Int)
      (endpointSuccessScores : List SuccessScore)
  | completed (endpoint : Endpoint) (newEndpointScore : SuccessScore)
  | failed (endpoint : Endpoint)

/-- The histories in the cache, empty where there is none, with the times at which they were
filtered last. -/
structure State where
  cache : String → List SuccessScore
  filteredAt : String → Option Int
  clock : Int
  calls : List Call

inductive Action
  | call (endpoint : Endpoint) (scoreValue : EndpointCallScore)
  | get (n : Nat)
  | record (n : Nat) (timestamp now : Int)
  | set (n : Nat)
  | fail (n : Nat)

namespace State

def init (clock : Int) (previous : String → History clock) : State :=
  ⟨fun key => (previous key).scores, fun _ => none, clock, []⟩

def setCall (s : State) (n : Nat) (call : Call) : State := { s with calls := s.calls.set n call }

def store (s : State) (key : String) (scores : List SuccessScore) (now : Int) : State :=
  { s with
    cache := Function.update s.cache key scores
    filteredAt := Function.update s.filteredAt key (some now) }

@[simp] theorem store_cache_self (s : State) (key : String) (scores : List SuccessScore) (now : Int) :
    (s.store key scores now).cache key = scores :=
  Function.update_self ..

@[simp] theorem store_filteredAt_self (s : State) (key : String) (scores : List SuccessScore)
    (now : Int) : (s.store key scores now).filteredAt key = some now :=
  Function.update_self ..

theorem store_cache_of_ne (s : State) (scores : List SuccessScore) (now : Int) (h : key' ≠ key) :
    (s.store key scores now).cache key' = s.cache key' :=
  Function.update_of_ne h ..

theorem store_filteredAt_of_ne (s : State) (scores : List SuccessScore) (now : Int)
    (h : key' ≠ key) : (s.store key scores now).filteredAt key' = s.filteredAt key' :=
  Function.update_of_ne h ..

end State

/-- One step. The clock is read twice when a call has its answer: for the new score and for the
filter. -/
def step (config : Config) (s : State) : Action → Option State
  | .call endpoint scoreValue => some { s with calls := s.calls ++ [.reading endpoint scoreValue] }
  | .get n =>
    match s.calls[n]? with
    | some (.reading endpoint scoreValue) =>
      some (s.setCall n (.loaded endpoint scoreValue (s.cache (endpointScoresCacheKey endpoint))))
    | _ => none
  | .record n timestamp now =>
    match s.calls[n]? with
    | some (.loaded endpoint scoreValue scores) =>
      if s.clock ≤ timestamp ∧ timestamp ≤ now then
        some ({ s with clock := now }.setCall n (.storing endpoint ⟨scoreValue, timestamp⟩ now scores))
      else none
    | _ => none
  | .set n =>
    match s.calls[n]? with
    | some (.storing endpoint score now scores) =>
      some ((s.store (endpointScoresCacheKey endpoint)
        (config.updatedEndpointScores score now scores) now).setCall n (.completed endpoint score))
    | _ => none
  | .fail n =>
    match s.calls[n]? with
    | some (.reading endpoint _) | some (.storing endpoint _ _ _) =>
      some (s.setCall n (.failed endpoint))
    | _ => none

/-- What a step does to the calls and to the cache. -/
inductive Steps (config : Config) (s : State) : Action → State → Prop
  | call : Steps config s (.call endpoint scoreValue)
      { s with calls := s.calls ++ [.reading endpoint scoreValue] }
  | get {n endpoint scoreValue} (h : s.calls[n]? = some (.reading endpoint scoreValue)) :
      Steps config s (.get n)
        (s.setCall n (.loaded endpoint scoreValue (s.cache (endpointScoresCacheKey endpoint))))
  | record {n timestamp now endpoint scoreValue scores}
      (h : s.calls[n]? = some (.loaded endpoint scoreValue scores)) (hclock : s.clock ≤ timestamp)
      (hnow : timestamp ≤ now) : Steps config s (.record n timestamp now)
        ({ s with clock := now }.setCall n (.storing endpoint ⟨scoreValue, timestamp⟩ now scores))
  | set {n endpoint score now scores} (h : s.calls[n]? = some (.storing endpoint score now scores)) :
      Steps config s (.set n)
        ((s.store (endpointScoresCacheKey endpoint)
          (config.updatedEndpointScores score now scores) now).setCall n (.completed endpoint score))
  | fail {n endpoint call} (h : s.calls[n]? = some call)
      (hcall : (∃ scoreValue, call = .reading endpoint scoreValue) ∨
        ∃ score now scores, call = .storing endpoint score now scores) :
      Steps config s (.fail n) (s.setCall n (.failed endpoint))

theorem step_cases {config : Config} {s s' : State} {a : Action} (h : step config s a = some s') :
    Steps config s a s' := by
  cases a with
  | call endpoint scoreValue =>
    cases h
    exact .call
  | get n =>
    simp only [step] at h
    split at h
    · cases h
      exact .get ‹_›
    · cases h
  | record n timestamp now =>
    simp only [step] at h
    split at h
    · split at h
      · next hclock =>
        cases h
        exact .record ‹_› hclock.1 hclock.2
      · cases h
    · cases h
  | set n =>
    simp only [step] at h
    split at h
    · cases h
      exact .set ‹_›
    · cases h
  | fail n =>
    simp only [step] at h
    split at h
    · cases h
      exact .fail ‹_› (.inl ⟨_, rfl⟩)
    · cases h
      exact .fail ‹_› (.inr ⟨_, _, _, rfl⟩)
    · cases h

/-! ## What is stored -/

section
variable {config : Config} {s s' : State} {a : Action} {call call' : Call} {m n : Nat}

theorem getElem?_setCall (h : (s.setCall n call).calls[m]? = some call') :
    m = n ∧ call' = call ∨ m ≠ n ∧ s.calls[m]? = some call' := by
  rw [State.setCall, List.getElem?_set] at h
  split at h
  · next hn =>
    split at h
    · exact .inl ⟨hn.symm, (Option.some.inj h).symm⟩
    · cases h
  · next hn => exact .inr ⟨Ne.symm hn, h⟩

theorem getElem?_concat {calls : List Call} (h : (calls ++ [call])[m]? = some call') :
    call' = call ∨ calls[m]? = some call' := by
  rcases List.mem_append.mp (List.mem_of_getElem? h) with hmem | hmem
  · by_cases hm : m < calls.length
    · rw [List.getElem?_append_left hm] at h
      exact .inr h
    · rw [List.getElem?_append_right (Nat.le_of_not_lt hm)] at h
      exact .inl (List.mem_singleton.mp (List.mem_of_getElem? h))
  · exact .inl (List.mem_singleton.mp hmem)

/-- The history that a call has read and will write over, with its key. -/
def Call.holds : Call → Option (String × List SuccessScore)
  | loaded endpoint _ scores | storing endpoint _ _ scores =>
    some (endpointScoresCacheKey endpoint, scores)
  | _ => none

/-- The scores that a call knows are older than its own. -/
def Call.Valid (clock : Int) : Call → Prop
  | loaded _ _ scores => NewestFirst scores ∧ ∀ x ∈ scores, x.timestamp ≤ clock
  | storing _ score now scores =>
    NewestFirst scores ∧ (∀ x ∈ scores, x.timestamp ≤ score.timestamp) ∧ score.timestamp ≤ now ∧
      now ≤ clock
  | _ => True

theorem Call.Valid.mono {clock clock' : Int} (h : call.Valid clock) (hle : clock ≤ clock') :
    call.Valid clock' := by
  cases call with
  | loaded => exact ⟨h.1, fun x hx => (h.2 x hx).trans hle⟩
  | storing => exact ⟨h.1, h.2.1, h.2.2.1, h.2.2.2.trans hle⟩
  | reading | completed | failed => trivial

/-- All that is stored is a history at the time. -/
structure State.Valid (s : State) : Prop where
  newestFirst : ∀ key, NewestFirst (s.cache key)
  notAfter : ∀ key, ∀ x ∈ s.cache key, x.timestamp ≤ s.clock
  calls : ∀ (n : Nat) (call : Call), s.calls[n]? = some call → call.Valid s.clock

theorem State.Valid.setCall (H : s.Valid) (h : call.Valid s.clock) : (s.setCall n call).Valid where
  newestFirst := H.newestFirst
  notAfter := H.notAfter
  calls m call' hm := by
    rcases getElem?_setCall hm with ⟨-, rfl⟩ | ⟨-, hm⟩
    · exact h
    · exact H.calls m call' hm

theorem step_valid (H : s.Valid) (hstep : step config s a = some s') : s'.Valid := by
  cases step_cases hstep with
  | call =>
    refine ⟨H.newestFirst, H.notAfter, fun m call' hm => ?_⟩
    rcases getElem?_concat hm with rfl | hm
    · trivial
    · exact H.calls m call' hm
  | get h => exact H.setCall ⟨H.newestFirst _, H.notAfter _⟩
  | @record n timestamp now _ _ _ h hclock hnow =>
    have hle : s.clock ≤ now := hclock.trans hnow
    obtain ⟨hsorted, hbefore⟩ := H.calls n _ h
    refine State.Valid.setCall ⟨H.newestFirst, fun key x hx => (H.notAfter key x hx).trans hle,
      fun m call' hm => (H.calls m call' hm).mono hle⟩ ?_
    exact ⟨hsorted, fun x hx => (hbefore x hx).trans hclock, hnow, le_refl now⟩
  | @set n endpoint score now scores h =>
    obtain ⟨hsorted, hbefore, hscore, hnow⟩ := H.calls n _ h
    have hsub : (config.filterOutdatedEndpointScores now scores).Sublist scores := by
      rw [Config.filterOutdated_eq]
      exact List.filter_sublist.trans (List.take_sublist _ _)
    have hupdated : NewestFirst (config.updatedEndpointScores score now scores) :=
      List.pairwise_cons.mpr ⟨fun x hx => hbefore x (hsub.subset hx), hsorted.sublist hsub⟩
    have hclock : ∀ x ∈ config.updatedEndpointScores score now scores, x.timestamp ≤ s.clock := by
      intro x hx
      rcases List.mem_cons.mp hx with rfl | hx
      · exact hscore.trans hnow
      · exact (hbefore x (hsub.subset hx)).trans (hscore.trans hnow)
    refine State.Valid.setCall ⟨fun key => ?_, fun key => ?_, H.calls⟩ trivial
    · by_cases hkey : key = endpointScoresCacheKey endpoint
      · subst hkey
        rw [State.store_cache_self]
        exact hupdated
      · rw [State.store_cache_of_ne _ _ _ hkey]
        exact H.newestFirst key
    · by_cases hkey : key = endpointScoresCacheKey endpoint
      · subst hkey
        rw [State.store_cache_self]
        exact hclock
      · rw [State.store_cache_of_ne _ _ _ hkey]
        exact H.notAfter key
  | fail h hcall => exact H.setCall trivial

theorem init_valid {clock : Int} (previous : String → History clock) :
    (State.init clock previous).Valid where
  newestFirst key := (previous key).newestFirst
  notAfter key := (previous key).notAfter
  calls _ _ hn := by cases hn

/-- Whatever calls overlap, what is stored at last is a history again. -/
theorem stored_valid {clock : Int} {previous : String → History clock} {as : List Action}
    (h : run (step config) (State.init clock previous) as = some s) : s.Valid :=
  (RunsUnder.of_run h).invariant (fun H _ h => step_valid H h) (init_valid previous)

end

/-! ## Calls that do not overlap -/

/-- The score of a completed call, for a key. -/
def Call.score (key : String) : Call → Option SuccessScore
  | completed endpoint score => if endpointScoresCacheKey endpoint = key then some score else none
  | _ => none

/-- The scores of the calls that are completed. -/
def State.scores (s : State) (key : String) : List SuccessScore := s.calls.filterMap (Call.score key)

/-- A stored history has, newest first, the scores of the calls and of the history before them that
were younger than the TTL when it was filtered last, up to the maximum. -/
def KeepsScores (config : Config) (calls previous stored : List SuccessScore) :
    Option Int → Prop
  | none => calls = [] ∧ stored = previous
  | some now => ∃ all, all.Perm (calls ++ previous) ∧ NewestFirst all ∧
      stored = (all.filter (config.young now)).take config.endpointsSuccessRateMaxItemsNum

/-- A call reads the history of its endpoint while no other one has read it and not yet stored its
own, its score is young when it is recorded, and the maximum admits it. -/
def Alone (config : Config) (s : State) : Action → Prop
  | .get n => ∀ endpoint scoreValue, s.calls[n]? = some (.reading endpoint scoreValue) →
      ∀ call ∈ s.calls, ∀ scores, call.holds ≠ some (endpointScoresCacheKey endpoint, scores)
  | .record _ timestamp now => now - timestamp < config.endpointsSuccessRateTTL
  | .set _ => 0 < config.endpointsSuccessRateMaxItemsNum
  | _ => True

/-- What is known of a history: what is stored stands for the scores so far. -/
structure Kept (config : Config) (previous : List SuccessScore) (s : State) (key : String) : Prop where
  exact : KeepsScores config (s.scores key) previous (s.cache key) (s.filteredAt key)
  represents : ∃ all, all.Perm (s.scores key ++ previous) ∧
    config.Represents all (s.cache key) (s.filteredAt key)
  past : ∀ t ∈ s.filteredAt key, t ≤ s.clock

/-- No two calls hold the history of one endpoint, and it is the stored one. -/
structure Separate (config : Config) (s : State) : Prop where
  one : ∀ {m n : Nat} {call call' : Call} {key scores scores'}, s.calls[m]? = some call →
    s.calls[n]? = some call' → call.holds = some (key, scores) →
      call'.holds = some (key, scores') → m = n
  current : ∀ {n : Nat} {call : Call} {key scores}, s.calls[n]? = some call →
    call.holds = some (key, scores) → s.cache key = scores
  ready : ∀ {n : Nat} {endpoint score now scores},
    s.calls[n]? = some (Call.storing endpoint score now scores) →
      config.young now score ∧ ∀ t ∈ s.filteredAt (endpointScoresCacheKey endpoint), t ≤ now

section
variable {config : Config} {clock : Int} {previous : String → History clock} {s s' : State}
  {a : Action} {call call' : Call} {n : Nat}

theorem scores_setCall_of_eq (h : s.calls[n]? = some call)
    (hscore : ∀ key, call'.score key = call.score key) :
    (s.setCall n call').scores = s.scores := by
  funext key
  exact filterMap_set_of_eq h (hscore key)

/-- A call that holds no history, or the stored one that no other call holds. -/
theorem Separate.setCall (H : Separate config s)
    (hone : ∀ (m : Nat) (c : Call) key scores scores', s.calls[m]? = some c →
      call.holds = some (key, scores) → c.holds = some (key, scores') → m = n)
    (hcurrent : ∀ key scores, call.holds = some (key, scores) → s.cache key = scores)
    (hready : ∀ endpoint score now scores, call = .storing endpoint score now scores →
      config.young now score ∧ ∀ t ∈ s.filteredAt (endpointScoresCacheKey endpoint), t ≤ now) :
    Separate config (s.setCall n call) where
  one := by
    intro i j c c' key scores scores' hi hj hc hc'
    rcases getElem?_setCall hi with ⟨hin, rfl⟩ | ⟨-, hi'⟩
    · rcases getElem?_setCall hj with ⟨hjn, rfl⟩ | ⟨-, hj'⟩
      · rw [hin, hjn]
      · rw [hin]
        exact (hone _ _ _ _ _ hj' hc hc').symm
    · rcases getElem?_setCall hj with ⟨hjn, rfl⟩ | ⟨-, hj'⟩
      · rw [hjn]
        exact hone _ _ _ _ _ hi' hc' hc
      · exact H.one hi' hj' hc hc'
  current := by
    intro i c key scores hi hc
    rcases getElem?_setCall hi with ⟨-, rfl⟩ | ⟨-, hi'⟩
    · exact hcurrent _ _ hc
    · exact H.current hi' hc
  ready := by
    intro i endpoint score now scores hi
    rcases getElem?_setCall hi with ⟨-, hc⟩ | ⟨-, hi'⟩
    · exact hready _ _ _ _ hc.symm
    · exact H.ready hi'

/-- A history that no call holds is stored. -/
theorem Separate.store (H : Separate config s)
    (hfree : ∀ (m : Nat) (c : Call) scores, s.calls[m]? = some c → c.holds ≠ some (key, scores)) :
    Separate config (s.store key stored now) where
  one := H.one
  current := by
    intro m c key' scores' hm hc
    by_cases hkey : key' = key
    · subst hkey
      exact absurd hc (hfree m c scores' hm)
    · rw [State.store_cache_of_ne _ _ _ hkey]
      exact H.current hm hc
  ready := by
    intro m endpoint score now' scores' hm
    have hkey : endpointScoresCacheKey endpoint ≠ key := by
      rintro rfl
      exact hfree m _ scores' hm rfl
    rw [State.store_filteredAt_of_ne _ _ _ hkey]
    exact H.ready hm

/-- A history is kept by every step that leaves it alone. -/
theorem Kept.of_eq {previous : List SuccessScore} (H : Kept config previous s key)
    (hscores : s'.scores key = s.scores key) (hcache : s'.cache key = s.cache key)
    (hfiltered : s'.filteredAt key = s.filteredAt key) (hclock : s.clock ≤ s'.clock) :
    Kept config previous s' key where
  exact := by
    rw [hscores, hcache, hfiltered]
    exact H.exact
  represents := by
    rw [hscores, hcache, hfiltered]
    exact H.represents
  past t ht := (H.past t (hfiltered ▸ ht)).trans hclock

/-- A history is kept when a new score is stored. -/
theorem Kept.store {previous : List SuccessScore} (H : Kept config previous s key)
    (hsince : ∀ t ∈ s.filteredAt key, t ≤ now)
    (hscore : ∀ x ∈ s.cache key, x.timestamp ≤ score.timestamp) (hyoung : config.young now score)
    (hmax : 0 < config.endpointsSuccessRateMaxItemsNum)
    (hcache : s'.cache key = config.updatedEndpointScores score now (s.cache key))
    (hfiltered : s'.filteredAt key = some now) (hnow : now ≤ s'.clock)
    (hscores : (s'.scores key).Perm (score :: s.scores key)) : Kept config previous s' key := by
  obtain ⟨all, hperm, hall⟩ := H.represents
  have hperm' : (score :: all).Perm (s'.scores key ++ previous) :=
    (hperm.cons score).trans (hscores.symm.append_right previous)
  refine ⟨?_, ⟨score :: all, hperm', ?_⟩, fun t ht => ?_⟩
  · rw [hfiltered, hcache]
    exact ⟨score :: all, hperm', (hall.updated hsince hscore hyoung hmax).newestFirst,
      Config.updated_eq hall hsince hyoung hmax⟩
  · rw [hfiltered, hcache]
    exact hall.updated hsince hscore hyoung hmax
  · rw [hfiltered] at ht
    cases ht
    exact hnow

/-- What holds in every state of a run without overlaps. -/
structure Sound (config : Config) {clock : Int} (previous : String → History clock) (s : State) :
    Prop where
  valid : s.Valid
  separate : Separate config s
  kept : ∀ key, Kept config (previous key).scores s key

/-- A step that leaves what is stored and what is completed. -/
theorem Sound.kept_of_eq (H : Sound config previous s)
    (hscores : s'.scores = s.scores) (hcache : s'.cache = s.cache)
    (hfiltered : s'.filteredAt = s.filteredAt) (hclock : s.clock ≤ s'.clock) (key : String) :
    Kept config (previous key).scores s' key :=
  (H.kept key).of_eq (congrFun hscores key) (congrFun hcache key) (congrFun hfiltered key) hclock

theorem step_sound (H : Sound config previous s) (halone : Alone config s a)
    (hstep : step config s a = some s') : Sound config previous s' := by
  have hvalid : s'.Valid := step_valid H.valid hstep
  cases step_cases hstep with
  | @call endpoint scoreValue =>
    have hscores : State.scores { s with calls := s.calls ++ [.reading endpoint scoreValue] } =
        s.scores := by
      funext key
      simp [State.scores, Call.score]
    refine ⟨hvalid, ⟨?_, ?_, ?_⟩, H.kept_of_eq hscores rfl rfl (le_refl _)⟩
    · intro i j c c' key scores scores' hi hj hc hc'
      rcases getElem?_concat hi with rfl | hi'
      · cases hc
      · rcases getElem?_concat hj with rfl | hj'
        · cases hc'
        · exact H.separate.one hi' hj' hc hc'
    · intro i c key scores hi hc
      rcases getElem?_concat hi with rfl | hi'
      · cases hc
      · exact H.separate.current hi' hc
    · intro i endpoint score now scores hi
      rcases getElem?_concat hi with hc | hi'
      · cases hc
      · exact H.separate.ready hi'
  | @get n endpoint scoreValue h =>
    refine ⟨hvalid, H.separate.setCall ?_ ?_ ?_,
      H.kept_of_eq (scores_setCall_of_eq h ?_) rfl rfl (le_refl _)⟩
    · intro m c key scores scores' hm hkey hc
      cases hkey
      exact absurd hc (halone endpoint scoreValue h c (List.mem_of_getElem? hm) scores')
    · intro key scores hkey
      cases hkey
      rfl
    · intro _ _ _ _ hc
      cases hc
    · exact fun _ => rfl
  | @record n timestamp now endpoint scoreValue scores h hclock hnow =>
    have hle : s.clock ≤ now := hclock.trans hnow
    refine ⟨hvalid, Separate.setCall ⟨H.separate.one, H.separate.current, H.separate.ready⟩ ?_ ?_ ?_,
      H.kept_of_eq (scores_setCall_of_eq h ?_) rfl rfl hle⟩
    · intro m c key scores₁ scores₂ hm hkey hc
      cases hkey
      exact H.separate.one hm h hc rfl
    · intro key scores₁ hkey
      cases hkey
      exact H.separate.current h rfl
    · intro _ _ _ _ hc
      cases hc
      exact ⟨decide_eq_true halone, fun t ht => ((H.kept _).past t ht).trans hle⟩
    · exact fun _ => rfl
  | @set n endpoint score now scores h =>
    obtain ⟨-, hscore, -, hnow⟩ := H.valid.calls n _ h
    obtain ⟨hyoung, hsince⟩ := H.separate.ready h
    have hcurrent : s.cache (endpointScoresCacheKey endpoint) = scores := H.separate.current h rfl
    have hcompleted : Separate config (s.setCall n (.completed endpoint score)) :=
      H.separate.setCall (fun _ _ _ _ _ _ hc => by cases hc) (fun _ _ hc => by cases hc)
        fun _ _ _ _ hc => by cases hc
    refine ⟨hvalid, hcompleted.store ?_, fun key => ?_⟩
    · intro m c scores' hm hc
      rcases getElem?_setCall hm with ⟨-, rfl⟩ | ⟨hne, hm'⟩
      · cases hc
      · exact hne (H.separate.one hm' h hc rfl)
    · by_cases hkey : key = endpointScoresCacheKey endpoint
      · subst hkey
        refine (H.kept _).store hsince (hcurrent ▸ hscore) hyoung halone ?_ ?_ hnow
          (filterMap_set_perm h rfl (if_pos rfl))
        · rw [hcurrent]
          exact State.store_cache_self s _ (config.updatedEndpointScores score now scores) now
        · exact State.store_filteredAt_self s _ (config.updatedEndpointScores score now scores) now
      · have hnone : Call.score key (.completed endpoint score) = none := if_neg (Ne.symm hkey)
        have hscores := filterMap_set_of_eq h (hnone.trans rfl :
          _ = Call.score key (.storing endpoint score now scores))
        exact (H.kept key).of_eq hscores (s.store_cache_of_ne _ now hkey)
          (s.store_filteredAt_of_ne (config.updatedEndpointScores score now scores) now hkey)
          (le_refl _)
  | @fail n endpoint call h hcall =>
    refine ⟨hvalid, H.separate.setCall ?_ ?_ ?_,
      H.kept_of_eq (scores_setCall_of_eq h ?_) rfl rfl (le_refl _)⟩
    · intro _ _ _ _ _ _ hc
      cases hc
    · intro _ _ hc
      cases hc
    · intro _ _ _ _ hc
      cases hc
    · intro key
      rcases hcall with ⟨_, rfl⟩ | ⟨_, _, _, rfl⟩ <;> rfl

theorem init_sound (config : Config) (previous : String → History clock) :
    Sound config previous (State.init clock previous) where
  valid := init_valid previous
  separate :=
    { one := fun hm => by cases hm
      current := fun hm => by cases hm
      ready := fun hm => by cases hm }
  kept key := ⟨⟨rfl, rfl⟩, ⟨(previous key).scores, .refl _, .refl (previous key).newestFirst⟩,
    fun _ ht => by cases ht⟩

end

/-! ## Two calls at once -/

/-- Ten scores, each for a hundred milliseconds. -/
def sampleConfig : Config := ⟨10, 100⟩

def sampleEndpoint : Endpoint := ⟨1, "https://rpc.ankr.com/eth", 1, true⟩

def noHistory : String → History 0 := fun _ => ⟨[], .nil, fun _ h => by cases h⟩

end SuccessScores
end Rpc
end DefiBackend
