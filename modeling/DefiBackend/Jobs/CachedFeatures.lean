import DefiBackend.Jobs.JobsRunner
import DefiBackend.Theory.KeyValue

/-! # Features in the cache

The integration service keeps what the runners of the vault jobs tell
(`JobsService.saveFeatureToCache`), and the adapter of opportunities reads it. Several runners may
be under way: the updates of the cache that their requests have begun take effect or fail in any
order, and entries expire at any time.

* `cached_told`: after a runner that is alone, the reader finds under the key of each job that
  has succeeded its answer, and all else as before;
* `opportunities_told`: whatever the runs, each opportunity of the adapter is made of an item that
  a job of the same chain with this very placeholder has answered. -/

namespace DefiBackend
namespace Jobs
namespace CachedFeatures
open Theory Opportunities JobsRunner

deriving instance DecidableEq for V2Item

variable {ι : Type}

def getCacheKey (features : NotifyPayloadFeatures ι) : String :=
  match features.jobInfo with
  | none => "undefined_undefined_undefined"
  | some jobInfo =>
    toString jobInfo.chain ++ "_" ++ jobInfo.protocolName ++ "_" ++ jobInfo.featureName

def updateCacheFeature (cache : Store String (NotifyPayloadFeatures ι))
    (features : NotifyPayloadFeatures ι) : Store String (NotifyPayloadFeatures ι) :=
  cache.set (getCacheKey features) features

/-- What a runner tells when the chains take these turns; undefined unless all loops end. A runner
that throws tells nothing. -/
def tells (W : Start ι) (turns : List Nat) : Option (List (NotifyPayloadFeatures ι)) :=
  match W.initializeJobs with
  | .error _ => some []
  | .ok jobsToRun => do
    let p ← run (Sequences.step jobEnds) (loops jobsToRun) turns
    if Settled jobsToRun p then some ((dataToNotify jobsToRun p.state).getD []) else none

/-- The cache, with the updates in flight. -/
abbrev Features (ι : Type) :=
  Batches (Store String (NotifyPayloadFeatures ι)) (NotifyPayloadFeatures ι)

/-- A request that does not arrive is one of which all updates fail. -/
inductive Event (ι : Type)
  | update (W : Start ι) (turns : List Nat)
  | saved (i : Nat)
  | failed (i : Nat)
  | expired (key : String)

def step (s : Features ι) : Event ι → Option (Features ι)
  | .update W turns =>
    (tells W turns).map fun features => { s with waiting := s.waiting ++ features }
  | .saved i => s.step updateCacheFeature (.answer i)
  | .failed i =>
    if i < s.waiting.length then some { s with waiting := s.waiting.eraseIdx i } else none
  | .expired key => some { s with state := s.state.erase key }

/-! ## What the runners tell -/

theorem tells_cases {W : Start ι} {turns : List Nat} {features : List (NotifyPayloadFeatures ι)}
    (h : tells W turns = some features) :
    (¬ Succeeds W.initializeJobs ∧ features = []) ∨ features = W.told.map payload := by
  unfold tells at h
  cases hjobs : W.initializeJobs with
  | error err =>
    rw [hjobs] at h
    exact .inl ⟨not_succeeds_error, (Option.some.inj h).symm⟩
  | ok jobsToRun =>
    rw [hjobs] at h
    obtain ⟨p, hrun, h⟩ := Option.bind_eq_some_iff.mp h
    by_cases hsettled : Settled jobsToRun p
    · rw [if_pos hsettled, dataToNotify_eq hjobs hrun hsettled] at h
      exact .inr (Option.some.inj h).symm
    · rw [if_neg hsettled] at h
      cases h

theorem told_eq_some {job : Job ι} {told : JobData × ι} :
    job.told = some told ↔
      ∃ items, job.updateWithChainData = .ok items ∧ (job.jobData, items) = told := by
  rw [Job.told]
  cases job.updateWithChainData with
  | error err => simp [Except.toOption]
  | ok items => simp [Except.toOption]

/-- The answers that are told. -/
theorem mem_told {W : Start ι} {f : NotifyPayloadFeatures ι} : f ∈ W.told.map payload ↔
    ∃ job ∈ W.jobs, ∃ items,
      job.updateWithChainData = .ok items ∧ f = ⟨some job.jobData, items⟩ := by
  simp only [List.mem_map, W.told_perm.mem_iff, List.mem_filterMap, told_eq_some]
  constructor
  · rintro ⟨_, ⟨job, hjob, items, hitems, rfl⟩, rfl⟩
    exact ⟨job, hjob, items, hitems, rfl⟩
  · rintro ⟨job, hjob, items, hitems, rfl⟩
    exact ⟨_, ⟨job, hjob, items, hitems, rfl⟩, rfl⟩

/-! ## A runner that is alone -/

/-- The updates of one request, in any order. -/
theorem run_saved {s s' : Features ι} {saves : List Nat}
    (h : run step s (saves.map .saved) = some s') (hdone : s'.waiting = []) :
    ∃ order : List (NotifyPayloadFeatures ι),
      order.Perm s.waiting ∧ s'.state = order.foldl updateCacheFeature s.state := by
  rw [run_map] at h
  exact Batches.answers_order ((run_map ..).trans h) hdone

/-- After the runner has told, and all updates have taken effect, the entry of a job that has
succeeded is its answer; an entry of which no such job has the placeholder is what it was. -/
theorem cached_told {W : Start ι} {cache : Store String (NotifyPayloadFeatures ι)}
    {turns saves : List Nat} {s : Features ι} (hjobs : Succeeds W.initializeJobs)
    (hrun : run step (Batches.init [] cache) (.update W turns :: saves.map .saved) = some s)
    (hdone : s.waiting = []) :
    (∀ job ∈ W.jobs, ∀ items, job.updateWithChainData = .ok items →
      s.state (V2Run.cacheKey job.chain job.protocol job.feature) =
        some ⟨some job.jobData, items⟩) ∧
    ∀ key, (∀ job ∈ W.jobs, Succeeds job.updateWithChainData → job.placeholder ≠ key) →
      s.state key = cache key := by
  obtain ⟨s₁, hstep, hsaves⟩ := Option.bind_eq_some_iff.mp hrun
  obtain ⟨features, htells, rfl⟩ := Option.map_eq_some_iff.mp hstep
  obtain ⟨hnot, -⟩ | rfl := tells_cases htells
  · exact absurd hjobs hnot
  obtain ⟨order, hperm, hstate⟩ := run_saved hsaves hdone
  have hstate' : s.state = cache.mset (order.map fun f => (getCacheKey f, f)) :=
    hstate.trans (cache.mset_map (fun f => (getCacheKey f, f)) order).symm
  have hentry : ∀ e ∈ order.map (fun f => (getCacheKey f, f)), ∃ job ∈ W.jobs, ∃ items,
      job.updateWithChainData = .ok items ∧ e = (job.placeholder, ⟨some job.jobData, items⟩) := by
    intro e he
    obtain ⟨f, hf, rfl⟩ := List.mem_map.mp he
    obtain ⟨job, hjob, items, hitems, rfl⟩ := mem_told.mp (hperm.mem_iff.mp hf)
    exact ⟨job, hjob, items, hitems, rfl⟩
  rw [hstate']
  refine ⟨fun job hjob items hitems => ?_, fun key hkey => ?_⟩
  · have hwritten : (job.placeholder, ⟨some job.jobData, items⟩) ∈
        order.map fun f => (getCacheKey f, f) :=
      List.mem_map_of_mem (hperm.mem_iff.mpr (mem_told.mpr ⟨job, hjob, items, hitems, rfl⟩))
    obtain ⟨v, hv, hmem⟩ := cache.mset_of_mem hwritten
    -- no other job of the runner has the placeholder
    obtain ⟨job', hjob', items', hitems', heq⟩ := hentry _ hmem
    obtain ⟨hkey, rfl⟩ := Prod.mk.inj heq
    obtain rfl : job = job' := List.inj_on_of_nodup_map Start.nodup_jobs hjob hjob' hkey
    obtain rfl : items = items' := Except.ok.inj (hitems.symm.trans hitems')
    exact hv
  · refine Store.mset_of_notMem fun e he heq => ?_
    obtain ⟨job, hjob, items, hitems, rfl⟩ := hentry e he
    exact hkey job hjob ⟨items, hitems⟩ heq

/-- A runner with two jobs, of which one fails. -/
def orca : Start (List (Except String (V2Item Unit))) where
  activeJobs := [⟨12, "orca", "pools", .ok (), .ok [.ok ⟨some 3, ()⟩, .ok ⟨none, ()⟩]⟩,
    ⟨12, "orca", "staking", .ok (), .error "rpc"⟩]
  requests := .ok ()
  protocols := []
  dbJobs := [⟨12, "orca", "pools", true⟩, ⟨12, "orca", "staking", true⟩]
  chainIds := ["12"]

def orcaEvents : List (Event (List (Except String (V2Item Unit)))) :=
  [.update orca [12, 12], .saved 0]

theorem cached_told_orca : ∃ s, run step (Batches.init [] Store.empty) orcaEvents = some s ∧
    s.state "12_orca_pools" =
      some ⟨some ⟨12, "orca", "pools"⟩, [.ok ⟨some 3, ()⟩, .ok ⟨none, ()⟩]⟩ := by
  have hsome : (run step (Batches.init [] Store.empty) orcaEvents).isSome := by decide +kernel
  obtain ⟨s, hrun⟩ := Option.isSome_iff_exists.mp hsome
  have hdone : (run step (Batches.init [] Store.empty) orcaEvents).map (·.waiting.isEmpty) =
      some true := by decide +kernel
  rw [hrun] at hdone
  have hok : orca.initializeJobs.isOk := by decide +kernel
  have hjobs : Succeeds orca.initializeJobs := by
    cases h : orca.initializeJobs with
    | error err =>
      rw [h] at hok
      cases hok
    | ok jobsToRun => exact succeeds_ok
  have htold := (@cached_told _ orca Store.empty [12, 12] [0] s hjobs hrun
    (List.isEmpty_iff.mp (Option.some.inj hdone))).1
  exact ⟨s, hrun, htold ⟨12, "orca", "pools", .ok (), .ok [.ok ⟨some 3, ()⟩, .ok ⟨none, ()⟩]⟩
    (by decide +kernel) _ rfl⟩

/-! ## Runners at once -/

/-- A job of a runner of the run has answered these items. -/
def Answered (events : List (Event ι)) (job : Job ι) (items : ι) : Prop :=
  ∃ W turns, Event.update W turns ∈ events ∧ job ∈ W.jobs ∧ job.updateWithChainData = .ok items

theorem Answered.mono {events events' : List (Event ι)} {job : Job ι} {items : ι}
    (h : Answered events job items) (hsub : events ⊆ events') : Answered events' job items := by
  obtain ⟨W, turns, hmem, hjob⟩ := h
  exact ⟨W, turns, hsub hmem, hjob⟩

/-- What is in flight is an answer of a job, and what is kept is one under its placeholder. -/
structure Inv (events : List (Event ι)) (s : Features ι) : Prop where
  waiting : ∀ f ∈ s.waiting, ∃ job items, Answered events job items ∧ f = ⟨some job.jobData, items⟩
  cached : s.state key = some f →
    ∃ job items, Answered events job items ∧ f = ⟨some job.jobData, items⟩ ∧ key = job.placeholder

theorem Inv.mono {events events' : List (Event ι)} {s : Features ι} (H : Inv events s)
    (hsub : events ⊆ events') : Inv events' s where
  waiting f hf := by
    obtain ⟨job, items, hanswered, hf⟩ := H.waiting f hf
    exact ⟨job, items, hanswered.mono hsub, hf⟩
  cached hf := by
    obtain ⟨job, items, hanswered, hf⟩ := H.cached hf
    exact ⟨job, items, hanswered.mono hsub, hf⟩

theorem Inv.init : Inv ([] : List (Event ι)) (Batches.init [] Store.empty) where
  waiting _ h := nomatch h
  cached h := nomatch h

theorem Inv.of_step {events : List (Event ι)} {s s' : Features ι} {e : Event ι} (H : Inv events s)
    (he : e ∈ events) (h : step s e = some s') : Inv events s' := by
  cases e with
  | update W turns =>
    obtain ⟨features, htells, rfl⟩ := Option.map_eq_some_iff.mp h
    refine ⟨fun f hf => ?_, H.cached⟩
    obtain hf | hf := List.mem_append.mp hf
    · exact H.waiting f hf
    · obtain ⟨-, rfl⟩ | rfl := tells_cases htells
      · cases hf
      · obtain ⟨job, hjob, items, hitems, rfl⟩ := mem_told.mp hf
        exact ⟨job, items, ⟨W, turns, he, hjob, hitems⟩, rfl⟩
  | saved i =>
    obtain ⟨f, hf, rfl⟩ := Option.map_eq_some_iff.mp h
    obtain ⟨job, items, hanswered, rfl⟩ := H.waiting f (List.mem_of_getElem? hf)
    refine ⟨fun f' hf' => H.waiting f' (List.mem_of_mem_eraseIdx hf'), fun hkey => ?_⟩
    obtain ⟨rfl, rfl⟩ | ⟨-, hkey⟩ := Store.of_set hkey
    · exact ⟨job, items, hanswered, rfl, rfl⟩
    · exact H.cached hkey
  | failed i =>
    obtain ⟨-, h⟩ := Option.ite_none_right_eq_some.mp h
    cases h
    exact ⟨fun f hf => H.waiting f (List.mem_of_mem_eraseIdx hf), H.cached⟩
  | expired key =>
    cases h
    exact ⟨H.waiting, fun hkey => H.cached (Store.of_erase hkey)⟩

theorem Inv.of_run {past events : List (Event ι)} {s s' : Features ι} (H : Inv past s)
    (h : run step s events = some s') : Inv (past ++ events) s' := by
  induction events generalizing past s with
  | nil =>
    cases h
    rwa [List.append_nil]
  | cons e events ih =>
    obtain ⟨s₁, hstep, hrest⟩ := Option.bind_eq_some_iff.mp h
    have hnext : Inv (past ++ [e]) s₁ :=
      (H.mono (List.subset_append_left ..)).of_step
        (List.mem_append_right _ (List.mem_singleton_self e)) hstep
    rw [List.append_cons]
    exact ih hnext hrest

/-! ## The reader -/

variable {δ : Type}

def getCachedData {α : Type} (s : Features (List α)) (cacheKey : String) : List α :=
  ((s.state cacheKey).map (·.items)).getD []

/-- Each item is read in some state of the run, not all in one. -/
def Reads (A : V2Run δ) (events : List (Event (List (Except String (V2Item δ))))) : Prop :=
  ∀ key items, A.cache key = .ok items → ∃ before s, before <+: events ∧
    run step (Batches.init [] Store.empty) before = some s ∧ items = getCachedData s key

/-- The item of which an opportunity is made. -/
theorem exists_item {A : V2Run δ} {included : List String} {protocol : V2Protocol}
    {os : List (OpportunityCreate δ)} (h : A.protocolOpportunities included protocol = .ok os)
    {o : OpportunityCreate δ} (ho : o ∈ os) :
    ∃ features ∈ protocol.features, ∃ feature ∈ features.2, ∃ cachedItems item,
      A.cache (V2Run.cacheKey features.1 protocol.name feature) = .ok cachedItems ∧
        .ok item ∈ cachedItems ∧
        V2Run.opportunity protocol.name features.1 feature item = some o := by
  unfold V2Run.protocolOpportunities at h
  split at h
  · cases h
    cases ho
  · obtain ⟨lists, hlists, h⟩ := bind_eq_ok.mp h
    cases h
    obtain ⟨list, hlist, ho⟩ := List.mem_flatten.mp ho
    obtain ⟨features, hfeatures, h⟩ := (mem_of_mapM_ok hlists).mp hlist
    obtain ⟨lists', hlists', h⟩ := bind_eq_ok.mp h
    cases h
    obtain ⟨list', hlist', ho⟩ := List.mem_flatten.mp ho
    obtain ⟨feature, hfeature, h⟩ := (mem_of_mapM_ok hlists').mp hlist'
    obtain ⟨cachedItems, hcached, h⟩ := bind_eq_ok.mp h
    obtain ⟨items, hitems, h⟩ := bind_eq_ok.mp h
    cases h
    obtain ⟨item, hitem, ho⟩ := List.mem_filterMap.mp ho
    obtain ⟨cachedItem, hcachedItem, rfl⟩ := (mem_of_mapM_ok hitems).mp hitem
    exact ⟨features, hfeatures, feature, hfeature, cachedItems, item, hcached, hcachedItem, ho⟩

theorem opportunity_eq_some {name : String} {chain : Nat} {feature : String} {item : V2Item δ}
    {o : OpportunityCreate δ} (h : V2Run.opportunity name chain feature item = some o) :
    o.farm = name ∧ o.sourceId = V2Run.cacheKey chain name feature ∧ o.chainId = chain ∧
      item = ⟨some o.apr, o.rest⟩ := by
  obtain ⟨apr, rest⟩ := item
  cases apr with
  | none => cases h
  | some apr =>
    obtain ⟨-, h⟩ := Option.ite_none_left_eq_some.mp h
    cases h
    exact ⟨rfl, rfl, rfl, rfl⟩

/-- What the reader finds under a key is the answer of a job with this placeholder. -/
theorem Reads.answered {A : V2Run δ} {events : List (Event (List (Except String (V2Item δ))))}
    (H : Reads A events) {key : String} {items : List (Except String (V2Item δ))}
    (h : A.cache key = .ok items) (hne : items ≠ []) :
    ∃ job, Answered events job items ∧ key = job.placeholder := by
  obtain ⟨before, s, hprefix, hrun, rfl⟩ := H key items h
  have hinv : Inv ([] ++ before) s := Inv.init.of_run hrun
  cases hkey : s.state key with
  | none =>
    refine absurd ?_ hne
    rw [getCachedData, hkey]
    rfl
  | some f =>
    obtain ⟨job, items, hanswered, rfl, hplaceholder⟩ := hinv.cached hkey
    refine ⟨job, ?_, hplaceholder⟩
    rw [getCachedData, hkey]
    exact hanswered.mono hprefix.subset

/-- A name without underscores, as that of each feature is. -/
def Plain (name : String) : Prop := '_' ∉ name.toList

/-- A placeholder determines its chain; where features are plain, all its parts. -/
theorem cacheKey_eq_placeholder {chain : Nat} {name feature : String} {job : Job ι}
    (h : V2Run.cacheKey chain name feature = job.placeholder) :
    chain = job.chain ∧ (Plain feature → Plain job.feature → name = job.protocol) := by
  rw [← placeholder_eq, Job.placeholder, placeholder_eq_keyField, placeholder_eq_keyField] at h
  obtain ⟨hchain, hrest⟩ := keyField_inj.mp h
  refine ⟨hchain, fun hf hf' => ?_⟩
  have hchars : name.toList ++ '_' :: feature.toList =
      job.protocol.toList ++ '_' :: job.feature.toList := by
    simpa using congrArg String.toList hrest
  exact String.toList_inj.mp (append_last_sep_inj hf hf' hchars).1

/-- Each opportunity is made of an item that a job with its placeholder has answered. -/
theorem opportunities_told {A : V2Run δ} {events : List (Event (List (Except String (V2Item δ))))}
    {results : AdapterResults δ} (hreads : Reads A events) (hload : A.loadData = .ok results) :
    ∀ o ∈ results.opportunities, ∃ job items, Answered events job items ∧
      .ok ⟨some o.apr, o.rest⟩ ∈ items ∧ o.sourceId = job.placeholder ∧ o.chainId = job.chain ∧
      (Plain job.feature → (∀ protocol ∈ A.protocols, ∀ features ∈ protocol.features,
        ∀ feature ∈ features.2, Plain feature) → o.farm = job.protocol) := by
  intro o ho
  obtain ⟨⟨⟩, -, hload⟩ := bind_eq_ok.mp hload
  obtain ⟨lists, hlists, hload⟩ := bind_eq_ok.mp hload
  cases hload
  obtain ⟨list, hlist, ho⟩ := List.mem_flatten.mp ho
  obtain ⟨protocol, hprotocol, hos⟩ := (mem_of_mapM_ok hlists).mp hlist
  obtain ⟨features, hfeatures, feature, hfeature, items, item, hcached, hitem, ho⟩ :=
    exists_item hos ho
  obtain ⟨job, hanswered, hkey⟩ := hreads.answered hcached (List.ne_nil_of_mem hitem)
  obtain ⟨hfarm, hsource, hchain, rfl⟩ := opportunity_eq_some ho
  obtain ⟨hjobChain, hjobProtocol⟩ := cacheKey_eq_placeholder hkey
  refine ⟨job, items, hanswered, hitem, hsource.trans hkey, hchain.trans hjobChain, ?_⟩
  intro hplain hplains
  have hname := hjobProtocol (hplains protocol hprotocol features hfeatures feature hfeature) hplain
  exact hfarm.trans hname

theorem orcaEvents_run :
    (run step (Batches.init [] Store.empty) orcaEvents).isSome := by decide +kernel

/-- The adapter, which reads when the answer is kept. -/
def orcaReader : V2Run Unit where
  requests := .ok ()
  protocols := [⟨"orca", [(12, ["pools", "staking"])]⟩]
  known := []
  cache key :=
    .ok (getCachedData ((run step (Batches.init [] Store.empty) orcaEvents).get orcaEvents_run) key)

theorem opportunities_told_orca : ∃ results, orcaReader.loadData = .ok results ∧
    results.opportunities = [⟨"orca", "internal_v2", "12_orca_pools", 12, 3, ()⟩] ∧
    ∃ job items, Answered orcaEvents job items ∧ .ok ⟨some 3, ()⟩ ∈ items ∧
      job.placeholder = "12_orca_pools" ∧ job.chain = 12 := by
  have hreads : Reads orcaReader orcaEvents := by
    intro key items h
    cases h
    exact ⟨orcaEvents, _, List.prefix_refl _, (Option.some_get orcaEvents_run).symm, rfl⟩
  have hos : orcaReader.loadData.toOption.map (·.opportunities) =
      some [⟨"orca", "internal_v2", "12_orca_pools", 12, 3, ()⟩] := by decide +kernel
  cases hload : orcaReader.loadData with
  | error err =>
    rw [hload] at hos
    cases hos
  | ok results =>
    rw [hload] at hos
    have hos' := Option.some.inj hos
    obtain ⟨job, items, hanswered, hitem, hplaceholder, hchain, -⟩ :=
      opportunities_told hreads hload _ (hos' ▸ List.mem_singleton_self _)
    exact ⟨results, rfl, hos', job, items, hanswered, hitem, hplaceholder.symm, hchain.symm⟩

end CachedFeatures
end Jobs
end DefiBackend
