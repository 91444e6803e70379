import DefiBackend.Common.CacheKey
import DefiBackend.Common.JsMap
import DefiBackend.Opportunities.Adapters
import DefiBackend.Theory.Tasks

/-! # The runner of the vault jobs

`lambda_vaults`: `initialize` takes the registered jobs that the integration service and the data
base know, `update` runs them and tells the integration service what they answered. The jobs of a
chain run one after the other, the chains side by side; what the jobs are is noted in a map that
all chains share, what they answer in a list of each chain.

* `initialize_eq`: the jobs that are taken;
* `notifies`: however the chains take turns, each job that succeeds is told with its own answer. -/

namespace DefiBackend
namespace Jobs
namespace JobsRunner
open Theory Opportunities

def concatStrings (args : List String) : String := "_".intercalate args

/-- The placeholder of a job and the name of a row. -/
def placeholder (chain : Nat) (protocol feature : String) : String :=
  concatStrings [toString chain, protocol, feature]

/-- A job, with what its two functions do in this run. -/
structure Job (ι : Type) where
  chain : Nat
  protocol : String
  feature : String
  manageMapping : Except String Unit
  updateWithChainData : Except String ι
  deriving DecidableEq

structure TrackedVault where
  chainId : Nat
  protocol : String
  feature : String
  isEnabled : Bool

variable {ι : Type}

def Job.placeholder (job : Job ι) : String :=
  JobsRunner.placeholder job.chain job.protocol job.feature

def TrackedVault.key (vault : TrackedVault) : String :=
  placeholder vault.chainId vault.protocol vault.feature

/-- The text before the first underscore: `v.split('_')[0]`. -/
def firstPart (v : String) : String := String.ofList (v.toList.takeWhile (· ≠ '_'))

/-- What `initialize` meets: the jobs in the order in which they are registered, the requests that
may throw and what they answer, and the chains of the environment. -/
structure Start (ι : Type) where
  activeJobs : List (Job ι)
  requests : Except String Unit
  protocols : List V2Protocol
  dbJobs : List TrackedVault
  chainIds : List String

namespace Start
variable (W : Start ι)

/-- `JobsRegistry.registry`. -/
def registry : JsMap String (Job ι) :=
  JsMap.ofEntries (W.activeJobs.map fun job => (job.placeholder, job))

def getIntegrationServiceConfiguration : List String :=
  unique <|
    (W.protocols.flatMap fun ip => ip.features.flatMap fun f => f.2.map fun feature =>
      placeholder f.1 ip.name feature) ++
    [placeholder 12 "orca" "staking",
      placeholder 12 "orca" "pools",
      placeholder 22 "minswap" "pools",
      placeholder 22 "sundaeswap" "pools",
      placeholder 22 "wingriders" "pools",
      placeholder 12 "marinade" "pools",
      placeholder 27 "osmosis" "pools",
      placeholder 18 "trisolaris" "pools",
      placeholder 18 "trisolaris" "staking",
      placeholder 19 "anchor" "pools",
      placeholder 19 "anchor" "staking",
      placeholder 19 "astroport" "pools",
      placeholder 19 "astroport" "staking"]

/-- The placeholders of `chainIdsMap`; an empty one is not served. -/
def servesChain (v : String) : Bool := firstPart v ≠ "" ∧ firstPart v ∈ W.chainIds

def jobsPlaceholdersIntersection : List String :=
  W.registry.keys.filter fun v => v ∈ W.getIntegrationServiceConfiguration ∧ W.servesChain v

/-- `TrackedVaultsMap`. -/
def trackedVaultsMap : JsMap String TrackedVault :=
  JsMap.ofEntries (W.dbJobs.map fun tv => (tv.key, tv))

/-- The body of the loop of `initialize`. -/
def take (jobsToRun : JsMap String (Job ι)) (v : String) : Except String (JsMap String (Job ι)) :=
  match W.trackedVaultsMap.get v with
  | none => .ok jobsToRun
  | some existedDbJob =>
    if existedDbJob.isEnabled then
      match W.registry.get v with
      | none => .error "Cannot read properties of undefined"
      | some job => do
        job.manageMapping
        return jobsToRun.set v job
    else .ok jobsToRun

def initializeJobs : Except String (JsMap String (Job ι)) := do
  W.requests
  W.jobsPlaceholdersIntersection.foldlM W.take []

/-! ## The jobs that are taken -/

/-- Known to the integration service, of a chain that is served, and with an enabled row, the last
one of its name. -/
def takes (job : Job ι) : Bool :=
  job.placeholder ∈ W.getIntegrationServiceConfiguration ∧ toString job.chain ∈ W.chainIds ∧
    (W.trackedVaultsMap.get job.placeholder).any (·.isEnabled)

/-- Of the registered jobs, of which the last one with a placeholder counts, those that are
taken. -/
def jobs : List (Job ι) := W.registry.values.filter W.takes

variable {W}

theorem registry_get {e : String × Job ι} (h : e ∈ W.registry) : W.registry.get e.1 = some e.2 :=
  (JsMap.get_eq_some_iff (JsMap.nodup_keys_ofEntries _)).mpr h

theorem placeholder_of_mem {e : String × Job ι} (h : e ∈ W.registry) : e.2.placeholder = e.1 := by
  have hget := registry_get h
  rw [registry, JsMap.get_ofEntries_self] at hget
  exact (JsMap.lastWith_eq_some hget).1

theorem registry_eq : W.registry = W.registry.values.map fun job => (job.placeholder, job) := by
  rw [JsMap.values, List.map_map]
  refine (List.map_id _).symm.trans (List.map_congr_left fun e he => ?_)
  rw [Function.comp_apply, placeholder_of_mem he, id_eq]

/-- No two registered jobs have one placeholder. -/
theorem nodup_placeholders : (W.registry.values.map Job.placeholder).Nodup := by
  have hnodup : W.registry.keys.Nodup := JsMap.nodup_keys_ofEntries _
  rw [registry_eq, JsMap.keys, List.map_map] at hnodup
  exact hnodup

theorem nodup_jobs : (W.jobs.map Job.placeholder).Nodup :=
  nodup_placeholders.sublist (List.filter_sublist.map _)

end Start

/-- The placeholder is the key under which the adapter of opportunities looks. -/
theorem placeholder_eq (chain : Nat) (protocol feature : String) :
    placeholder chain protocol feature = V2Run.cacheKey chain protocol feature := rfl

theorem placeholder_eq_keyField (chain : Nat) (protocol feature : String) :
    placeholder chain protocol feature = keyField chain (protocol ++ ("_" ++ feature)) := by
  rw [placeholder_eq, V2Run.cacheKey, keyField, String.append_assoc, String.append_assoc]

theorem firstPart_placeholder (chain : Nat) (protocol feature : String) :
    firstPart (placeholder chain protocol feature) = toString chain := by
  have hdigits : ∀ c ∈ Nat.toDigits 10 chain, c ≠ '_' := by
    rintro c hc rfl
    exact Nat.underscore_not_in_toDigits hc
  rw [placeholder_eq_keyField, firstPart, keyField_toList,
    List.takeWhile_append_of_pos fun c hc => decide_eq_true (hdigits c hc),
    List.takeWhile_cons_of_neg (by decide), List.append_nil]
  rfl

namespace Start
variable {W : Start ι}

/-- Whether the row of a placeholder is there and enabled. -/
def enabled (W : Start ι) (v : String) : Bool := (W.trackedVaultsMap.get v).any (·.isEnabled)

theorem take_of_mem {e : String × Job ι} (he : e ∈ W.registry) (m : JsMap String (Job ι)) :
    W.take m e.1 =
      if W.enabled e.1 then e.2.manageMapping >>= fun _ => .ok (m.set e.1 e.2) else .ok m := by
  rw [take, enabled]
  cases W.trackedVaultsMap.get e.1 with
  | none => rfl
  | some existedDbJob =>
    rw [registry_get he]
    rfl

/-- The loop of `initialize` over entries of the registry. -/
theorem foldlM_take {entries : JsMap String (Job ι)} (hreg : ∀ e ∈ entries, e ∈ W.registry)
    (m : JsMap String (Job ι)) (hnew : (m.keys ++ entries.keys).Nodup) :
    entries.keys.foldlM W.take m = do
      forM (entries.filter fun e => W.enabled e.1) fun e => e.2.manageMapping
      return m ++ entries.filter fun e => W.enabled e.1 := by
  induction entries generalizing m with
  | nil =>
    rw [List.filter_nil, List.append_nil]
    rfl
  | cons e entries ih =>
    obtain ⟨he, hreg⟩ := List.forall_mem_cons.mp hreg
    have hfresh : e.1 ∉ m.keys := fun hm =>
      (List.nodup_append.mp hnew).2.2 _ hm _ (List.mem_cons_self ..) rfl
    rw [JsMap.keys, List.map_cons, List.foldlM_cons, take_of_mem he, List.filter_cons]
    by_cases hen : W.enabled e.1
    · rw [if_pos hen, if_pos hen, JsMap.set_of_notMem hfresh, List.forM_cons]
      cases e.2.manageMapping with
      | error err => rfl
      | ok u =>
        have hnew' : ((m ++ [e] : JsMap String (Job ι)).keys ++ JsMap.keys entries).Nodup := by
          rw [JsMap.keys, List.map_append, List.append_assoc]
          exact hnew
        rw [ok_bind, ok_bind, ok_bind]
        refine (ih hreg _ hnew').trans ?_
        rw [List.append_assoc]
        rfl
    · rw [if_neg hen, if_neg hen, ok_bind]
      refine ih hreg m (hnew.sublist ?_)
      exact (List.sublist_cons_self ..).append_left _

theorem servesChain_placeholder (job : Job ι) :
    W.servesChain job.placeholder = decide (toString job.chain ∈ W.chainIds) := by
  have hne : toString job.chain ≠ "" := fun h =>
    Nat.toDigits_ne_nil (n := job.chain) (b := 10) (by simpa using congrArg String.toList h)
  rw [servesChain, Job.placeholder, firstPart_placeholder]
  exact decide_eq_decide.mpr (and_iff_right hne)

/-- The registered jobs that pass all the tests of `initialize`, under their placeholders. -/
theorem filter_registry :
    ((W.registry.filter fun e =>
      e.1 ∈ W.getIntegrationServiceConfiguration ∧ W.servesChain e.1).filter fun e =>
        W.enabled e.1) =
      W.jobs.map fun job => (job.placeholder, job) := by
  rw [List.filter_filter, registry_eq, List.filter_map, jobs]
  refine congrArg (List.map _) (List.filter_congr fun job _ => ?_)
  rw [Function.comp_apply, servesChain_placeholder, takes, enabled, Bool.eq_iff_iff]
  simp only [Bool.and_eq_true, decide_eq_true_eq]
  exact and_comm.trans and_assoc

/-- Every job that is taken manages its mapping, one after the other; when one throws, none runs. -/
theorem initialize_eq : W.initializeJobs = do
    W.requests
    forM W.jobs fun job => job.manageMapping
    return W.jobs.map fun job => (job.placeholder, job) := by
  have hkeys : W.jobsPlaceholdersIntersection = JsMap.keys (W.registry.filter fun e =>
      e.1 ∈ W.getIntegrationServiceConfiguration ∧ W.servesChain e.1) := by
    rw [jobsPlaceholdersIntersection, JsMap.keys, JsMap.keys, List.filter_map]
    rfl
  have hnodup : W.registry.keys.Nodup := JsMap.nodup_keys_ofEntries _
  rw [initializeJobs, hkeys, foldlM_take fun e he => List.mem_of_mem_filter he]
  · rw [filter_registry, List.nil_append, List.forM_map]
  · exact hnodup.sublist (List.filter_sublist.map Prod.fst)

end Start

/-! ## `update` -/

/-- What the answer of a job is told with. -/
structure JobData where
  chain : Nat
  protocolName : String
  featureName : String
  deriving DecidableEq

def Job.jobData (job : Job ι) : JobData := ⟨job.chain, job.protocol, job.feature⟩

/-- `NotifyPayloadFeaturesDto`, of which the first three fields are undefined together. -/
structure NotifyPayloadFeatures (ι : Type) where
  jobInfo : Option JobData
  items : ι
  deriving DecidableEq

def sortedJobs (jobsToRun : JsMap String (Job ι)) : JsMap Nat (List (Job ι)) :=
  JsMap.collect (jobsToRun.keys.filterMap fun v =>
    (jobsToRun.get v).map fun job => (job.chain, job))

/-- What the loops of the chains write: the shared map, and the list of each. -/
structure Progress (ι : Type) where
  jobsDataMap : JsMap Nat (List JobData)
  results : Nat → List ι

/-- A job ends in the loop of a chain. What fails, also without a list to note the job in, is
caught. -/
def jobEnds (s : Progress ι) (chain : Nat) (job : Job ι) : Progress ι :=
  match job.updateWithChainData with
  | .error _ => s
  | .ok resultJob =>
    match s.jobsDataMap.get chain with
    | none => s
    | some check => {
      jobsDataMap := s.jobsDataMap.set chain (check ++ [job.jobData])
      results := Function.update s.results chain (s.results chain ++ [resultJob]) }

/-- All loops have begun, and none has a job that has ended. -/
def loops (jobsToRun : JsMap String (Job ι)) : Sequences Nat (Progress ι) (Job ι) where
  todo chain := ((sortedJobs jobsToRun).get chain).getD []
  state := {
    jobsDataMap := JsMap.ofEntries ((sortedJobs jobsToRun).keys.map fun chain => (chain, []))
    results := fun _ => [] }

/-- `Promise.allSettled(promises)` is done. -/
def Settled (jobsToRun : JsMap String (Job ι)) (p : Sequences Nat (Progress ι) (Job ι)) : Prop :=
  ∀ chain ∈ (sortedJobs jobsToRun).keys, p.todo chain = []

instance (jobsToRun : JsMap String (Job ι)) (p : Sequences Nat (Progress ι) (Job ι)) :
    Decidable (Settled jobsToRun p) :=
  inferInstanceAs (Decidable (∀ chain ∈ (sortedJobs jobsToRun).keys, p.todo chain = []))

/-- What is told of a chain; undefined where the code throws. -/
def chainData (s : Progress ι) (chain : Nat) : Option (List (NotifyPayloadFeatures ι)) :=
  match s.results chain with
  | [] => some []
  | results => (s.jobsDataMap.get chain).map fun jobInfo =>
    results.mapIdx fun index items => ⟨jobInfo[index]?, items⟩

def dataToNotify (jobsToRun : JsMap String (Job ι)) (s : Progress ι) :
    Option (List (NotifyPayloadFeatures ι)) :=
  ((sortedJobs jobsToRun).keys.mapM (chainData s)).map List.flatten

/-! ## The loops side by side -/

/-- What is told of a job: what it is, and what it has answered. -/
def Job.told (job : Job ι) : Option (JobData × ι) :=
  job.updateWithChainData.toOption.map fun items => (job.jobData, items)

def payload (told : JobData × ι) : NotifyPayloadFeatures ι := ⟨some told.1, told.2⟩

/-- What the loops have written for a chain. -/
def Progress.chain (s : Progress ι) (chain : Nat) : Option (List JobData) × List ι :=
  (s.jobsDataMap.get chain, s.results chain)

theorem loops_todo (m : JsMap String (Job ι)) (chain : Nat) :
    (loops m).todo chain = ((sortedJobs m).get chain).getD [] := rfl

theorem loops_chain (m : JsMap String (Job ι)) (chain : Nat) : (loops m).state.chain chain =
    (JsMap.get (JsMap.ofEntries ((sortedJobs m).keys.map fun chain => (chain, []))) chain, []) :=
  rfl

/-- What a job does to it. -/
def ends (v : Option (List JobData) × List ι) (job : Job ι) : Option (List JobData) × List ι :=
  match job.updateWithChainData with
  | .error _ => v
  | .ok resultJob =>
    match v.1 with
    | none => v
    | some check => (some (check ++ [job.jobData]), v.2 ++ [resultJob])

/-- No loop touches what another one writes. -/
theorem separate : Sequences.Separate (jobEnds (ι := ι)) Progress.chain (fun _ => ends) where
  own := by
    intro s chain job
    unfold jobEnds ends Progress.chain
    cases job.updateWithChainData with
    | error err => rfl
    | ok resultJob =>
      cases hcheck : s.jobsDataMap.get chain with
      | none => simp [hcheck]
      | some check => simp
  other := by
    intro chain' chain s job hne
    unfold jobEnds Progress.chain
    cases job.updateWithChainData with
    | error err => rfl
    | ok resultJob =>
      cases s.jobsDataMap.get chain with
      | none => rfl
      | some check => simp [JsMap.get_set, hne, Ne.symm hne]

theorem foldl_ends (jobs : List (Job ι)) (told : List (JobData × ι)) :
    jobs.foldl ends (some (told.map Prod.fst), told.map Prod.snd) =
      (some ((told ++ jobs.filterMap Job.told).map Prod.fst),
        (told ++ jobs.filterMap Job.told).map Prod.snd) := by
  induction jobs generalizing told with
  | nil => rw [List.filterMap_nil, List.append_nil, List.foldl_nil]
  | cons job jobs ih =>
    rw [List.foldl_cons, ends]
    cases hjob : job.updateWithChainData with
    | error err =>
      have hnone : job.told = none := by rw [Job.told, hjob]; rfl
      rw [List.filterMap_cons_none hnone]
      exact ih told
    | ok items =>
      have hsome : job.told = some (job.jobData, items) := by rw [Job.told, hjob]; rfl
      rw [List.filterMap_cons_some hsome, List.append_cons, ← ih, List.map_append, List.map_append]
      rfl

/-- The places of the two lists match. -/
theorem mapIdx_told (told : List (JobData × ι)) :
    (told.map Prod.snd).mapIdx (fun index items =>
      (⟨(told.map Prod.fst)[index]?, items⟩ : NotifyPayloadFeatures ι)) = told.map payload := by
  refine List.ext_getElem (by simp) fun i _ hi => ?_
  have hi' : i < told.length := by simpa using hi
  simp [payload, hi']

theorem chainData_eq {s : Progress ι} {chain : Nat} {told : List (JobData × ι)}
    (h : s.chain chain = (some (told.map Prod.fst), told.map Prod.snd)) :
    chainData s chain = some (told.map payload) := by
  obtain ⟨hmap, hresults⟩ := Prod.mk.inj h
  rw [chainData, hresults, hmap, ← mapIdx_told]
  cases told with
  | nil => rfl
  | cons t told => rfl

/-! ## What is told -/

section
variable {jobs : List (Job ι)}

theorem keys_placeholder :
    JsMap.keys (jobs.map fun job => (job.placeholder, job)) = jobs.map Job.placeholder :=
  List.map_map

theorem get_placeholder (hnodup : (jobs.map Job.placeholder).Nodup) (hjob : job ∈ jobs) :
    JsMap.get (jobs.map fun job => (job.placeholder, job)) job.placeholder = some job := by
  refine (JsMap.get_eq_some_iff (keys_placeholder ▸ hnodup)).mpr ?_
  exact List.mem_map_of_mem hjob

/-- The jobs of each chain, in their order. -/
theorem sortedJobs_eq (hnodup : (jobs.map Job.placeholder).Nodup) :
    sortedJobs (jobs.map fun job => (job.placeholder, job)) =
      (unique (jobs.map Job.chain)).map fun chain => (chain, jobs.filter (·.chain = chain)) := by
  have hentries : (jobs.map Job.placeholder).filterMap (fun v =>
      (JsMap.get (jobs.map fun job => (job.placeholder, job)) v).map fun job => (job.chain, job)) =
      jobs.map fun job => (job.chain, job) := by
    rw [List.filterMap_map]
    refine (List.filterMap_congr fun job hjob => ?_).trans (congrFun List.filterMap_eq_map' jobs)
    rw [Function.comp_apply, get_placeholder hnodup hjob, Option.map_some]
  rw [sortedJobs, keys_placeholder, hentries, JsMap.collect_eq, List.map_map]
  refine List.map_congr_left fun chain _ => ?_
  rw [List.filter_map, List.map_map]
  exact congrArg (Prod.mk chain) (List.map_id' _)

/-- When all loops are done, what is told are the answers of the jobs of each chain. -/
theorem told_eq {p : Sequences Nat (Progress ι) (Job ι)} {turns : List Nat}
    (hnodup : (jobs.map Job.placeholder).Nodup)
    (hrun : run (Sequences.step jobEnds) (loops (jobs.map fun job => (job.placeholder, job)))
      turns = some p)
    (hsettled : Settled (jobs.map fun job => (job.placeholder, job)) p) :
    dataToNotify (jobs.map fun job => (job.placeholder, job)) p.state =
      some (((unique (jobs.map Job.chain)).flatMap fun chain =>
        (jobs.filter (·.chain = chain)).filterMap Job.told).map payload) := by
  have hsorted := sortedJobs_eq hnodup
  have hkeys : (sortedJobs (jobs.map fun job => (job.placeholder, job))).keys =
      unique (jobs.map Job.chain) := by
    rw [hsorted, JsMap.keys, List.map_map]
    exact List.map_id' _
  have hchain : ∀ chain ∈ unique (jobs.map Job.chain), chainData p.state chain =
      some (((jobs.filter (·.chain = chain)).filterMap Job.told).map payload) := by
    intro chain hc
    refine chainData_eq ?_
    rw [separate.done_view hrun (hsettled chain (hkeys ▸ hc)), loops_todo, loops_chain, hkeys,
      JsMap.get_ofEntries_graph _ hc, hsorted,
      JsMap.get_graph (fun chain => jobs.filter (·.chain = chain)) hc]
    exact foldl_ends _ []
  rw [dataToNotify, hkeys, mapM_congr hchain, List.flatMap, List.map_flatten, List.map_map]
  exact congrArg (Option.map List.flatten) List.mapM_pure

end

/-- Chain after chain, in the order in which the chains first occur. -/
def Start.told (W : Start ι) : List (JobData × ι) :=
  (unique (W.jobs.map Job.chain)).flatMap fun chain =>
    (W.jobs.filter (·.chain = chain)).filterMap Job.told

theorem Start.told_perm (W : Start ι) : W.told.Perm (W.jobs.filterMap Job.told) := by
  have hperm : ((unique (W.jobs.map Job.chain)).flatMap fun chain =>
      W.jobs.filter (·.chain = chain)).Perm W.jobs :=
    flatMap_filter_perm (nodup_unique _) fun job hjob => mem_unique.mpr (List.mem_map_of_mem hjob)
  rw [told, ← List.filterMap_flatMap]
  exact hperm.filterMap Job.told

section
variable {W : Start ι} {jobsToRun : JsMap String (Job ι)} {turns : List Nat}
  {p : Sequences Nat (Progress ι) (Job ι)}

theorem dataToNotify_eq (hjobs : W.initializeJobs = .ok jobsToRun)
    (hrun : run (Sequences.step jobEnds) (loops jobsToRun) turns = some p)
    (hsettled : Settled jobsToRun p) :
    dataToNotify jobsToRun p.state = some (W.told.map payload) := by
  rw [Start.initialize_eq] at hjobs
  obtain ⟨⟨⟩, -, hrest⟩ := bind_eq_ok.mp hjobs
  obtain ⟨⟨⟩, -, hjobs⟩ := bind_eq_ok.mp hrest
  cases hjobs
  exact told_eq Start.nodup_jobs hrun hsettled

/-- However the chains take turns, each job that succeeds is told once, with its own answer; a job
that fails keeps no other one from being told. -/
theorem notifies (hjobs : W.initializeJobs = .ok jobsToRun)
    (hrun : run (Sequences.step jobEnds) (loops jobsToRun) turns = some p)
    (hsettled : Settled jobsToRun p) :
    dataToNotify jobsToRun p.state = some (W.told.map payload) ∧
      W.told.Perm (W.jobs.filterMap Job.told) :=
  ⟨dataToNotify_eq hjobs hrun hsettled, W.told_perm⟩

end

/-- Jobs of two chains, of which one has no enabled row and one fails. -/
def vaults : Start Nat where
  activeJobs := [⟨1, "curve", "pools", .ok (), .ok 4⟩,
    ⟨1, "curve", "staking", .ok (), .error "rpc"⟩,
    ⟨1, "convex", "staking", .ok (), .ok 5⟩, ⟨12, "orca", "pools", .ok (), .ok 6⟩]
  requests := .ok ()
  protocols := [⟨"curve", [(1, ["pools", "staking"])]⟩, ⟨"convex", [(1, ["staking"])]⟩]
  dbJobs := [⟨1, "curve", "pools", true⟩, ⟨1, "curve", "staking", true⟩,
    ⟨1, "convex", "staking", false⟩, ⟨12, "orca", "pools", true⟩]
  chainIds := ["1", "12"]

def vaultsToRun : JsMap String (Job Nat) := vaults.jobs.map fun job => (job.placeholder, job)

theorem notifies_vaults : ∃ p,
    run (Sequences.step jobEnds) (loops vaultsToRun) [1, 12, 1] = some p ∧
      dataToNotify vaultsToRun p.state =
        some [⟨some ⟨1, "curve", "pools"⟩, 4⟩, ⟨some ⟨12, "orca", "pools"⟩, 6⟩] := by
  have hsome : (run (Sequences.step jobEnds) (loops vaultsToRun) [1, 12, 1]).isSome := by
    decide +kernel
  obtain ⟨p, hrun⟩ := Option.isSome_iff_exists.mp hsome
  have hdone : ∀ chain ∈ (sortedJobs vaultsToRun).keys,
      (run (Sequences.step jobEnds) (loops vaultsToRun) [1, 12, 1]).map (·.todo chain) =
        some [] := by
    decide +kernel
  rw [hrun] at hdone
  have hsettled : Settled vaultsToRun p := fun chain hchain => Option.some.inj (hdone chain hchain)
  have hjobs : vaults.initializeJobs = .ok vaultsToRun := by decide +kernel
  have htold : vaults.told = [(⟨1, "curve", "pools"⟩, 4), (⟨12, "orca", "pools"⟩, 6)] := by
    decide +kernel
  refine ⟨p, hrun, ?_⟩
  rw [(notifies hjobs hrun hsettled).1, htold]
  rfl

end JobsRunner
end Jobs
end DefiBackend
