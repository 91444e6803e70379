import DefiBackend.Common.JsMap
import DefiBackend.Integration.Support.ProtocolKeys
import DefiBackend.Theory.Fallible
import Mathlib.Algebra.BigOperators.Group.List.Basic
import Mathlib.Algebra.Ring.Nat
import Mathlib.Data.List.Nodup

/-! # Synchronization of the platforms

`PlatformService.cacheOpportunities`: every chain has the sequence of the names of the platforms
that have it, the sequences run in parallel, and all are joined.

* Platforms are registered under the names of their exports, and looked up under the names of their
  metadata.
* What happens to a run (which platforms initialize, in which order they are listed, what becomes of
  the calls of their protocols) is part of the run. Another attempt to initialize a platform, which
  other chains may make at the same time, is a part of the attempt to sync it.
* A sequence stops at its first failure; the others go on, though the join rejects. -/

namespace DefiBackend
namespace Integration
namespace PlatformSync
open Theory

/-! ## Platforms -/

/-- What a promise is rejected with: a text, an error, or nothing. An error may have a response, and
a request with its host and path. -/
inductive Reason
  | text (s : String)
  | error (message : String) (response : Bool) (request : Option (String × String))
  | nullish
  deriving DecidableEq

def typeError : Reason := .error "TypeError" false none

/-- A registered protocol of a platform: its `getMeta`, and whether it has a `cachePoolData`. -/
structure Protocol where
  chain : ChainId
  features : List String
  caches : Bool

/-- What becomes of a call of a protocol's `cachePoolData`: some pools, a rejected promise, or an
exception instead of a promise. -/
inductive Settlement
  | fulfilled (pools : Nat)
  | rejected (reason : Reason)
  | thrown (reason : Reason)

/-- The promise of a call, unless it throws. -/
def Settlement.promise : Settlement → Except Reason (Except Reason Nat)
  | fulfilled pools => .ok (.ok pools)
  | rejected reason => .ok (.error reason)
  | thrown reason => .error reason

def value? : Except Reason Nat → Option Nat
  | .ok pools => some pools
  | .error _ => none

def reason? : Except Reason Nat → Option Reason
  | .ok _ => none
  | .error reason => some reason

structure PlatformMeta where
  name : String
  slug : String
  features : JsMap ChainId (List String)

/-- An initialized platform. -/
structure Platform where
  name : String
  slug : String
  protocols : List Protocol

namespace Platform
variable (P : Platform)

def getMeta : PlatformMeta where
  name := P.name
  slug := P.slug
  features := P.protocols.foldl (fun features protocol => features.set protocol.chain
    (protocol.features.foldl addToSet ((features.get protocol.chain).getD []))) []

def getSupportedChains : List ChainId := P.getMeta.features.keys

/-- The protocols whose `cachePoolData` is called. -/
def asked (chains : List ChainId) : List Protocol :=
  P.protocols.filter fun protocol => protocol.chain ∈ chains ∧ protocol.caches

/-- `cachePoolData`: the numbers of pools of the fulfilled protocols, and the reasons of the
rejected ones. -/
def cachePoolData (chains : List ChainId) (settle : Nat → Settlement) :
    Except Reason (List Nat × List Reason) := do
  let resolvedProtocols ←
    (List.range (P.asked chains).length).mapM fun i => (settle i).promise
  return (resolvedProtocols.filterMap value?, resolvedProtocols.filterMap reason?)

end Platform

/-- The message of a reason. -/
def processError : Reason → Except Reason String
  | .text s => .ok s
  | .error message false _ => .ok message
  | .error message true (some (host, path)) => .ok (message ++ " for " ++ host ++ path)
  | .error _ true none => .error typeError
  | .nullish => .error typeError

def processErrors (errors : List Reason) : Except Reason (List String) := errors.mapM processError

/-! ## Runs -/

/-- What an attempt to sync a platform meets: an initialization, if there has been none, and what
becomes of the calls of the protocols, in their order. -/
structure Attempt where
  initialized : Except Reason Platform
  settle : Nat → Settlement

/-- What a run meets. -/
structure SyncRun where
  /-- The names of the exported platforms. -/
  exports : List String
  /-- The result of each platform's initialization when the platforms are listed. -/
  boot : String → Except Reason Platform
  /-- The names in the order in which the platforms settle when they are listed. -/
  settled : List String
  settled_perm : settled.Perm exports
  /-- The attempt at each place of the sequence of a chain. -/
  attempt : ChainId → Nat → Attempt

structure StandardResponse where
  errors : List String
  count : Nat
  message : String
  deriving DecidableEq

/-- A computation with the calls of `cachePoolData` that it makes: of the platform that is
registered under a name, for a chain. -/
structure Logged (α : Type) where
  calls : List (String × ChainId)
  result : Except Reason α

def unsupported : Reason := .error "Platform Not Supported" false none

namespace SyncRun
variable (R : SyncRun)

/-- `getPlatform` after the platforms have been listed. -/
def getPlatform (attempt : Attempt) (name : String) : Except Reason Platform :=
  if name ∉ R.exports then .error unsupported
  else
    match R.boot name with
    | .ok platform => .ok platform
    | .error _ => attempt.initialized

/-- The platforms that initialize, with the names they are registered under. -/
def listed : List (String × Platform) :=
  R.settled.filterMap fun name =>
    match R.boot name with
    | .ok platform => some (name, platform)
    | .error _ => none

def getProtocolList : List PlatformMeta := R.listed.map fun entry => entry.2.getMeta

/-- The platforms' names under the chains of their features. -/
def chainsProtocols : JsMap ChainId (List String) :=
  .collect (R.getProtocolList.flatMap fun p => p.features.keys.map fun chain => (chain, p.name))

/-- `cacheOpportunitiesForPlatform`, not in debug mode. -/
def cacheOpportunitiesForPlatform (platformName : String) (chains : List ChainId)
    (attempt : Attempt) : Logged StandardResponse :=
  match R.getPlatform attempt platformName with
  | .error e => ⟨[], .error e⟩
  | .ok platform =>
    let requestedChains := if chains = [] then platform.getSupportedChains else chains
    { calls := requestedChains.map fun chain => (platformName, chain)
      result := do
        let (cached, errors) ← platform.cachePoolData requestedChains attempt.settle
        let errorMessages ← processErrors errors
        return {
          errors := unique errorMessages
          count := cached.sum
          message := platformName ++ " opportunities have been cached" } }

/-- The sequence of a chain, from a place on. -/
def cacheChain (chain : ChainId) : Nat → List String → Logged (List StandardResponse)
  | _, [] => ⟨[], .ok []⟩
  | i, protocol :: cProtocols =>
    let res := R.cacheOpportunitiesForPlatform protocol [chain] (R.attempt chain i)
    match res.result with
    | .error e => ⟨res.calls, .error e⟩
    | .ok result =>
      let rest := cacheChain chain (i + 1) cProtocols
      ⟨res.calls ++ rest.calls, rest.result.map (result :: ·)⟩

/-- All sequences. The join rejects with the reason of one that rejects. -/
def cacheOpportunities : Logged (List (ChainId × List StandardResponse)) :=
  let promises := R.chainsProtocols.map fun entry => (entry.1, R.cacheChain entry.1 0 entry.2)
  { calls := promises.flatMap fun promise => promise.2.calls
    result := promises.mapM fun promise => do
      let results ← promise.2.result
      return (promise.1, results) }

end SyncRun

/-! ## One platform -/

/-- A reason has a message. -/
def Reason.Printable : Reason → Prop
  | text _ | error _ false _ | error _ true (some _) => True
  | error _ true none | nullish => False

/-- A call of a protocol ends with pools or with an error that has a message. -/
def Settlement.Reportable : Settlement → Prop
  | fulfilled _ => True
  | rejected reason => reason.Printable
  | thrown _ => False

theorem succeeds_processError {reason : Reason} :
    Succeeds (processError reason) ↔ reason.Printable := by
  cases reason with
  | text s => simp [processError, Reason.Printable]
  | nullish => simp [processError, Reason.Printable]
  | error message response request =>
    cases response with
    | false => simp [processError, Reason.Printable]
    | true => cases request <;> simp [processError, Reason.Printable]

theorem reportable_iff {settlement : Settlement} : settlement.Reportable ↔
    ∃ promise, settlement.promise = .ok promise ∧
      ∀ reason, promise = .error reason → reason.Printable := by
  cases settlement with
  | fulfilled pools => simp [Settlement.Reportable, Settlement.promise]
  | rejected reason => simp [Settlement.Reportable, Settlement.promise]
  | thrown reason => simp [Settlement.Reportable, Settlement.promise]

theorem mem_reasons {promises : List (Except Reason Nat)} {reason : Reason} :
    reason ∈ promises.filterMap reason? ↔ .error reason ∈ promises := by
  rw [List.mem_filterMap]
  constructor
  · rintro ⟨promise, hmem, h⟩
    cases promise with
    | ok pools => simp [reason?] at h
    | error r =>
      cases h
      exact hmem
  · exact fun h => ⟨_, h, rfl⟩

/-- The errors of the protocols have messages when all calls are reportable, and only then. -/
theorem succeeds_cachePoolData (P : Platform) (chains : List ChainId)
    (settle : Nat → Settlement) :
    (∃ cached errors, P.cachePoolData chains settle = .ok (cached, errors) ∧
      Succeeds (processErrors errors)) ↔
      ∀ i < (P.asked chains).length, (settle i).Reportable := by
  constructor
  · rintro ⟨cached, errors, hdata, hmessages⟩ i hi
    obtain ⟨promises, hpromises, h⟩ := bind_eq_ok.mp hdata
    cases h
    have hi : i ∈ List.range (P.asked chains).length := List.mem_range.mpr hi
    obtain ⟨promise, hpromise⟩ := succeeds_mapM.mp ⟨promises, hpromises⟩ i hi
    refine reportable_iff.mpr ⟨promise, hpromise, fun reason hreason => ?_⟩
    subst hreason
    have hmem : Except.error reason ∈ promises := (mem_of_mapM_ok hpromises).mpr ⟨i, hi, hpromise⟩
    exact succeeds_processError.mp (succeeds_mapM.mp hmessages reason (mem_reasons.mpr hmem))
  · intro h
    have hpromises : Succeeds
        ((List.range (P.asked chains).length).mapM fun i => (settle i).promise) := by
      refine succeeds_mapM.mpr fun i hi => ?_
      obtain ⟨promise, hpromise, -⟩ := reportable_iff.mp (h i (List.mem_range.mp hi))
      exact ⟨promise, hpromise⟩
    obtain ⟨promises, hpromises⟩ := hpromises
    refine ⟨_, _, bind_eq_ok.mpr ⟨promises, hpromises, rfl⟩, succeeds_mapM.mpr ?_⟩
    intro reason hreason
    obtain ⟨i, hi, hpromise⟩ := (mem_of_mapM_ok hpromises).mp (mem_reasons.mp hreason)
    obtain ⟨promise, hpromise', hprintable⟩ := reportable_iff.mp (h i (List.mem_range.mp hi))
    rw [hpromise] at hpromise'
    exact succeeds_processError.mpr (hprintable reason (Except.ok.inj hpromise').symm)

/-- The messages of the calls of a platform's protocols that are rejected. -/
def Attempt.HasMessage (attempt : Attempt) (platform : Platform) (chain : ChainId)
    (message : String) : Prop :=
  ∃ i < (platform.asked [chain]).length, ∃ reason,
    attempt.settle i = .rejected reason ∧ processError reason = .ok message

theorem promise_eq_error {settlement : Settlement} {reason : Reason} :
    settlement.promise = .ok (.error reason) ↔ settlement = .rejected reason := by
  cases settlement <;> simp [Settlement.promise]

namespace SyncRun
variable {R : SyncRun}

/-- A name stands for an initialized platform: one that was initialized when the platforms were
listed, or else one that this attempt initializes. -/
def Initialized (R : SyncRun) (name : String) (attempt : Attempt) (platform : Platform) : Prop :=
  R.boot name = .ok platform ∨ ¬ Succeeds (R.boot name) ∧ attempt.initialized = .ok platform

/-- A name can be synced on a chain: a platform is registered under it, initializes, and the calls
of its protocols are reportable. -/
structure Syncs (R : SyncRun) (name : String) (chain : ChainId) (attempt : Attempt) : Prop where
  registered : name ∈ R.exports
  platform : ∃ platform, R.Initialized name attempt platform ∧
    ∀ i < (platform.asked [chain]).length, (attempt.settle i).Reportable

theorem getPlatform_eq_ok {name : String} {attempt : Attempt} {platform : Platform} :
    R.getPlatform attempt name = .ok platform ↔
      name ∈ R.exports ∧ R.Initialized name attempt platform := by
  unfold getPlatform Initialized
  by_cases hname : name ∈ R.exports
  · rw [if_neg (not_not.mpr hname)]
    cases R.boot name with
    | ok booted => simp [hname]
    | error e => simp [hname]
  · rw [if_pos hname]
    constructor
    · intro h
      cases h
    · exact fun h => absurd h.1 hname

/-- The step of a sequence: it succeeds exactly when the name can be synced on the chain. -/
theorem cacheOpportunitiesForPlatform_iff {name : String} {chain : ChainId} {attempt : Attempt} :
    Succeeds (R.cacheOpportunitiesForPlatform name [chain] attempt).result ↔
      R.Syncs name chain attempt := by
  constructor
  · intro hs
    rw [cacheOpportunitiesForPlatform] at hs
    cases h : R.getPlatform attempt name with
    | error e => simp [h] at hs
    | ok platform =>
      simp only [h] at hs
      obtain ⟨⟨cached, errors⟩, hdata, hs⟩ := succeeds_bind.mp hs
      obtain ⟨messages, hmessages, -⟩ := succeeds_bind.mp hs
      obtain ⟨hname, hinit⟩ := getPlatform_eq_ok.mp h
      refine ⟨hname, platform, hinit, ?_⟩
      exact (succeeds_cachePoolData ..).mp ⟨cached, errors, hdata, messages, hmessages⟩
  · rintro ⟨hname, platform, hinit, hreport⟩
    obtain ⟨cached, errors, hdata, messages, hmessages⟩ := (succeeds_cachePoolData ..).mpr hreport
    rw [cacheOpportunitiesForPlatform, getPlatform_eq_ok.mpr ⟨hname, hinit⟩]
    exact ⟨_, bind_eq_ok.mpr ⟨_, hdata, bind_eq_ok.mpr ⟨messages, hmessages, rfl⟩⟩⟩

/-- The response of a step names the platform, and has the messages of all rejected calls. -/
structure Reports (R : SyncRun) (name : String) (chain : ChainId) (attempt : Attempt)
    (platform : Platform) (res : StandardResponse) : Prop where
  message : res.message = name ++ " opportunities have been cached"
  errors : ∀ message, message ∈ res.errors ↔ attempt.HasMessage platform chain message

theorem cacheOpportunitiesForPlatform_reports {name : String} {chain : ChainId}
    {attempt : Attempt} {res : StandardResponse} {platform : Platform}
    (h : (R.cacheOpportunitiesForPlatform name [chain] attempt).result = .ok res)
    (hplatform : R.getPlatform attempt name = .ok platform) :
    R.Reports name chain attempt platform res := by
  rw [cacheOpportunitiesForPlatform, hplatform] at h
  obtain ⟨⟨cached, errors⟩, hdata, h⟩ := bind_eq_ok.mp h
  obtain ⟨messages, hmessages, h⟩ := bind_eq_ok.mp h
  cases h
  obtain ⟨promises, hpromises, hd⟩ := bind_eq_ok.mp hdata
  cases hd
  refine ⟨rfl, fun message => ?_⟩
  rw [mem_unique, mem_of_mapM_ok hmessages, Attempt.HasMessage]
  simp only [mem_reasons, mem_of_mapM_ok hpromises, List.mem_range, promise_eq_error]
  constructor
  · rintro ⟨reason, ⟨i, hi, hreason⟩, hmessage⟩
    exact ⟨i, hi, reason, hreason, hmessage⟩
  · rintro ⟨i, hi, reason, hreason, hmessage⟩
    exact ⟨reason, ⟨i, hi, hreason⟩, hmessage⟩

/-- A step that succeeds has called the platform. -/
theorem cacheOpportunitiesForPlatform_calls {name : String} {chain : ChainId} {attempt : Attempt}
    (h : R.Syncs name chain attempt) :
    (R.cacheOpportunitiesForPlatform name [chain] attempt).calls = [(name, chain)] := by
  obtain ⟨hname, platform, hinit, -⟩ := h
  rw [cacheOpportunitiesForPlatform, getPlatform_eq_ok.mpr ⟨hname, hinit⟩]
  rfl

/-! ## One chain -/

theorem cacheChain_cons_of_error {chain : ChainId} {i : Nat} {name : String} {names : List String}
    (h : ¬ R.Syncs name chain (R.attempt chain i)) :
    ¬ Succeeds (R.cacheChain chain i (name :: names)).result := by
  rw [← cacheOpportunitiesForPlatform_iff] at h
  rw [cacheChain]
  cases hres : (R.cacheOpportunitiesForPlatform name [chain] (R.attempt chain i)).result with
  | error e => exact not_succeeds_error
  | ok res => exact absurd ⟨res, hres⟩ h

theorem cacheChain_cons_of_ok {chain : ChainId} {i : Nat} {name : String} (names : List String)
    (h : R.Syncs name chain (R.attempt chain i)) :
    ∃ res, (R.cacheOpportunitiesForPlatform name [chain] (R.attempt chain i)).result = .ok res ∧
      R.cacheChain chain i (name :: names) =
        ⟨(name, chain) :: (R.cacheChain chain (i + 1) names).calls,
          (R.cacheChain chain (i + 1) names).result.map (res :: ·)⟩ := by
  obtain ⟨res, hres⟩ := cacheOpportunitiesForPlatform_iff.mpr h
  refine ⟨res, hres, ?_⟩
  rw [cacheChain, hres, cacheOpportunitiesForPlatform_calls h]
  rfl

/-- A sequence succeeds exactly when each of its names can be synced. -/
theorem succeeds_cacheChain {chain : ChainId} {i : Nat} {names : List String} :
    Succeeds (R.cacheChain chain i names).result ↔
      ∀ j name, names[j]? = some name → R.Syncs name chain (R.attempt chain (i + j)) := by
  induction names generalizing i with
  | nil => simp [cacheChain]
  | cons name names ih =>
    by_cases h : R.Syncs name chain (R.attempt chain i)
    · obtain ⟨res, -, hcons⟩ := cacheChain_cons_of_ok names h
      rw [hcons, succeeds_map, ih]
      constructor
      · intro hs j name' hj
        cases j with
        | zero =>
          obtain rfl : name = name' := Option.some.inj hj
          exact h
        | succ j =>
          rw [← Nat.add_assoc, Nat.add_right_comm]
          exact hs j name' hj
      · intro hs j name' hj
        rw [Nat.add_right_comm, Nat.add_assoc]
        exact hs (j + 1) name' hj
    · exact iff_of_false (cacheChain_cons_of_error h) fun hs => h (hs 0 name rfl)

/-- A sequence that succeeds has called each of its platforms, and has a response of each at its
place. -/
theorem cacheChain_complete {chain : ChainId} {i : Nat} {names : List String}
    {results : List StandardResponse} (h : (R.cacheChain chain i names).result = .ok results) :
    (R.cacheChain chain i names).calls = names.map (fun name => (name, chain)) ∧
      ∀ j name, names[j]? = some name → ∃ res, results[j]? = some res ∧
        (R.cacheOpportunitiesForPlatform name [chain] (R.attempt chain (i + j))).result =
          .ok res := by
  induction names generalizing i results with
  | nil => exact ⟨rfl, fun j name hj => by simp at hj⟩
  | cons name names ih =>
    have hsync : R.Syncs name chain (R.attempt chain i) :=
      succeeds_cacheChain.mp ⟨results, h⟩ 0 name rfl
    obtain ⟨res, hres, hcons⟩ := cacheChain_cons_of_ok names hsync
    rw [hcons] at h ⊢
    cases hrest : (R.cacheChain chain (i + 1) names).result with
    | error e =>
      rw [hrest] at h
      cases h
    | ok rest =>
      rw [hrest] at h
      cases h
      obtain ⟨hcalls, hresults⟩ := ih hrest
      refine ⟨congrArg _ hcalls, fun j name' hj => ?_⟩
      cases j with
      | zero =>
        obtain rfl : name = name' := Option.some.inj hj
        exact ⟨res, rfl, hres⟩
      | succ j =>
        rw [← Nat.add_assoc, Nat.add_right_comm]
        exact hresults j name' hj

/-! ## All chains -/

/-- The names under a chain: of the listed platforms that have it. -/
def namesOf (R : SyncRun) (chain : ChainId) : List String :=
  (R.listed.filter fun entry => chain ∈ entry.2.getSupportedChains).map fun entry => entry.2.name

/-- A platform is listed under a name: it is registered under it and initializes. -/
def Listed (R : SyncRun) (key : String) (platform : Platform) : Prop :=
  key ∈ R.exports ∧ R.boot key = .ok platform

theorem mem_listed {key : String} {platform : Platform} :
    (key, platform) ∈ R.listed ↔ R.Listed key platform := by
  rw [listed, List.mem_filterMap, Listed, ← R.settled_perm.mem_iff]
  constructor
  · rintro ⟨name, hname, h⟩
    cases hboot : R.boot name with
    | error e => simp [hboot] at h
    | ok booted =>
      simp only [hboot, Option.some.injEq, Prod.mk.injEq] at h
      obtain ⟨rfl, rfl⟩ := h
      exact ⟨hname, hboot⟩
  · rintro ⟨hkey, hboot⟩
    exact ⟨key, hkey, by rw [hboot]⟩

theorem nodup_getSupportedChains (P : Platform) : P.getSupportedChains.Nodup := by
  have hfold : ∀ (protocols : List Protocol) (features : JsMap ChainId (List String)),
      features.keys.Nodup → (protocols.foldl (fun features protocol => JsMap.set features
        protocol.chain (protocol.features.foldl addToSet
          ((features.get protocol.chain).getD []))) features).keys.Nodup := by
    intro protocols
    induction protocols with
    | nil => exact fun _ h => h
    | cons protocol protocols ih => exact fun features h => ih _ (JsMap.nodup_keys_set h)
  exact hfold P.protocols [] .nil

/-- A platform has its name once in the sequence of each of its chains. -/
theorem filter_chain_map (P : Platform) (chain : ChainId) :
    ((P.getSupportedChains.map fun c => (c, P.name)).filter (·.1 = chain)).map Prod.snd =
      if chain ∈ P.getSupportedChains then [P.name] else [] := by
  have hfilter : P.getSupportedChains.filter (· = chain) =
      List.replicate (P.getSupportedChains.count chain) chain := List.filter_eq chain
  rw [List.filter_map, List.map_map]
  change (P.getSupportedChains.filter (· = chain)).map (fun _ => P.name) = _
  rw [hfilter]
  by_cases h : chain ∈ P.getSupportedChains
  · rw [List.count_eq_one_of_mem (nodup_getSupportedChains P) h, if_pos h]
    rfl
  · rw [List.count_eq_zero_of_not_mem h, if_neg h]
    rfl

/-- Each chain of a listed platform has its sequence. -/
theorem chainsProtocols_eq :
    R.chainsProtocols = (unique (R.listed.flatMap fun entry => entry.2.getSupportedChains)).map
      fun chain => (chain, R.namesOf chain) := by
  have hfst : (R.getProtocolList.flatMap fun p => p.features.keys.map fun c => (c, p.name)).map
      Prod.fst = R.listed.flatMap fun entry => entry.2.getSupportedChains := by
    rw [getProtocolList, List.flatMap_map, List.map_flatMap]
    refine List.flatMap_congr fun entry _ => ?_
    rw [List.map_map]
    exact List.map_id _
  have hsnd (chain : ChainId) :
      ((R.getProtocolList.flatMap fun p => p.features.keys.map fun c => (c, p.name)).filter
        (·.1 = chain)).map Prod.snd = R.namesOf chain := by
    rw [getProtocolList, List.flatMap_map, List.filter_flatMap, List.map_flatMap, namesOf]
    induction R.listed with
    | nil => rfl
    | cons entry listed ih =>
      have hentry := filter_chain_map entry.2 chain
      rw [List.flatMap_cons, ih, List.filter_cons]
      change (List.filter _ (entry.2.getSupportedChains.map fun c => (c, entry.2.name))).map
        Prod.snd ++ _ = _
      rw [hentry]
      by_cases h : chain ∈ entry.2.getSupportedChains <;> simp [h]
  rw [chainsProtocols, JsMap.collect_eq, hfst]
  simp only [hsnd]

/-- A sync attempts every platform: it resolves, and it has called and reported every listed
platform on each of its chains, with the messages of what was rejected at its place. -/
structure AttemptsEvery (R : SyncRun) : Prop where
  resolves : Succeeds R.cacheOpportunities.result
  calls : ∀ key platform, R.Listed key platform → ∀ chain ∈ platform.getSupportedChains,
    (key, chain) ∈ R.cacheOpportunities.calls
  reported : ∀ data, R.cacheOpportunities.result = .ok data →
    ∀ key platform, R.Listed key platform → ∀ chain ∈ platform.getSupportedChains,
      ∃ results, (chain, results) ∈ data ∧ ∃ i res, (R.namesOf chain)[i]? = some key ∧
        results[i]? = some res ∧ R.Reports key chain (R.attempt chain i) platform res

/-- Every name of every sequence can be synced at its place. -/
def AllSync (R : SyncRun) : Prop :=
  ∀ chain i name, (R.namesOf chain)[i]? = some name → R.Syncs name chain (R.attempt chain i)

/-- What every listed platform is registered under is the name of a listed platform of each of its
chains. -/
def AllNamed (R : SyncRun) : Prop :=
  ∀ key platform, R.Listed key platform → ∀ chain ∈ platform.getSupportedChains,
    key ∈ R.namesOf chain

/-- A chain without a listed platform has no names. -/
theorem mem_chains_of_name {chain : ChainId} {name : String} (h : name ∈ R.namesOf chain) :
    chain ∈ unique (R.listed.flatMap fun entry => entry.2.getSupportedChains) := by
  obtain ⟨entry, hentry, -⟩ := List.mem_map.mp h
  obtain ⟨hmem, hchain⟩ := List.mem_filter.mp hentry
  exact mem_unique.mpr (List.mem_flatMap.mpr ⟨entry, hmem, of_decide_eq_true hchain⟩)

/-- The sync resolves exactly when every name of every sequence can be synced. -/
theorem succeeds_cacheOpportunities : Succeeds R.cacheOpportunities.result ↔ R.AllSync := by
  rw [cacheOpportunities, succeeds_mapM, chainsProtocols_eq, List.map_map]
  constructor
  · intro hs chain i name hname
    have hchain := mem_chains_of_name (List.mem_of_getElem? hname)
    have hresult := hs _ (List.mem_map.mpr ⟨chain, hchain, rfl⟩)
    rw [succeeds_bind_of_forall fun _ => succeeds_pure] at hresult
    have hsync := succeeds_cacheChain.mp hresult i name hname
    rwa [Nat.zero_add] at hsync
  · intro hall promise hpromise
    obtain ⟨chain, -, rfl⟩ := List.mem_map.mp hpromise
    rw [succeeds_bind_of_forall fun _ => succeeds_pure]
    refine succeeds_cacheChain.mpr fun j name hname => ?_
    rw [Nat.zero_add]
    exact hall chain j name hname

/-- The sequence of a chain in a sync that resolves. -/
theorem cacheChain_of_allSync (h : R.AllSync) (chain : ChainId) :
    Succeeds (R.cacheChain chain 0 (R.namesOf chain)).result := by
  refine succeeds_cacheChain.mpr fun j name hname => ?_
  rw [Nat.zero_add]
  exact h chain j name hname

/-- A sync that resolves has called what is registered under the names of the sequences. -/
theorem mem_calls_of_allSync (h : R.AllSync) {key : String} {chain : ChainId} :
    (key, chain) ∈ R.cacheOpportunities.calls ↔ key ∈ R.namesOf chain := by
  have hcalls (chain : ChainId) : (R.cacheChain chain 0 (R.namesOf chain)).calls =
      (R.namesOf chain).map fun name => (name, chain) := by
    obtain ⟨results, hresults⟩ := cacheChain_of_allSync h chain
    exact (cacheChain_complete hresults).1
  rw [cacheOpportunities, chainsProtocols_eq, List.map_map, List.mem_flatMap]
  constructor
  · rintro ⟨promise, hpromise, hmem⟩
    obtain ⟨chain', -, rfl⟩ := List.mem_map.mp hpromise
    simp only [Function.comp_apply, hcalls] at hmem
    obtain ⟨name, hname, heq⟩ := List.mem_map.mp hmem
    cases heq
    exact hname
  · intro hname
    refine ⟨_, List.mem_map.mpr ⟨chain, mem_chains_of_name hname, rfl⟩, ?_⟩
    simp only [Function.comp_apply, hcalls]
    exact List.mem_map.mpr ⟨key, hname, rfl⟩

/-- The data of a sync have a response for every name of every sequence. -/
theorem mem_data {data : List (ChainId × List StandardResponse)}
    (h : R.cacheOpportunities.result = .ok data) {key : String} {chain : ChainId}
    (hkey : key ∈ R.namesOf chain) :
    ∃ results, (chain, results) ∈ data ∧ ∃ i res, (R.namesOf chain)[i]? = some key ∧
      results[i]? = some res ∧
        (R.cacheOpportunitiesForPlatform key [chain] (R.attempt chain i)).result = .ok res := by
  obtain ⟨results, hresults⟩ :=
    cacheChain_of_allSync (succeeds_cacheOpportunities.mp ⟨data, h⟩) chain
  obtain ⟨i, hi⟩ := List.mem_iff_getElem?.mp hkey
  obtain ⟨res, hget, hres⟩ := (cacheChain_complete hresults).2 i key hi
  rw [Nat.zero_add] at hres
  refine ⟨results, ?_, i, res, hi, hget, hres⟩
  rw [cacheOpportunities] at h
  rw [mem_of_mapM_ok h, chainsProtocols_eq, List.map_map]
  refine ⟨_, List.mem_map.mpr ⟨chain, mem_chains_of_name hkey, rfl⟩, ?_⟩
  exact bind_eq_ok.mpr ⟨results, hresults, rfl⟩

/-- A sync attempts every platform exactly when every name of every sequence can be synced, and
every listed platform is registered under a name of the sequences of its chains. -/
theorem attemptsEvery_iff (R : SyncRun) : R.AttemptsEvery ↔ R.AllSync ∧ R.AllNamed := by
  constructor
  · intro H
    have hall := succeeds_cacheOpportunities.mp H.resolves
    refine ⟨hall, fun key platform hlisted chain hchain => ?_⟩
    exact (mem_calls_of_allSync hall).mp (H.calls key platform hlisted chain hchain)
  · rintro ⟨hall, hnamed⟩
    exact {
      resolves := succeeds_cacheOpportunities.mpr hall
      calls := fun key platform hlisted chain hchain =>
        (mem_calls_of_allSync hall).mpr (hnamed key platform hlisted chain hchain)
      reported := fun data hdata key platform hlisted chain hchain => by
        obtain ⟨results, hmem, i, res, hi, hget, hres⟩ :=
          mem_data hdata (hnamed key platform hlisted chain hchain)
        have hplatform : R.getPlatform (R.attempt chain i) key = .ok platform :=
          getPlatform_eq_ok.mpr ⟨hlisted.1, .inl hlisted.2⟩
        exact ⟨results, hmem, i, res, hi, hget,
          cacheOpportunitiesForPlatform_reports hres hplatform⟩ }

/-- When every platform is named as it is registered, only a sync that fails is in the way. -/
theorem allNamed_of_names (h : ∀ key platform, R.Listed key platform → platform.name = key) :
    R.AllNamed := by
  intro key platform hlisted chain hchain
  refine List.mem_map.mpr ⟨(key, platform), ?_, h key platform hlisted⟩
  exact List.mem_filter.mpr ⟨mem_listed.mpr hlisted, decide_eq_true hchain⟩

end SyncRun

/-! ## A platform with a display name -/

/-- Staking on Solana is registered as SolanaStaking. -/
def solanaStaking : Platform where
  name := "Solana Staking"
  slug := "SolanaStaking"
  protocols := [⟨12, ["delegation"], true⟩]

def benqi : Platform where
  name := "Benqi"
  slug := "Benqi"
  protocols := [⟨6, ["lending"], true⟩]

/-- Both platforms initialize, and no protocol fails. -/
def displayNameRun : SyncRun where
  exports := ["Benqi", "SolanaStaking"]
  boot name := .ok (if name = "Benqi" then benqi else solanaStaking)
  settled := ["Benqi", "SolanaStaking"]
  settled_perm := .refl _
  attempt _ _ := ⟨.error unsupported, fun _ => .fulfilled 1⟩

/-- The sync rejects, as no platform is registered under the display name. -/
theorem displayNameRun_not_attemptsEvery : ¬ displayNameRun.AttemptsEvery := by
  intro H
  have hall := SyncRun.succeeds_cacheOpportunities.mp H.resolves
  have hsync := hall 12 0 "Solana Staking" (by decide)
  exact absurd hsync.registered (by decide)

end PlatformSync
end Integration
end DefiBackend
