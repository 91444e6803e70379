import DefiBackend.Integration.Protocols.MasterChef

/-! # Stability of protocol ids

An id is computed from the metadata, and fetching opportunities rewrites the context inside the
metadata. Ids are stable, and written lists are found, in all runs in which this rewriting changes
nothing: there is no context object, or what is merged and formatted is what it holds already. -/

namespace DefiBackend
namespace Integration
open Theory

section
variable {ι : Type w} {T : Type u} {O : Type v} [IWalletMinimal T]
  (sha256 : String → HexDigest) (cls : ι → SingleContractClass) (registered : ι → ProtocolMeta)

/-- Protocol ids are what they were at the registration, and under its list key every instance
finds, now and in a read under way, the list that an instance of its registered id wrote last. -/
structure Stable (s : SyncWorld ι T O) : Prop where
  protocolId : ∀ i, (protocols sha256 cls s.metas i).protocolId =
    (protocols sha256 cls registered i).protocolId
  found : ∀ i, s.world.cache (protocols sha256 cls s.metas i).poolListCacheKey =
    (s.written (protocols sha256 cls registered i).protocolId).map .list
  reading : ∀ n i cacheKey listKey,
    s.world.calls n = some (i, .readingList cacheKey listKey) →
    s.world.cache listKey = (s.written (protocols sha256 cls registered i).protocolId).map .list

/-- A step leaves the context inside the metadata as it is: contract results, the formatting and
the fetching write what it holds already, or there is none. -/
def ContextKept (s : SyncWorld ι T O) : SyncAction ι T O → Prop
  | .called n results => ∀ i phase context, s.world.calls n = some (i, phase) →
    (s.metas i).context = .object context →
    context.assignAll ((cls i).inputless.zip results) = context
  | .formatted n => ∀ i phase context, s.world.calls n = some (i, phase) →
    s.stages n = some (.formatting none) → (s.metas i).context = .object context →
    let formatted := (cls i).formatContext (s.metas i).chain context
    (if formatted.2 then (cls i).fetchStart formatted.1 else formatted.1) = context
  | .proceed n => ∀ i phase context part parts, s.world.calls n = some (i, phase) →
    s.stages n = some (.fetching none (part :: parts)) → (s.metas i).context = .object context →
    part context = context
  | .base _ => True

/-! ## The invariant -/

structure SyncInv (s : SyncWorld ι T O) : Prop where
  metas : s.metas = registered
  keys : s.world.KeysOk (protocols sha256 cls registered)
  found : ∀ i, s.world.cache (protocols sha256 cls registered i).poolListCacheKey =
    (s.written (protocols sha256 cls registered i).protocolId).map .list

variable {sha256 cls registered} {s s' : SyncWorld ι T O}

theorem SyncInv.init : SyncInv sha256 cls registered (SyncWorld.init registered : SyncWorld ι T O)
    where
  metas := rfl
  keys := World.KeysOk.init
  found _ := rfl

theorem SyncInv.stable (h : SyncInv sha256 cls registered s) : Stable sha256 cls registered s := by
  obtain ⟨rfl, hkeys, hfound⟩ := h
  refine ⟨fun _ => rfl, hfound, fun n i cacheKey listKey hcall => ?_⟩
  obtain ⟨-, rfl⟩ := hkeys n i _ hcall
  exact hfound i

omit [IWalletMinimal T] in
theorem ProtocolMeta.setContext_self {m : ProtocolMeta} {context : JsObject}
    (h : ∀ c, m.context = .object c → context = c) : m.setContext context = m := by
  unfold setContext
  split
  · rename_i c hc
    obtain ⟨chain, before, _, after, hchain⟩ := m
    obtain rfl := hc
    rw [h c rfl]
  · rfl

section
variable [DecidableEq ι]

omit [IWalletMinimal T] in
theorem SyncWorld.world_setContext : (s.setContext i own context).world = s.world := by
  cases own <;> rfl

omit [IWalletMinimal T] in
theorem SyncWorld.written_setContext : (s.setContext i own context).written = s.written := by
  cases own <;> rfl

omit [IWalletMinimal T] in
/-- Writing what is there already changes no metadata. -/
theorem SyncWorld.metas_setContext
    (h : own = none → ∀ c, (s.metas i).context = .object c → context = c) :
    (s.setContext i own context).metas = s.metas := by
  cases own with
  | some _ => rfl
  | none => simp [SyncWorld.setContext, ProtocolMeta.setContext_self (h rfl)]

end

/-- A step that touches no cache entry and no call keeps the invariant if it keeps the metadata. -/
theorem SyncInv.of_metas (h : SyncInv sha256 cls registered s) (hm : s'.metas = s.metas)
    (hk : s'.world.KeysOk (protocols sha256 cls registered)) (hc : s'.world.cache = s.world.cache)
    (hw : s'.written = s.written) : SyncInv sha256 cls registered s' where
  metas := hm.trans h.metas
  keys := hk
  found i := by rw [hc, hw, h.found i]

/-- The base system writes, drops and expires lists as recorded. -/
theorem SyncInv.found_base (h : SyncInv sha256 cls registered s) (a : Action ι T O) (i : ι) :
    s.world.cacheAfter a (protocols sha256 cls registered i).poolListCacheKey =
      (s.writtenAfter (protocols sha256 cls registered) a
        (protocols sha256 cls registered i).protocolId).map .list := by
  cases a
  case written n =>
    rcases hcall : s.world.calls n with _ | ⟨j, phase⟩
    · simpa only [World.cacheAfter, SyncWorld.writtenAfter, hcall] using h.found i
    · cases phase <;> simp only [World.cacheAfter, SyncWorld.writtenAfter, hcall]
      case writing cacheKey cached pools =>
        obtain ⟨-, rfl⟩ := h.keys _ _ _ hcall
        rw [mset_poolListCacheKey]
        split
        · rename_i hid
          rw [hid, Function.update_self]
          rfl
        · rename_i hid
          rw [Function.update_of_ne (Ne.symm hid), h.found i]
      all_goals exact h.found i
  case saved n =>
    rcases hcall : s.world.calls n with _ | ⟨j, phase⟩
    · simpa only [World.cacheAfter, SyncWorld.writtenAfter, hcall] using h.found i
    · cases phase <;> simp only [World.cacheAfter, SyncWorld.writtenAfter, hcall]
      case saving cacheKey response =>
        obtain rfl := h.keys _ _ _ hcall
        rw [Store.set_of_ne RootProtocol.hydratedCacheKey_ne_poolList.symm, h.found i]
      all_goals exact h.found i
  case expire key =>
    by_cases hkey : (protocols sha256 cls registered i).poolListCacheKey = key
    · have hkey' : poolListCacheKeyOf (protocols sha256 cls registered i).protocolId = key := hkey
      simp [World.cacheAfter, SyncWorld.writtenAfter, hkey, hkey']
    · have hkey' : poolListCacheKeyOf (protocols sha256 cls registered i).protocolId ≠ key := hkey
      simp only [World.cacheAfter, SyncWorld.writtenAfter, if_neg hkey', Store.erase_of_ne hkey]
      exact h.found i
  all_goals exact h.found i

variable [DecidableEq ι]

theorem SyncInv.step {a : SyncAction ι T O} (h : SyncInv sha256 cls registered s)
    (hok : ContextKept cls s a) (hstep : syncStep sha256 cls registered s a = some s') :
    SyncInv sha256 cls registered s' := by
  cases a <;> simp only [syncStep] at hstep
  case called n results =>
    split at hstep
    · rename_i i cacheKey hcall hstage
      split at hstep
      · split at hstep
        · rename_i context hcontext
          cases hstep
          refine h.of_metas (SyncWorld.metas_setContext fun _ c hc => ?_) h.keys rfl rfl
          obtain rfl : context = c := by simpa [hcontext] using hc
          exact hok _ _ _ hcall hcontext
        · cases hstep
          exact h.of_metas rfl h.keys rfl rfl
      · cases hstep
    · cases hstep
  case formatted n =>
    split at hstep
    · rename_i i phase own hcall hstage
      split at hstep
      · rename_i hret
        cases hstep
        refine h.of_metas (SyncWorld.metas_setContext ?_) ?_ ?_ ?_
        · rintro rfl c hc
          have hkept := hok _ _ _ hcall hstage hc
          simp only [contextOf, hc] at hret ⊢
          exact (if_pos hret).symm.trans hkept
        · simpa [SyncWorld.setStage, SyncWorld.world_setContext] using h.keys
        · simp [SyncWorld.setStage, SyncWorld.world_setContext]
        · simp [SyncWorld.setStage, SyncWorld.written_setContext]
      · rename_i hret
        cases hstep
        refine h.of_metas (SyncWorld.metas_setContext ?_) h.keys.finish rfl ?_
        · rintro rfl c hc
          have hkept := hok _ _ _ hcall hstage hc
          simp only [contextOf, hc] at hret ⊢
          exact (if_neg hret).symm.trans hkept
        · simp [SyncWorld.setStage, SyncWorld.written_setContext]
    · cases hstep
  case proceed n =>
    split at hstep
    · rename_i i phase own part parts hcall hstage
      cases hstep
      refine h.of_metas (SyncWorld.metas_setContext ?_) ?_ ?_ ?_
      · rintro rfl c hc
        simp only [contextOf, hc]
        exact hok _ _ _ _ _ hcall hstage hc
      · simpa [SyncWorld.setStage, SyncWorld.world_setContext] using h.keys
      · simp [SyncWorld.setStage, SyncWorld.world_setContext]
      · simp [SyncWorld.setStage, SyncWorld.written_setContext]
    · cases hstep
  case base a =>
    split at hstep
    · rename_i world stages hworld hstages
      cases hstep
      rw [h.metas] at hworld
      refine ⟨h.metas, h.keys.step hworld, fun i => ?_⟩
      rw [step_cache hworld]
      exact h.found_base a i
    · cases hstep

/-- Protocol ids are stable and written lists are found in every run in which every step leaves
the contexts as they are. -/
theorem stable_of_run
    (H : RunsUnder (syncStep sha256 cls registered) (ContextKept cls)
      (SyncWorld.init registered : SyncWorld ι T O) as s) : Stable sha256 cls registered s :=
  (H.invariant (fun h hok hstep => h.step hok hstep) SyncInv.init).stable

end

/-! ## Two farms -/

namespace MasterChef

/-- The farms of `BabySwap`, registered with a context. -/
def babySwap : ProtocolMeta where
  chain := 2
  before := [("chain", .num 2), ("name", .str "Farms"), ("feature", .str "staking"),
    ("address", .str "0xdfAa0e08e357dB0153927C7EaBB492d1F60aC730")]
  context := .object [("badPools", .arr [.num 53])]
  after := []
  chain_field := rfl

/-- The farms of `SpookySwap`, registered without one. -/
def spookySwap : ProtocolMeta where
  chain := 4
  before := [("chain", .num 4), ("name", .str "Farms"), ("feature", .str "staking"),
    ("address", .str "0x2b2929E785374c651a81A63878Ab22742656DcDd"), ("links", .obj [])]
  context := .absent
  after := []
  chain_field := rfl

/-- The quotient of a decimal number that the divisor divides. -/
def exactQuotient (value : JsValue) (n : Nat) : String :=
  match value.parseInt with
  | .num m => toString (m / n)
  | _ => "NaN"

/-- The digests of the texts of the two metadata, and of every other text that of the first one
after a sync. -/
def sha256 (text : String) : HexDigest :=
  if text = babySwap.text then
    ⟨"a2e7611a813a65c6294ea78930458ea22e67fdffb4c2a814a67194868bd3e3d4",
      "a2e7611a813a65c6294ea78930458ea22e67fdffb4c2a814a67194868bd3e3d".toList, '4',
      by decide, by decide⟩
  else if text = spookySwap.text then
    ⟨"df5127f9c86fa254a05fb31ab509f98a39df3ddbeb9654eea3248b44bf84e0f1",
      "df5127f9c86fa254a05fb31ab509f98a39df3ddbeb9654eea3248b44bf84e0f".toList, '1',
      by decide, by decide⟩
  else
    ⟨"dcf57db217519ae2ad7d48a12897fea47d69e41a33d2983060c03384e31cb8da",
      "dcf57db217519ae2ad7d48a12897fea47d69e41a33d2983060c03384e31cb8d".toList, 'a',
      by decide, by decide⟩

/-- What the contract answers to the four functions without inputs. -/
def results : List JsValue :=
  [.str "60", .str "405000000000000000", .str "0x53E562b9B7E5E94b81f10e96Ee70Ad06df3D2657",
    .str "1000"]

def pools : List (Option OpportunityMinimal) :=
  [some (formatStakingOpportunityMinimal "0xdfAa0e08e357dB0153927C7EaBB492d1F60aC730" 0
    "0x53e562b9b7e5e94b81f10e96ee70ad06df3d2657")]

/-- A sync that succeeds. -/
def sync (n : Nat) : List (SyncAction Unit OpportunityMinimal Unit) :=
  [.base (.cachePoolData n ()), .called n results, .formatted n, .base (.opportunities n pools),
    .base (.written n)]

/-- Without a context, a sync leaves the id as it is and its list is found. -/
theorem stable_of_run_spookySwap :
    ∃ s, run (syncStep sha256 (fun _ => cls exactQuotient) fun _ => spookySwap)
        (SyncWorld.init fun _ => spookySwap) (sync 0) = some s ∧
      s.written (protocolOf sha256 (cls exactQuotient) spookySwap).protocolId =
        some (poolList pools) ∧
      Stable sha256 (fun _ => cls exactQuotient) (fun _ => spookySwap) s := by
  have H : ∃ s, RunsUnder (syncStep sha256 (fun _ => cls exactQuotient) fun _ => spookySwap)
      (ContextKept fun _ => cls exactQuotient) (SyncWorld.init fun _ => spookySwap) (sync 0) s ∧
      s.written (protocolOf sha256 (cls exactQuotient) spookySwap).protocolId =
        some (poolList pools) := by
    refine ⟨_, .cons trivial rfl (.cons ?_ rfl (.cons ?_ rfl (.cons trivial rfl
      (.cons trivial rfl .nil)))), ?_⟩
    · exact fun i phase context hcall hcontext => nomatch hcontext
    · exact fun i phase context hcall hstage hcontext => nomatch hcontext
    · decide +kernel
  obtain ⟨s, H, hs⟩ := H
  exact ⟨s, H.run_eq, hs, stable_of_run H⟩

/-- With one, the results of the contract end up in the metadata and the id changes. -/
theorem babySwap_not_stable :
    ∃ s, run (syncStep sha256 (fun _ => cls exactQuotient) fun _ => babySwap)
        (SyncWorld.init fun _ => babySwap) (sync 0) = some s ∧
      ¬ Stable sha256 (fun _ => cls exactQuotient) (fun _ => babySwap) s := by
  refine ⟨_, rfl, fun h => ?_⟩
  exact absurd (h.protocolId ()) (by decide +kernel)

end MasterChef
end Integration
end DefiBackend
