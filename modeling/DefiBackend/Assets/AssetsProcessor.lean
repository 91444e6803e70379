import DefiBackend.Assets.CachedAssets
import DefiBackend.Common.JsValue
import DefiBackend.Theory.Descent
import DefiBackend.Theory.Places
import Mathlib.Data.List.Nodup

/-! # Processing assets

`AssetsProcessor.processAsset` of `apps/assets`: an asset that is not in the database, or has to be
updated, is analysed, then its underlying tokens are processed in the order of the analysis, and
then it is saved with their positions.

* `NumbersInOrder`: the processing of a request comes to an end, and what it has saved has its
  underlying tokens at the positions from 0 on, in the order of the analysis.
* `numbersInOrder_iff`: this holds exactly when the processing gets to no asset that it gets back
  to, and no asset that it gets to, and can save, has a token twice.

A request stays on one chain. Under a key stands the asset that a query for it finds. The display
names are left out. -/

namespace DefiBackend
namespace Assets
namespace AssetsProcessor
open Theory Relation

abbrev AssetMetadata := JsObject

structure AssetIcon where
  url : String
  source : String
  label : Option String
  deriving DecidableEq

/-- What `IconsService` has saved. -/
structure SavedAssetIcon where
  url : Option String
  fileSize : Nat
  deriving DecidableEq

structure AssetAnalysisResult where
  symbol : Option String
  name : Option String
  decimals : Option Nat
  isTracked : Bool
  metadata : AssetMetadata
  icons : List AssetIcon
  categories : List String
  underlying : Option (List Address)

/-- `asset.underlying || []`. -/
def AssetAnalysisResult.tokens (analysis : AssetAnalysisResult) : List Address :=
  analysis.underlying.getD []

structure AssetProcessingRequest where
  chainId : Nat
  address : Address
  isTracked : Bool
  metadata : AssetMetadata
  forceUpdate : Bool

def AssetProcessingRequest.asset (request : AssetProcessingRequest) : AssetReference :=
  ⟨request.chainId, request.address⟩

structure AssetUnderlyingEntity where
  position : Nat
  underlyingAsset : AssetReference
  deriving DecidableEq

structure AssetEntity where
  asset : AssetReference
  symbol : Option String
  name : Option String
  decimals : Option Nat
  rank : JsValue
  isTracked : Bool
  metadata : AssetMetadata
  icon : Option String
  categories : List String
  underlying : List AssetUnderlyingEntity

def AssetEntity.key (e : AssetEntity) : AssetCacheKey := e.asset.key

/-- The assets, with the numbers of retries of those that could not be analysed. -/
structure Database where
  assets : AssetCacheKey → Option AssetEntity
  retries : AssetCacheKey → Option Nat
  key_eq : ∀ k e, assets k = some e → e.key = k

/-- The assets that can be analysed, with what is found out about them: finitely many are underlying
tokens, and the case of an address makes no difference. -/
structure AssetGraph where
  analyseAsset : AssetReference → Option AssetAnalysisResult
  addresses : List Address
  tokens_mem : ∀ asset analysis, analyseAsset asset = some analysis →
    ∀ a ∈ analysis.tokens, a ∈ addresses
  analyseAsset_congr : ∀ asset asset', asset.key = asset'.key →
    analyseAsset asset = analyseAsset asset'

/-- The services that are used. The database may refuse to save an asset. -/
structure Surroundings where
  uploadAssetIcons : AssetReference → List AssetIcon → List SavedAssetIcon
  findOrCreate : List String → List String
  accepts : Database → AssetEntity → Bool

/-- The database, and the assets that have been handed over to be saved after an analysis. -/
structure State where
  db : Database
  handed : List AssetEntity

/-! ## The processor -/

namespace Database
variable (db : Database)

def findOneByAddressAndChain (asset : AssetReference) : Option AssetEntity := db.assets asset.key

/-- `MAX_INVALID_ASSET_RETRY`. -/
def maxInvalidAssetRetry : Nat := 5

def isAssetInvalid (asset : AssetReference) : Bool :=
  (db.retries asset.key).any (maxInvalidAssetRetry ≤ ·)

def increaseInvalidRetries (asset : AssetReference) : Database :=
  { db with
    retries := Function.update db.retries asset.key (some ((db.retries asset.key).getD 0 + 1)) }

def cleanInvalidAsset (asset : AssetReference) : Database :=
  { db with retries := Function.update db.retries asset.key none }

def store (asset : AssetEntity) : Database where
  assets := Function.update db.assets asset.key (some asset)
  retries := db.retries
  key_eq := by
    intro k e h
    rcases eq_or_ne k asset.key with rfl | hne
    · rw [Function.update_self] at h
      cases h
      rfl
    · rw [Function.update_of_ne hne] at h
      exact db.key_eq k e h

end Database

def isZeroAddress (address : Address) : Bool :=
  address = "0x0000000000000000000000000000000000000000"

def calculateRank (address : Address) (metadata : AssetMetadata) : JsValue :=
  if isZeroAddress address then .num 1
  else if (metadata.get "marketCapRank").truthy then metadata.get "marketCapRank"
  else if (metadata.get "coingeckoRank").truthy then metadata.get "coingeckoRank"
  else if (metadata.get "coinmarketcapId").truthy || (metadata.get "coingeckoId").truthy then
    .num 10000
  else .null

section
variable (graph : AssetGraph) (S : Surroundings)

/-- The url of the largest icon, the last one of those. -/
def loadAssetIcons (asset : AssetReference) (icons : List AssetIcon) : Option String :=
  let savedIcons := S.uploadAssetIcons asset icons
  let largestIcon := savedIcons.foldl
    (fun largest current => if largest.fileSize ≤ current.fileSize then current else largest)
    ⟨none, 0⟩
  largestIcon.url

/-- The error of a save that is refused. -/
def refused : String := "save"

def save (asset : AssetEntity) (db : Database) : Except String AssetEntity × Database :=
  if S.accepts db asset then (.ok asset, db.store asset) else (.error refused, db)

/-- What a request ends with: an asset, nothing, or an error. -/
abbrev Answer (β : Type) := Except String (Option β)

/-- An asset with the metadata of a request, and tracked if the request says so. -/
def updatedAsset (asset : AssetEntity) (request : AssetProcessingRequest) : AssetEntity :=
  let metadata := JsObject.assignAll asset.metadata request.metadata
  { asset with
    metadata
    rank := calculateRank asset.asset.address metadata
    isTracked := if request.isTracked && !asset.isTracked then request.isTracked
      else asset.isTracked }

def updateAsset (asset : AssetEntity) (request : AssetProcessingRequest) (s : State) :
    Answer AssetEntity × State :=
  match save S (updatedAsset asset request) s.db with
  | (.ok _, db) => (.ok (some (updatedAsset asset request)), { s with db })
  | (.error e, db) => (.error e, { s with db })

/-- The loop over the underlying tokens, which are processed for the asset of a request: `tokens`
are all of them, and the last argument those that are left. -/
def processTokens (process : AssetProcessingRequest → State → Option (Answer AssetEntity × State))
    (request : AssetProcessingRequest) (tokens : List Address) :
    List Address → State → Option (Answer (List AssetUnderlyingEntity) × State)
  | [], s => some (.ok (some []), s)
  | underlyingAddress :: rest, s =>
    match process ⟨request.chainId, underlyingAddress, false, [], request.forceUpdate⟩ s with
    | none => none
    | some (.error e, s) => some (.error e, s)
    | some (.ok none, s) => some (.ok none, s)
    | some (.ok (some underlyingAsset), s) =>
      match processTokens process request tokens rest s with
      | some (.ok (some underlying), s) =>
        some (.ok (some (⟨tokens.idxOf underlyingAddress, underlyingAsset.asset⟩ :: underlying)), s)
      | other => other

/-- The entity that an analysis gives. -/
def processingAsset (request : AssetProcessingRequest) (analysis : AssetAnalysisResult)
    (underlying : List AssetUnderlyingEntity) : AssetEntity where
  asset := request.asset
  symbol := analysis.symbol
  name := analysis.name
  decimals := analysis.decimals
  rank := calculateRank request.address analysis.metadata
  isTracked := analysis.isTracked || request.isTracked
  metadata := analysis.metadata
  icon := loadAssetIcons S request.asset analysis.icons
  categories := S.findOrCreate analysis.categories
  underlying

/-- What follows the loop. -/
def saveProcessed (request : AssetProcessingRequest) (analysis : AssetAnalysisResult)
    (underlying : List AssetUnderlyingEntity) (s : State) : Answer AssetEntity × State :=
  let asset := processingAsset S request analysis underlying
  let handed := s.handed ++ [asset]
  match save S asset s.db with
  | (.ok savedAsset, db) => (.ok (some savedAsset), ⟨db.cleanInvalidAsset request.asset, handed⟩)
  | (.error e, db) => (.error e, ⟨db, handed⟩)

/-- The block that is tried. -/
def tryProcess (process : AssetProcessingRequest → State → Option (Answer AssetEntity × State))
    (request : AssetProcessingRequest) (s : State) : Option (Answer AssetEntity × State) :=
  match (s.db.findOneByAddressAndChain request.asset).filter fun _ => !request.forceUpdate with
  | some existingAsset => some (updateAsset S existingAsset request s)
  | none =>
    if !request.forceUpdate && s.db.isAssetInvalid request.asset then some (.ok none, s)
    else
      match graph.analyseAsset request.asset with
      | none => some (.ok none, { s with db := s.db.increaseInvalidRetries request.asset })
      | some analysis =>
        match processTokens process request analysis.tokens analysis.tokens s with
        | none => none
        | some (.error e, s) => some (.error e, s)
        | some (.ok none, s) => some (.ok none, s)
        | some (.ok (some underlying), s) => some (saveProcessed S request analysis underlying s)

/-- `processAsset`, with a bound on the depth of the calls: nothing comes back where it is too
small. -/
def processAsset : Nat → AssetProcessingRequest → State → Option (Answer AssetEntity × State)
  | 0, _, _ => none
  | depth + 1, request, s =>
    match tryProcess graph S (processAsset depth) request s with
    | some (.error e, s) =>
      some (.error e, { s with db := s.db.increaseInvalidRetries request.asset })
    | other => other

end

/-! ## What is claimed -/

/-- The underlying tokens of an entity are those of its analysis, at the positions from 0 on. -/
def Numbered (graph : AssetGraph) (e : AssetEntity) : Prop :=
  ∃ analysis, graph.analyseAsset e.asset = some analysis ∧
    e.underlying.map (·.underlyingAsset.key) =
      analysis.tokens.map (fun a => (⟨e.asset.chainId, a⟩ : AssetReference).key) ∧
    e.underlying.map (·.position) = List.range analysis.tokens.length

/-- The processing of a request comes to an end, and numbers what it hands over to be saved. -/
def NumbersInOrder (graph : AssetGraph) (S : Surroundings) (request : AssetProcessingRequest)
    (db : Database) : Prop :=
  ∃ depth answer s, processAsset graph S depth request ⟨db, []⟩ = some (answer, s) ∧
    ∀ e ∈ s.handed, Numbered graph e

/-- The search for the assets that a request leads to: those in the database are settled, if they
need no update, and invalid ones have nothing below them. -/
def descent (graph : AssetGraph) (db : Database) (chainId : Nat) (forceUpdate : Bool) :
    Descent Address where
  settled a := forceUpdate = false ∧ (db.findOneByAddressAndChain ⟨chainId, a⟩).isSome
  below a :=
    if !forceUpdate && db.isAssetInvalid ⟨chainId, a⟩ then none
    else (graph.analyseAsset ⟨chainId, a⟩).map AssetAnalysisResult.tokens

section
variable {graph : AssetGraph} {db : Database} {chainId : Nat} {forceUpdate : Bool}

theorem finitelyBelow_descent : (descent graph db chainId forceUpdate).FinitelyBelow := by
  refine graph.addresses.toFinset.finite_toSet.subset ?_
  intro b ⟨a, list, hbelow, hb⟩
  change (if _ then none else _) = some list at hbelow
  split at hbelow
  · cases hbelow
  · obtain ⟨analysis, hanalysis, rfl⟩ := Option.map_eq_some_iff.mp hbelow
    rw [Finset.mem_coe, List.mem_toFinset]
    exact graph.tokens_mem _ _ hanalysis b hb

end

/-! ## Deeper bounds -/

section
variable {graph : AssetGraph} {S : Surroundings}
variable {p q : AssetProcessingRequest → State → Option (Answer AssetEntity × State)}

theorem processTokens_mono (h : ∀ request s r, p request s = some r → q request s = some r)
    {request : AssetProcessingRequest} {tokens rest : List Address} {s : State}
    {r : Answer (List AssetUnderlyingEntity) × State}
    (hr : processTokens p request tokens rest s = some r) :
    processTokens q request tokens rest s = some r := by
  induction rest generalizing s r with
  | nil => exact hr
  | cons a rest ih =>
    rw [processTokens] at hr
    rw [processTokens]
    cases hp : p ⟨request.chainId, a, false, [], request.forceUpdate⟩ s with
    | none =>
      rw [hp] at hr
      cases hr
    | some outcome =>
      rw [hp] at hr
      rw [h _ _ _ hp]
      obtain ⟨answer | asset, s'⟩ := outcome
      · exact hr
      · cases asset with
        | none => exact hr
        | some asset =>
          simp only at hr ⊢
          cases hrest : processTokens p request tokens rest s' with
          | none =>
            rw [hrest] at hr
            cases hr
          | some outcome => rwa [ih hrest, ← hrest]

theorem processAsset_succ {n : Nat} {request : AssetProcessingRequest} {s : State}
    {r : Answer AssetEntity × State} (h : processAsset graph S n request s = some r) :
    processAsset graph S (n + 1) request s = some r := by
  induction n generalizing request s r with
  | zero => cases h
  | succ n ih =>
    have htry : ∀ {r}, tryProcess graph S (processAsset graph S n) request s = some r →
        tryProcess graph S (processAsset graph S (n + 1)) request s = some r := by
      intro r hr
      rw [tryProcess] at hr
      rw [tryProcess]
      split
      · next hfound => rwa [hfound] at hr
      · next hfound =>
        rw [hfound] at hr
        simp only at hr
        split
        · next hinvalid => rwa [if_pos hinvalid] at hr
        · next hinvalid =>
          rw [if_neg hinvalid] at hr
          cases hanalysis : graph.analyseAsset request.asset with
          | none => rwa [hanalysis] at hr
          | some analysis =>
            rw [hanalysis] at hr
            simp only at hr ⊢
            cases htokens : processTokens (processAsset graph S n) request analysis.tokens
                analysis.tokens s with
            | none =>
              rw [htokens] at hr
              cases hr
            | some outcome => rwa [processTokens_mono (fun _ _ _ => ih) htokens, ← htokens]
    rw [processAsset] at h
    rw [processAsset]
    cases hr : tryProcess graph S (processAsset graph S n) request s with
    | none =>
      rw [hr] at h
      cases h
    | some r' => rwa [htry hr, ← hr]

theorem processAsset_mono {n m : Nat} (hle : n ≤ m) {request : AssetProcessingRequest} {s : State}
    {r : Answer AssetEntity × State} (h : processAsset graph S n request s = some r) :
    processAsset graph S m request s = some r := by
  induction hle with
  | refl => exact h
  | step _ ih => exact processAsset_succ ih

end

/-! ## What a run keeps -/

/-- An asset with a key has been handed over to be saved. -/
def Handed (s : State) (k : AssetCacheKey) : Prop := ∃ e ∈ s.handed, e.key = k

theorem Handed.mono {s s' : State} {k : AssetCacheKey} (h : Handed s k)
    (hs : s.handed ⊆ s'.handed) : Handed s' k := by
  obtain ⟨e, he, hk⟩ := h
  exact ⟨e, hs he, hk⟩

section
variable (graph : AssetGraph) (S : Surroundings) (db : Database) (chainId : Nat)
variable (forceUpdate : Bool) (root : Address)

/-- The key of an address on the chain. -/
def keyOf (a : Address) : AssetCacheKey := (⟨chainId, a⟩ : AssetReference).key

/-- An entity was made of the analysis of an asset that the search gets to. -/
def Made (e : AssetEntity) : Prop :=
  ∃ a analysis, ReflTransGen (descent graph db chainId forceUpdate).Follows root a ∧
    ¬ (descent graph db chainId forceUpdate).settled a ∧
    (descent graph db chainId forceUpdate).Settles a ∧
    e.asset = ⟨chainId, a⟩ ∧ graph.analyseAsset ⟨chainId, a⟩ = some analysis ∧
    e.underlying.map (·.underlyingAsset.key) = analysis.tokens.map (keyOf chainId) ∧
    e.underlying.map (·.position) = analysis.tokens.map (analysis.tokens.idxOf ·)

/-- The database has what it had before the run and what has been handed over, and with an asset
those below it. -/
structure Inv (s : State) : Prop where
  known : ∀ a, (s.db.assets (keyOf chainId a)).isSome ↔
    (db.assets (keyOf chainId a)).isSome ∨ Handed s (keyOf chainId a)
  made : ∀ e ∈ s.handed, Made graph db chainId forceUpdate root e
  closed : ∀ a b, Handed s (keyOf chainId a) →
    (descent graph db chainId forceUpdate).Step a b →
    ¬ (descent graph db chainId forceUpdate).settled b → Handed s (keyOf chainId b)

/-- The retries of what is not in the database are as before the run. -/
def Untouched (s : State) : Prop :=
  ∀ a, s.db.assets (keyOf chainId a) = none →
    s.db.retries (keyOf chainId a) = db.retries (keyOf chainId a)

/-- All assets that the search gets to and settles have been handed over. -/
def Covered (s : State) (a : Address) : Prop :=
  ∀ b, ReflTransGen (descent graph db chainId forceUpdate).Follows a b →
    (descent graph db chainId forceUpdate).Settles b →
    ¬ (descent graph db chainId forceUpdate).settled b → Handed s (keyOf chainId b)

/-- A run that gave a list of assets, each of which is in the database now. -/
structure Gave (s s' : State) (list : List Address) : Prop where
  settles : ∀ a ∈ list, (descent graph db chainId forceUpdate).Settles a
  handed : ∀ a ∈ list, ¬ (descent graph db chainId forceUpdate).settled a →
    Handed s' (keyOf chainId a)
  grows : s.handed ⊆ s'.handed
  inv : Inv graph db chainId forceUpdate root s'
  untouched : Untouched db chainId s'

/-- A run that gave nothing, as the search of an asset stops. -/
structure GaveUp (s s' : State) (a : Address) : Prop where
  stops : (descent graph db chainId forceUpdate).Stops a
  covered : Covered graph db chainId forceUpdate s' a
  grows : s.handed ⊆ s'.handed
  inv : Inv graph db chainId forceUpdate root s'

/-- A run that ended with an error, as the database refused to save an asset. -/
structure Failed (s' : State) : Prop where
  made : ∀ e ∈ s'.handed, Made graph db chainId forceUpdate root e
  refused : ∃ db e, S.accepts db e = false

/-- What the processing of an asset ends with. -/
def AssetOutcome (s : State) (a : Address) : Answer AssetEntity × State → Prop
  | (.ok (some e), s') => e.key = keyOf chainId a ∧ Gave graph db chainId forceUpdate root s s' [a]
  | (.ok none, s') => GaveUp graph db chainId forceUpdate root s s' a
  | (.error _, s') => Failed graph S db chainId forceUpdate root s'

/-- What the loop over the tokens of an asset ends with. -/
def TokensOutcome (s : State) (tokens rest : List Address) :
    Answer (List AssetUnderlyingEntity) × State → Prop
  | (.ok (some underlying), s') =>
    underlying.map (·.underlyingAsset.key) = rest.map (keyOf chainId) ∧
      underlying.map (·.position) = rest.map (tokens.idxOf ·) ∧
      Gave graph db chainId forceUpdate root s s' rest
  | (.ok none, s') => ∃ s₁ done b after, rest = done ++ b :: after ∧
    Gave graph db chainId forceUpdate root s s₁ done ∧
    GaveUp graph db chainId forceUpdate root s₁ s' b
  | (.error _, s') => Failed graph S db chainId forceUpdate root s'

end

section
variable {graph : AssetGraph} {S : Surroundings} {db : Database} {chainId : Nat}
variable {forceUpdate : Bool} {root a b : Address} {s s' s'' : State}

theorem settled_congr (h : keyOf chainId a = keyOf chainId b) :
    (descent graph db chainId forceUpdate).settled a ↔
      (descent graph db chainId forceUpdate).settled b := by
  change forceUpdate = false ∧ (db.assets (keyOf chainId a)).isSome ↔
    forceUpdate = false ∧ (db.assets (keyOf chainId b)).isSome
  rw [h]

theorem below_congr (h : keyOf chainId a = keyOf chainId b) :
    (descent graph db chainId forceUpdate).below a =
      (descent graph db chainId forceUpdate).below b := by
  change (if !forceUpdate && (db.retries (keyOf chainId a)).any _ then none else _) =
    if !forceUpdate && (db.retries (keyOf chainId b)).any _ then none else _
  rw [h, graph.analyseAsset_congr ⟨chainId, a⟩ ⟨chainId, b⟩ h]

theorem Inv.settles_of_handed (H : Inv graph db chainId forceUpdate root s)
    (h : Handed s (keyOf chainId a)) : (descent graph db chainId forceUpdate).Settles a := by
  obtain ⟨e, he, hkey⟩ := h
  obtain ⟨b, _, -, -, hsettles, hasset, -⟩ := H.made e he
  have hkey' : keyOf chainId b = keyOf chainId a := by rw [← hkey, AssetEntity.key, hasset, keyOf]
  exact hsettles.congr (settled_congr hkey') (below_congr hkey')

/-- With an asset that has been handed over, all that its search gets to has been. -/
theorem Inv.covered (H : Inv graph db chainId forceUpdate root s)
    (h : ¬ (descent graph db chainId forceUpdate).settled a → Handed s (keyOf chainId a)) :
    Covered graph db chainId forceUpdate s a := by
  intro b hb hsettles hsettled
  clear hsettles
  induction hb with
  | refl => exact h hsettled
  | tail _ hstep ih => exact H.closed _ _ (ih hstep.1) hstep.step hsettled

theorem Covered.mono (H : Covered graph db chainId forceUpdate s a)
    (hs : s.handed ⊆ s'.handed) : Covered graph db chainId forceUpdate s' a :=
  fun b hb hsettles hsettled => (H b hb hsettles hsettled).mono hs

theorem Gave.nil (H : Inv graph db chainId forceUpdate root s) (hs : Untouched db chainId s) :
    Gave graph db chainId forceUpdate root s s [] where
  settles := by simp
  handed := by simp
  grows := List.Subset.refl _
  inv := H
  untouched := hs

theorem Gave.cons {rest : List Address} (H : Gave graph db chainId forceUpdate root s s' [a])
    (H' : Gave graph db chainId forceUpdate root s' s'' rest) :
    Gave graph db chainId forceUpdate root s s'' (a :: rest) where
  settles := List.forall_mem_cons.mpr ⟨H.settles a (List.mem_singleton_self a), H'.settles⟩
  handed := List.forall_mem_cons.mpr
    ⟨fun h => (H.handed a (List.mem_singleton_self a) h).mono H'.grows, H'.handed⟩
  grows := List.Subset.trans H.grows H'.grows
  inv := H'.inv
  untouched := H'.untouched

end

section
variable {graph : AssetGraph} {S : Surroundings} {db : Database} {root : Address}
variable {request : AssetProcessingRequest} {s : State}

/-- Saving an asset that stands under the key of another makes it known there. -/
theorem isSome_store (db : Database) (e : AssetEntity) (k : AssetCacheKey) :
    ((db.store e).assets k).isSome ↔ (db.assets k).isSome ∨ e.key = k := by
  change (Function.update db.assets e.key (some e) k).isSome ↔ _
  rcases eq_or_ne k e.key with rfl | hne
  · rw [Function.update_self]
    exact iff_of_true rfl (.inr rfl)
  · rw [Function.update_of_ne hne, or_iff_left hne.symm]

theorem handed_append (s : State) (db' : Database) (e : AssetEntity) (k : AssetCacheKey) :
    Handed ⟨db', s.handed ++ [e]⟩ k ↔ Handed s k ∨ e.key = k := by
  simp only [Handed, List.mem_append, List.mem_singleton, or_and_right, exists_or, exists_eq_left]

/-- An asset that is found, and needs no update, is settled. -/
theorem updateAsset_outcome {existingAsset : AssetEntity}
    (H : Inv graph db request.chainId request.forceUpdate root s)
    (hs : Untouched db request.chainId s)
    (hfound : s.db.findOneByAddressAndChain request.asset = some existingAsset)
    (hforce : request.forceUpdate = false) :
    AssetOutcome graph S db request.chainId request.forceUpdate root s request.address
      (updateAsset S existingAsset request s) := by
  have hkey : existingAsset.key = keyOf request.chainId request.address := s.db.key_eq _ _ hfound
  have hknown : (s.db.assets (keyOf request.chainId request.address)).isSome := by
    change s.db.assets (keyOf request.chainId request.address) = some existingAsset at hfound
    rw [hfound]
    rfl
  have hupdated : (updatedAsset existingAsset request).key = keyOf request.chainId request.address :=
    hkey
  by_cases haccepts : S.accepts s.db (updatedAsset existingAsset request)
  · rw [updateAsset, save, if_pos haccepts]
    have hassets : ∀ k, ((s.db.store (updatedAsset existingAsset request)).assets k).isSome ↔
        (s.db.assets k).isSome := by
      intro k
      rw [isSome_store, hupdated, or_iff_left_of_imp]
      intro h
      rwa [← h]
    refine ⟨hupdated, ?_, ?_, List.Subset.refl _, ⟨?_, H.made, H.closed⟩, ?_⟩
    · rw [List.forall_mem_singleton]
      rcases (H.known _).mp hknown with h | h
      · exact .settled ⟨hforce, h⟩
      · exact H.settles_of_handed h
    · rw [List.forall_mem_singleton]
      exact fun hsettled => ((H.known _).mp hknown).resolve_left fun h => hsettled ⟨hforce, h⟩
    · exact fun a => (hassets _).trans (H.known a)
    · intro a ha
      apply hs a
      rw [← Option.not_isSome_iff_eq_none, ← hassets, Option.not_isSome_iff_eq_none]
      exact ha
  · rw [updateAsset, save, if_neg haccepts]
    exact ⟨H.made, _, _, Bool.eq_false_iff.mpr haccepts⟩

end

/-! ## The loop and the asset -/

section
variable {graph : AssetGraph} {S : Surroundings} {db : Database} {root a : Address}
variable {request : AssetProcessingRequest} {s : State}
variable {process : AssetProcessingRequest → State → Option (Answer AssetEntity × State)}

/-- The loop over the tokens ends with the first that is given up, or when all are settled. -/
theorem processTokens_outcome {tokens rest : List Address} (before : List Address)
    {r : Answer (List AssetUnderlyingEntity) × State}
    (hsettled : ¬ (descent graph db request.chainId request.forceUpdate).settled a)
    (hbelow : (descent graph db request.chainId request.forceUpdate).below a =
      some (before ++ rest))
    (hbefore : ∀ b ∈ before, (descent graph db request.chainId request.forceUpdate).Settles b)
    (hprocess : ∀ b s r, (descent graph db request.chainId request.forceUpdate).Follows a b →
      Inv graph db request.chainId request.forceUpdate root s → Untouched db request.chainId s →
      process ⟨request.chainId, b, false, [], request.forceUpdate⟩ s = some r →
      AssetOutcome graph S db request.chainId request.forceUpdate root s b r)
    (H : Inv graph db request.chainId request.forceUpdate root s)
    (hs : Untouched db request.chainId s)
    (hr : processTokens process request tokens rest s = some r) :
    TokensOutcome graph S db request.chainId request.forceUpdate root s tokens rest r := by
  induction rest generalizing before s r with
  | nil =>
    cases hr
    exact ⟨rfl, rfl, .nil H hs⟩
  | cons b rest ih =>
    have hfollows : (descent graph db request.chainId request.forceUpdate).Follows a b :=
      ⟨hsettled, before, rest, hbelow, fun c hc => (hbefore c hc).sound⟩
    rw [processTokens] at hr
    cases hp : process ⟨request.chainId, b, false, [], request.forceUpdate⟩ s with
    | none =>
      rw [hp] at hr
      cases hr
    | some outcome =>
      have hb := hprocess b s outcome hfollows H hs hp
      rw [hp] at hr
      obtain ⟨e | asset, s'⟩ := outcome
      · cases hr
        exact hb
      · cases asset with
        | none =>
          cases hr
          exact ⟨s, [], b, rest, rfl, .nil H hs, hb⟩
        | some asset =>
          obtain ⟨hkey, hgave⟩ := hb
          simp only at hr
          cases hrest : processTokens process request tokens rest s' with
          | none =>
            rw [hrest] at hr
            cases hr
          | some outcome =>
            have hbelow' : (descent graph db request.chainId request.forceUpdate).below a =
                some ((before ++ [b]) ++ rest) := by
              rw [hbelow, List.append_assoc, List.singleton_append]
            have hbefore' : ∀ c ∈ before ++ [b],
                (descent graph db request.chainId request.forceUpdate).Settles c :=
              List.forall_mem_append.mpr ⟨hbefore, hgave.settles⟩
            have hrest' := ih _ hbelow' hbefore' hgave.inv hgave.untouched hrest
            rw [hrest] at hr
            obtain ⟨e | underlying, s''⟩ := outcome
            · cases hr
              exact hrest'
            · cases underlying with
              | none =>
                cases hr
                obtain ⟨s₁, done, c, after, rfl, hdone, hup⟩ := hrest'
                exact ⟨s₁, b :: done, c, after, rfl, hgave.cons hdone, hup⟩
              | some underlying =>
                cases hr
                obtain ⟨hkeys, hpositions, hrest'⟩ := hrest'
                refine ⟨?_, ?_, hgave.cons hrest'⟩
                · rw [List.map_cons, List.map_cons, hkeys]
                  exact congrArg (· :: _) hkey
                · rw [List.map_cons, List.map_cons, hpositions]

/-- What is handed over was made of the analysis, and is in the database if it is accepted. -/
theorem saveProcessed_outcome {s' : State} {analysis : AssetAnalysisResult}
    {underlying : List AssetUnderlyingEntity}
    (hreached : ReflTransGen (descent graph db request.chainId request.forceUpdate).Follows root
      request.address)
    (hsettled : ¬ (descent graph db request.chainId request.forceUpdate).settled request.address)
    (hbelow : (descent graph db request.chainId request.forceUpdate).below request.address =
      some analysis.tokens)
    (hanalysis : graph.analyseAsset request.asset = some analysis)
    (hkeys : underlying.map (·.underlyingAsset.key) = analysis.tokens.map (keyOf request.chainId))
    (hpositions : underlying.map (·.position) = analysis.tokens.map (analysis.tokens.idxOf ·))
    (hgave : Gave graph db request.chainId request.forceUpdate root s s' analysis.tokens) :
    AssetOutcome graph S db request.chainId request.forceUpdate root s request.address
      (saveProcessed S request analysis underlying s') := by
  have hkey : (processingAsset S request analysis underlying).key =
      keyOf request.chainId request.address := rfl
  have hsettles : (descent graph db request.chainId request.forceUpdate).Settles request.address :=
    .all hsettled hbelow hgave.settles
  have hmade : ∀ e ∈ s'.handed ++ [processingAsset S request analysis underlying],
      Made graph db request.chainId request.forceUpdate root e := by
    rw [List.forall_mem_append, List.forall_mem_singleton]
    exact ⟨hgave.inv.made, request.address, analysis, hreached, hsettled, hsettles, rfl, hanalysis,
      hkeys, hpositions⟩
  rw [saveProcessed]
  by_cases haccepts : S.accepts s'.db (processingAsset S request analysis underlying)
  · rw [save, if_pos haccepts]
    refine ⟨hkey, ?_, ?_, ?_, ⟨?_, hmade, ?_⟩, ?_⟩
    · rwa [List.forall_mem_singleton]
    · rw [List.forall_mem_singleton]
      exact fun _ => (handed_append ..).mpr (.inr hkey)
    · exact List.Subset.trans hgave.grows (List.subset_append_left _ _)
    · intro b
      rw [handed_append, ← or_assoc, ← hgave.inv.known b]
      exact isSome_store ..
    · intro b c hb hstep hc
      rw [handed_append] at hb ⊢
      rcases hb with hb | hb
      · exact .inl (hgave.inv.closed b c hb hstep hc)
      · obtain ⟨-, list, hlist, hmem⟩ := hstep
        rw [← below_congr (hkey.symm.trans hb), hbelow] at hlist
        cases hlist
        exact .inl (hgave.handed c hmem hc)
    · intro b hb
      have hnone := mt (isSome_store s'.db _ _).mpr (Option.not_isSome_iff_eq_none.mpr hb)
      obtain ⟨hknown, hne⟩ := not_or.mp hnone
      rw [hkey] at hne
      refine (Function.update_of_ne (Ne.symm hne) _ _).trans ?_
      exact hgave.untouched b (Option.not_isSome_iff_eq_none.mp hknown)
  · rw [save, if_neg haccepts]
    exact ⟨hmade, _, _, Bool.eq_false_iff.mpr haccepts⟩

end

/-! ## Runs -/

section
variable {graph : AssetGraph} {S : Surroundings} {db : Database} {root : Address}
variable {request : AssetProcessingRequest} {s : State}

/-- What is searched is not settled, if it is not found or has to be updated. -/
theorem not_settled_of_filter (H : Inv graph db request.chainId request.forceUpdate root s)
    (h : (s.db.findOneByAddressAndChain request.asset).filter (fun _ => !request.forceUpdate) = none) :
    ¬ (descent graph db request.chainId request.forceUpdate).settled request.address := by
  rintro ⟨hforce, hfound⟩
  obtain ⟨e, he⟩ := Option.isSome_iff_exists.mp ((H.known request.address).mpr (.inl hfound))
  change s.db.findOneByAddressAndChain request.asset = some e at he
  rw [hforce, he] at h
  cases h

/-- Until it is searched, an asset is as invalid as before the run. -/
theorem isAssetInvalid_eq (hs : Untouched db request.chainId s)
    (h : (s.db.findOneByAddressAndChain request.asset).filter (fun _ => !request.forceUpdate) = none) :
    (!request.forceUpdate && s.db.isAssetInvalid request.asset) =
      (!request.forceUpdate && db.isAssetInvalid request.asset) := by
  cases hforce : request.forceUpdate with
  | true => rfl
  | false =>
    have hnone : s.db.assets (keyOf request.chainId request.address) = none := by
      cases hfound : s.db.findOneByAddressAndChain request.asset with
      | none => exact hfound
      | some e =>
        rw [hforce, hfound] at h
        cases h
    have hretries : s.db.retries request.asset.key = db.retries request.asset.key := hs _ hnone
    rw [Database.isAssetInvalid, Database.isAssetInvalid, hretries]

/-- What is searched is given up at once, if nothing is to be looked for below it. -/
theorem Inv.gaveUp {s' : State} (H : Inv graph db request.chainId request.forceUpdate root s)
    (hassets : s'.db.assets = s.db.assets) (hhanded : s'.handed = s.handed)
    (hsettled : ¬ (descent graph db request.chainId request.forceUpdate).settled request.address)
    (hbelow : (descent graph db request.chainId request.forceUpdate).below request.address = none) :
    GaveUp graph db request.chainId request.forceUpdate root s s' request.address where
  stops := .dead hsettled hbelow
  covered := by
    intro b hb hsettles
    rcases hb.cases_head with rfl | ⟨c, ⟨-, _, _, h, -⟩, -⟩
    · exact absurd hsettles (Descent.Stops.dead hsettled hbelow).not_settles
    · rw [hbelow] at h
      cases h
  grows := hhanded ▸ List.Subset.refl _
  inv := by
    obtain ⟨db', handed⟩ := s'
    cases hhanded
    refine ⟨fun a => ?_, H.made, H.closed⟩
    rw [hassets]
    exact H.known a

/-- What is searched is given up with a token, after others that were given. -/
theorem Gave.gaveUp {s₁ s' : State} {done after : List Address} {b : Address}
    (hsettled : ¬ (descent graph db request.chainId request.forceUpdate).settled request.address)
    (hbelow : (descent graph db request.chainId request.forceUpdate).below request.address =
      some (done ++ b :: after))
    (hdone : Gave graph db request.chainId request.forceUpdate root s s₁ done)
    (hup : GaveUp graph db request.chainId request.forceUpdate root s₁ s' b) :
    GaveUp graph db request.chainId request.forceUpdate root s s' request.address where
  stops := .first hsettled hbelow hdone.settles hup.stops
  covered := by
    intro c hc hsettles hnot
    rcases hc.cases_head with rfl | ⟨d, hd, hdc⟩
    · exact absurd hsettles
        (Descent.Stops.first hsettled hbelow hdone.settles hup.stops).not_settles
    · rcases Descent.follows_of_stops finitelyBelow_descent hbelow hup.stops hd with hmem | rfl
      · have hcovered := hdone.inv.covered (hdone.handed d hmem)
        exact hcovered.mono hup.grows c hdc hsettles hnot
      · exact hup.covered c hdc hsettles hnot
  grows := List.Subset.trans hdone.grows hup.grows
  inv := hup.inv

/-- What is tried for an asset ends as it should, if the processing of what is below it does. -/
theorem tryProcess_outcome
    {process : AssetProcessingRequest → State → Option (Answer AssetEntity × State)}
    {r : Answer AssetEntity × State}
    (hprocess : ∀ b s r, (descent graph db request.chainId request.forceUpdate).Follows
        request.address b →
      Inv graph db request.chainId request.forceUpdate root s → Untouched db request.chainId s →
      process ⟨request.chainId, b, false, [], request.forceUpdate⟩ s = some r →
      AssetOutcome graph S db request.chainId request.forceUpdate root s b r)
    (hreached : ReflTransGen (descent graph db request.chainId request.forceUpdate).Follows root
      request.address)
    (H : Inv graph db request.chainId request.forceUpdate root s)
    (hs : Untouched db request.chainId s) (hr : tryProcess graph S process request s = some r) :
    AssetOutcome graph S db request.chainId request.forceUpdate root s request.address r := by
  rw [tryProcess] at hr
  split at hr
  · next existingAsset hfound =>
    cases hr
    obtain ⟨hfound, hforce⟩ := Option.filter_eq_some_iff.mp hfound
    exact updateAsset_outcome H hs hfound (Bool.not_eq_true' _ ▸ hforce)
  · next hfound =>
    have hsettled := not_settled_of_filter H hfound
    have hbelow : (descent graph db request.chainId request.forceUpdate).below request.address =
        if !request.forceUpdate && s.db.isAssetInvalid request.asset then none
        else (graph.analyseAsset request.asset).map AssetAnalysisResult.tokens := by
      rw [isAssetInvalid_eq hs hfound]
      rfl
    split at hr
    · next hinvalid =>
      cases hr
      rw [if_pos hinvalid] at hbelow
      exact H.gaveUp rfl rfl hsettled hbelow
    · next hinvalid =>
      rw [if_neg hinvalid] at hbelow
      split at hr
      · next hanalysis =>
        cases hr
        rw [hanalysis] at hbelow
        exact H.gaveUp rfl rfl hsettled hbelow
      · next analysis hanalysis =>
        rw [hanalysis] at hbelow
        cases htokens : processTokens process request analysis.tokens analysis.tokens s with
        | none =>
          rw [htokens] at hr
          cases hr
        | some outcome =>
          have houtcome := processTokens_outcome [] hsettled hbelow (by simp) hprocess H hs htokens
          rw [htokens] at hr
          obtain ⟨e | underlying, s'⟩ := outcome
          · cases hr
            exact houtcome
          · cases underlying with
            | none =>
              cases hr
              obtain ⟨s₁, done, b, after, hlist, hdone, hup⟩ := houtcome
              exact Gave.gaveUp hsettled (hbelow.trans (congrArg some hlist)) hdone hup
            | some underlying =>
              cases hr
              obtain ⟨hkeys, hpositions, hgave⟩ := houtcome
              exact saveProcessed_outcome hreached hsettled hbelow hanalysis hkeys hpositions hgave

/-- What a run is given back for an asset, by induction on the bound. -/
theorem processAsset_outcome {n : Nat} {r : Answer AssetEntity × State}
    (hr : processAsset graph S n request s = some r)
    (hreached : ReflTransGen (descent graph db request.chainId request.forceUpdate).Follows root
      request.address)
    (H : Inv graph db request.chainId request.forceUpdate root s)
    (hs : Untouched db request.chainId s) :
    AssetOutcome graph S db request.chainId request.forceUpdate root s request.address r := by
  induction n generalizing request s r with
  | zero => cases hr
  | succ n ih =>
    rw [processAsset] at hr
    cases hp : tryProcess graph S (processAsset graph S n) request s with
    | none =>
      rw [hp] at hr
      cases hr
    | some outcome =>
      have houtcome := tryProcess_outcome
        (fun b s r hb H hs hr => ih hr (hreached.tail hb) H hs) hreached H hs hp
      rw [hp] at hr
      obtain ⟨e | asset, s'⟩ := outcome
      · cases hr
        exact ⟨houtcome.made, houtcome.refused⟩
      · cases hr
        exact houtcome

end

/-! ## Searches that end -/

section
variable (graph : AssetGraph) (S : Surroundings) (db : Database) (root : Address)

/-- The processing of an address on a chain comes to an end in every state of a run. -/
def Ends (chainId : Nat) (forceUpdate : Bool) (a : Address) : Prop :=
  ∀ isTracked metadata s, ReflTransGen (descent graph db chainId forceUpdate).Follows root a →
    Inv graph db chainId forceUpdate root s → Untouched db chainId s →
    ∃ n r, processAsset graph S n ⟨chainId, a, isTracked, metadata, forceUpdate⟩ s = some r

end

section
variable {graph : AssetGraph} {S : Surroundings} {db : Database} {root a : Address}
variable {request : AssetProcessingRequest} {s : State} {chainId : Nat} {forceUpdate : Bool}

/-- A loop ends after tokens whose processing ends, if they are all or one of them is given up. -/
theorem processTokens_ends {tokens done after : List Address} (before : List Address)
    (hreached : ReflTransGen (descent graph db request.chainId request.forceUpdate).Follows root a)
    (hsettled : ¬ (descent graph db request.chainId request.forceUpdate).settled a)
    (hbelow : (descent graph db request.chainId request.forceUpdate).below a =
      some (before ++ (done ++ after)))
    (hbefore : ∀ b ∈ before, (descent graph db request.chainId request.forceUpdate).Settles b)
    (hends : ∀ b ∈ done, Ends graph S db root request.chainId request.forceUpdate b)
    (hlast : after = [] ∨
      ∃ b ∈ done, ¬ (descent graph db request.chainId request.forceUpdate).Settles b)
    (H : Inv graph db request.chainId request.forceUpdate root s)
    (hs : Untouched db request.chainId s) :
    ∃ n r, processTokens (processAsset graph S n) request tokens (done ++ after) s = some r := by
  induction done generalizing before s with
  | nil =>
    rcases hlast with rfl | ⟨b, hb, -⟩
    · exact ⟨0, _, rfl⟩
    · cases hb
  | cons b done ih =>
    have hfollows : (descent graph db request.chainId request.forceUpdate).Follows a b :=
      ⟨hsettled, before, done ++ after, hbelow, fun c hc => (hbefore c hc).sound⟩
    obtain ⟨hb, hdone⟩ := List.forall_mem_cons.mp hends
    obtain ⟨n, ⟨answer, s'⟩, hn⟩ := hb false [] s (hreached.tail hfollows) H hs
    have houtcome := processAsset_outcome hn (hreached.tail hfollows) H hs
    match answer, houtcome with
    | .error e, _ => exact ⟨n, (.error e, s'), by simp only [List.cons_append, processTokens, hn]⟩
    | .ok none, _ => exact ⟨n, (.ok none, s'), by simp only [List.cons_append, processTokens, hn]⟩
    | .ok (some asset), ⟨_, hgave⟩ =>
      have hbelow' : (descent graph db request.chainId request.forceUpdate).below a =
          some ((before ++ [b]) ++ (done ++ after)) := by
        rw [hbelow, List.append_assoc, List.singleton_append, List.cons_append]
      have hbefore' : ∀ c ∈ before ++ [b],
          (descent graph db request.chainId request.forceUpdate).Settles c :=
        List.forall_mem_append.mpr ⟨hbefore, hgave.settles⟩
      have hlast' : after = [] ∨
          ∃ c ∈ done, ¬ (descent graph db request.chainId request.forceUpdate).Settles c := by
        refine hlast.imp_right fun ⟨c, hc, hnot⟩ => ?_
        rcases List.mem_cons.mp hc with rfl | hc
        · exact absurd (hgave.settles c (List.mem_singleton_self c)) hnot
        · exact ⟨c, hc, hnot⟩
      obtain ⟨m, r, hm⟩ := ih _ hbelow' hbefore' hdone hlast' hgave.inv hgave.untouched
      have hb := processAsset_mono (le_max_left n m) hn
      have hrest := processTokens_mono
        (fun _ _ _ => processAsset_mono (le_max_right n m)) hm
      rw [List.cons_append]
      obtain ⟨e | underlying, s''⟩ := r
      · exact ⟨max n m, (.error e, s''), by simp only [processTokens, hb, hrest]⟩
      · cases underlying with
        | none => exact ⟨max n m, (.ok none, s''), by simp only [processTokens, hb, hrest]⟩
        | some underlying => exact ⟨max n m, _, by simp only [processTokens, hb, hrest]; rfl⟩

/-- The processing of an asset ends if the loop over its tokens does. -/
theorem processAsset_ends (H : Inv graph db request.chainId request.forceUpdate root s)
    (hs : Untouched db request.chainId s)
    (htokens : ∀ tokens, ¬ (descent graph db request.chainId request.forceUpdate).settled
        request.address →
      (descent graph db request.chainId request.forceUpdate).below request.address = some tokens →
      ∃ n r, processTokens (processAsset graph S n) request tokens tokens s = some r) :
    ∃ n r, processAsset graph S n request s = some r := by
  have htry : ∃ n r, tryProcess graph S (processAsset graph S n) request s = some r := by
    cases hfound : (s.db.findOneByAddressAndChain request.asset).filter
        (fun _ => !request.forceUpdate) with
    | some existingAsset => exact ⟨0, _, by rw [tryProcess, hfound]⟩
    | none =>
      by_cases hinvalid : !request.forceUpdate && s.db.isAssetInvalid request.asset
      · exact ⟨0, _, by rw [tryProcess, hfound]; exact if_pos hinvalid⟩
      · cases hanalysis : graph.analyseAsset request.asset with
        | none => exact ⟨0, _, by simp only [tryProcess, hfound, if_neg hinvalid, hanalysis]; rfl⟩
        | some analysis =>
          have hbelow : (descent graph db request.chainId request.forceUpdate).below
              request.address = some analysis.tokens := by
            change (if !request.forceUpdate && db.isAssetInvalid request.asset then none
              else (graph.analyseAsset request.asset).map AssetAnalysisResult.tokens) = _
            rw [← isAssetInvalid_eq hs hfound, if_neg hinvalid, hanalysis]
            rfl
          obtain ⟨n, ⟨answer, s'⟩, hn⟩ := htokens _ (not_settled_of_filter H hfound) hbelow
          refine ⟨n, ?_⟩
          simp only [tryProcess, hfound, if_neg hinvalid, hanalysis, hn]
          obtain e | underlying := answer
          · exact ⟨_, rfl⟩
          · cases underlying with
            | none => exact ⟨_, rfl⟩
            | some underlying => exact ⟨_, rfl⟩
  obtain ⟨n, ⟨answer, s'⟩, hn⟩ := htry
  refine ⟨n + 1, ?_⟩
  rw [processAsset, hn]
  obtain e | asset := answer
  · exact ⟨_, rfl⟩
  · exact ⟨_, rfl⟩

theorem ends_of_settles (h : (descent graph db chainId forceUpdate).Settles a) :
    Ends graph S db root chainId forceUpdate a := by
  induction h with
  | settled hsettled =>
    intro isTracked metadata s _ H hs
    exact processAsset_ends H hs fun _ hnot => absurd hsettled hnot
  | @all a tokens hsettled hbelow _ ih =>
    intro isTracked metadata s hreached H hs
    refine processAsset_ends H hs fun tokens' _ hbelow' => ?_
    rw [hbelow] at hbelow'
    cases hbelow'
    rw [← List.append_nil tokens] at hbelow
    have hloop : ∃ n r, processTokens (processAsset graph S n)
        ⟨chainId, a, isTracked, metadata, forceUpdate⟩ tokens (tokens ++ []) s = some r :=
      processTokens_ends [] hreached hsettled hbelow (by simp) ih (.inl rfl) H hs
    simpa only [List.append_nil] using hloop

theorem ends_of_stops (h : (descent graph db chainId forceUpdate).Stops a) :
    Ends graph S db root chainId forceUpdate a := by
  induction h with
  | dead _ hbelow =>
    intro isTracked metadata s _ H hs
    refine processAsset_ends H hs fun tokens _ hbelow' => ?_
    rw [hbelow] at hbelow'
    cases hbelow'
  | @first a before b after hsettled hbelow hbefore hstops ih =>
    intro isTracked metadata s hreached H hs
    refine processAsset_ends H hs fun tokens _ hbelow' => ?_
    rw [hbelow] at hbelow'
    cases hbelow'
    have hlist : before ++ b :: after = (before ++ [b]) ++ after := by simp
    rw [hlist] at hbelow ⊢
    refine processTokens_ends [] hreached hsettled hbelow (by simp) ?_ (.inr ?_) H hs
    · rw [List.forall_mem_append, List.forall_mem_singleton]
      exact ⟨fun c hc => ends_of_settles (hbefore c hc), ih⟩
    · exact ⟨b, List.mem_append_right _ (List.mem_singleton_self b), hstops.not_settles⟩

end

/-! ## The numbers of the tokens -/

section
variable {graph : AssetGraph} {S : Surroundings} {db : Database} {chainId : Nat}
variable {forceUpdate : Bool} {root : Address} {request : AssetProcessingRequest}

theorem inv_start : Inv graph db chainId forceUpdate root ⟨db, []⟩ := by
  have hnone : ∀ k, ¬ Handed ⟨db, []⟩ k := by
    intro k ⟨e, he, _⟩
    cases he
  exact ⟨fun a => (or_iff_left (hnone _)).symm, by simp, fun a b h => absurd h (hnone _)⟩

/-- What was made of an analysis is numbered if no token is repeated. -/
theorem Made.numbered {e : AssetEntity} (H : Made graph db chainId forceUpdate root e)
    (hnodup : ∀ a analysis, ReflTransGen (descent graph db chainId forceUpdate).Follows root a →
      ¬ (descent graph db chainId forceUpdate).settled a →
      (descent graph db chainId forceUpdate).Sound a →
      graph.analyseAsset ⟨chainId, a⟩ = some analysis → analysis.tokens.Nodup) :
    Numbered graph e := by
  obtain ⟨a, analysis, hreached, hsettled, hsettles, hasset, hanalysis, hkeys, hpositions⟩ := H
  refine ⟨analysis, hasset ▸ hanalysis, ?_, ?_⟩
  · rw [hkeys, hasset]
    rfl
  · rw [hpositions, map_idxOf_eq_range_iff]
    exact hnodup a analysis hreached hsettled hsettles.sound hanalysis

/-- What was made of an analysis repeats no token if it is numbered. -/
theorem Made.nodup {e : AssetEntity} (H : Made graph db chainId forceUpdate root e)
    (hnumbered : Numbered graph e) {analysis : AssetAnalysisResult}
    (hanalysis : graph.analyseAsset e.asset = some analysis) : analysis.tokens.Nodup := by
  obtain ⟨a, analysis', -, -, -, hasset, hanalysis', -, hpositions⟩ := H
  obtain ⟨analysis'', hanalysis'', -, hrange⟩ := hnumbered
  rw [hasset, hanalysis'] at hanalysis hanalysis''
  cases hanalysis
  cases hanalysis''
  rw [← map_idxOf_eq_range_iff, ← hpositions, hrange]

/-- If the database saves what it is given, a run that ends has handed over all that the search
gets to and settles. -/
theorem NumbersInOrder.ended (H : NumbersInOrder graph S request db)
    (haccepts : ∀ db e, S.accepts db e) :
    ((descent graph db request.chainId request.forceUpdate).Settles request.address ∨
        (descent graph db request.chainId request.forceUpdate).Stops request.address) ∧
      ∃ s, (∀ e ∈ s.handed, Numbered graph e) ∧
        Inv graph db request.chainId request.forceUpdate request.address s ∧
        Covered graph db request.chainId request.forceUpdate s request.address := by
  obtain ⟨n, answer, s, hrun, hnumbered⟩ := H
  have houtcome := processAsset_outcome hrun .refl inv_start fun _ _ => rfl
  match answer, houtcome with
  | .error _, ⟨_, db', e, hrefused⟩ =>
    rw [haccepts] at hrefused
    cases hrefused
  | .ok none, hup => exact ⟨.inr hup.stops, s, hnumbered, hup.inv, hup.covered⟩
  | .ok (some _), ⟨_, hgave⟩ =>
    have hmem := List.mem_singleton_self request.address
    exact ⟨.inl (hgave.settles _ hmem), s, hnumbered, hgave.inv,
      hgave.inv.covered (hgave.handed _ hmem)⟩

end

/-- Whatever the database accepts, processing comes to an end and numbers the tokens in their order
exactly when no asset that it gets to leads it back, and no asset that it gets to, and can be saved,
has a token twice. -/
theorem numbersInOrder_iff (graph : AssetGraph) (request : AssetProcessingRequest) (db : Database) :
    (∀ S, NumbersInOrder graph S request db) ↔
      AcyclicFrom (descent graph db request.chainId request.forceUpdate).Follows request.address ∧
      ∀ a analysis,
        ReflTransGen (descent graph db request.chainId request.forceUpdate).Follows
          request.address a →
        ¬ (descent graph db request.chainId request.forceUpdate).settled a →
        (descent graph db request.chainId request.forceUpdate).Sound a →
        graph.analyseAsset ⟨request.chainId, a⟩ = some analysis → analysis.tokens.Nodup := by
  constructor
  · intro H
    obtain ⟨hends, s, hnumbered, hinv, hcovered⟩ :=
      (H ⟨fun _ _ => [], id, fun _ _ => true⟩).ended fun _ _ => rfl
    refine ⟨(Descent.ends_iff finitelyBelow_descent).mp hends, ?_⟩
    intro a analysis hreached hsettled hsound hanalysis
    have hsettles := (Descent.settles_iff_sound finitelyBelow_descent).mpr hsound
    obtain ⟨e, he, hkey⟩ := hcovered a hreached hsettles hsettled
    refine (hinv.made e he).nodup (hnumbered e he) ?_
    rwa [graph.analyseAsset_congr _ ⟨request.chainId, a⟩ hkey]
  · rintro ⟨hacyclic, hnodup⟩ S
    obtain ⟨n, ⟨answer, s⟩, hrun⟩ : ∃ n r, processAsset graph S n request ⟨db, []⟩ = some r := by
      rcases (Descent.ends_iff finitelyBelow_descent).mpr hacyclic with h | h
      · exact ends_of_settles h _ _ _ .refl inv_start fun _ _ => rfl
      · exact ends_of_stops h _ _ _ .refl inv_start fun _ _ => rfl
    have hmade : ∀ e ∈ s.handed, Made graph db request.chainId request.forceUpdate
        request.address e := by
      have houtcome := processAsset_outcome hrun .refl inv_start fun _ _ => rfl
      match answer, houtcome with
      | .error _, hfailed => exact hfailed.made
      | .ok none, hup => exact hup.inv.made
      | .ok (some _), ⟨_, hgave⟩ => exact hgave.inv.made
    exact ⟨n, answer, s, hrun, fun e he => (hmade e he).numbered hnodup⟩

/-! ## An asset of itself -/

/-- An asset whose only underlying token it is itself. -/
def ownToken : AssetGraph where
  analyseAsset asset :=
    if asset.key = ⟨1, "0xa"⟩ then
      some ⟨some "A", some "A", some 18, false, [], [], [], some ["0xa"]⟩
    else none
  addresses := ["0xa"]
  tokens_mem := by
    intro asset analysis h a ha
    split at h
    · cases h
      exact ha
    · cases h
  analyseAsset_congr := by
    intro asset asset' h
    rw [h]

def emptyDatabase : Database := ⟨fun _ => none, fun _ => none, by simp⟩

/-- Its processing does not come to an end. -/
theorem ownToken_endless : ¬ NumbersInOrder ownToken ⟨fun _ _ => [], id, fun _ _ => true⟩
    ⟨1, "0xa", false, [], false⟩ emptyDatabase := by
  intro H
  have hends := (H.ended fun _ _ => rfl).1
  have hacyclic := (Descent.ends_iff finitelyBelow_descent).mp hends
  have hbelow : (descent ownToken emptyDatabase 1 false).below "0xa" = some ([] ++ "0xa" :: []) := by
    decide
  have hfollows : (descent ownToken emptyDatabase 1 false).Follows "0xa" "0xa" :=
    ⟨fun h => Bool.noConfusion h.2, [], [], hbelow, by simp⟩
  exact hacyclic _ .refl (.single hfollows)

end AssetsProcessor
end Assets
end DefiBackend
