import DefiBackend.Common.Address
import DefiBackend.Common.BigNumber
import DefiBackend.Common.Collections
import DefiBackend.Common.JsMap
import DefiBackend.Theory.Chunks

/-! # New assets

`processor.ts` of the assets job: the pairs of each protocol are checked a batch at a time, and the
tokens that have a pair with a stable coin and enough liquidity, and are no assets yet, are sent to
the service of assets.

* `process`: the job, with all ways a pair or a batch is left out: the last pair of a batch is not
  read, a blacklisted token drops its batch, a stable coin that is no asset ends it;
* `process_tokens`: what is sent, told from the pairs and not from the loops;
* `process_eq`: the same, told from the contracts, the assets and the prices. -/

namespace DefiBackend
namespace Jobs
namespace NewAssets
open Theory

structure Protocol where
  address : Address

/-- What the environment says. -/
structure Config where
  stableCoins : List Address
  protocols : List Protocol
  POOLS_BATCH_SIZE : Nat
  minLiquidityRequired : JsNumber
  baseTokens : List Address

def Config.poolsBatchSize (config : Config) : Nat :=
  if config.POOLS_BATCH_SIZE = 0 then 100 else config.POOLS_BATCH_SIZE

structure AssetsApiDto where
  address : Address
  decimals : Option Nat
  /-- The addresses of its pairs. -/
  pairs : List Address

structure PairTokens where
  address : Address
  token0 : Address
  token1 : Address

structure PairToken where
  address : Address
  decimals : Nat
  reserve : Nat

structure Pair where
  address : Address
  token0 : PairToken
  token1 : PairToken

/-- What the contracts say, nothing for a call that fails. A call that fails fails all calls that
are made with it. -/
structure Contracts where
  allPairsLength : Address → Option Nat
  allPairs : Address → Nat → Option Address
  token0 : Address → Option Address
  token1 : Address → Option Address
  getReserves : Address → Option (Nat × Nat)
  decimals : Address → Option Nat

/-- A price as the text it comes in, with the number that the text is. -/
structure PriceText where
  text : String
  value : JsNumber

/-- The other services, nothing if a request fails. -/
structure Services where
  getAssetsAndPairsByChain : Option (List AssetsApiDto)
  fetchPrices : List Address → Option (JsMap Address PriceText)

/-! ## Reading -/

section
variable (contracts : Contracts)

def getPairs (factoryAddress : Address) (pairs : List Nat) : Option (List Address) :=
  pairs.mapM (contracts.allPairs factoryAddress)

def tokensOf (pair : Address) : Option PairTokens := do
  let token0 ← contracts.token0 pair
  let token1 ← contracts.token1 pair
  pure ⟨pair, token0, token1⟩

def getTokensForPairs (pairs : List Address) : Option (List PairTokens) :=
  pairs.mapM (tokensOf contracts)

def detailsOf (pair : PairTokens) : Option Pair := do
  let reserves ← contracts.getReserves pair.address
  let decimals0 ← contracts.decimals pair.token0
  let decimals1 ← contracts.decimals pair.token1
  pure ⟨lowerCase pair.address, ⟨lowerCase pair.token0, decimals0, reserves.1⟩,
    ⟨lowerCase pair.token1, decimals1, reserves.2⟩⟩

def getPairsDetails (pairsTokens : List PairTokens) : Option (List Pair) :=
  pairsTokens.mapM (detailsOf contracts)

end

/-! ## The maps -/

def buildPairsMap (assets : List AssetsApiDto) : JsMap Address Address :=
  assets.foldl (fun map asset => asset.pairs.foldl (fun map pair => map.set pair asset.address) map) []

def buildAssetsMap (assets : List AssetsApiDto) : JsMap Address AssetsApiDto :=
  assets.foldl (fun map dto => map.set dto.address dto) []

/-- A stable coin that is no asset is set to undefined. -/
def buildStableTokensMap (stableCoins : List Address) (assetsMap : JsMap Address AssetsApiDto) :
    JsMap Address (Option AssetsApiDto) :=
  stableCoins.foldl (fun map stable => map.set stable (assetsMap.get stable)) []

/-- Prices of base tokens are fetched, those of the other stable coins are taken to be one. -/
def buildPricesMap (config : Config) (services : Services) : Option (JsMap Address JsNumber) :=
  let pricesMap : JsMap Address JsNumber :=
    config.stableCoins.foldl (fun map stable => map.set stable 1) []
  if config.baseTokens.isEmpty then some pricesMap
  else do
    let prices ← services.fetchPrices config.baseTokens
    pure (prices.foldl (fun map e => if e.2.text ≠ "" then map.set e.1 e.2.value else map) pricesMap)

/-- What is built from the answers of the services. -/
structure Maps where
  pairsMap : JsMap Address Address
  assetsMap : JsMap Address AssetsApiDto
  stableTokensMap : JsMap Address (Option AssetsApiDto)
  pricesMap : JsMap Address JsNumber

/-! ## Checking -/

def blacklisted : List Address :=
  ["0x4922a015c4407f87432b179bb209e125432e4a2a", "0x0000000000000000000000000000000000001010"]

def PairTokens.isBlacklisted (pair : PairTokens) : Bool :=
  lowerCase pair.token0 ∈ blacklisted ∨ lowerCase pair.token1 ∈ blacklisted

def containsBlacklistedToken (pairsTokens : List PairTokens) : Bool :=
  pairsTokens.any PairTokens.isBlacklisted

/-- The read of a property of undefined. -/
inductive TypeError
  | decimals

section
variable (config : Config) (maps : Maps)

/-- A pair that is not known, of a stable coin and another token. -/
def isNew (pair : PairTokens) : Bool :=
  (maps.pairsMap.get (lowerCase pair.address)).all (· = "") ∧
    (lowerCase pair.token0 ∈ config.stableCoins) ≠ (lowerCase pair.token1 ∈ config.stableCoins)

def filterKnownTokenPairs (pairs : List PairTokens) : List PairTokens :=
  pairs.filter (isNew config maps)

def normalizeDecimals (value : Nat) (decimals : Option Nat) : JsNumber :=
  JsNumber.dividedBy (.finite value) (decimals.elim .nan fun n => .tenPow n)

/-- The token of a pair that is sent, if any. -/
def newToken (pair : Pair) : Except TypeError (Option Address) :=
  let (stable, token) := if pair.token0.address ∈ config.stableCoins then (pair.token0, pair.token1)
    else (pair.token1, pair.token0)
  if (maps.assetsMap.get token.address).isSome then .ok none
  else match (maps.stableTokensMap.get stable.address).join with
    | none => .error .decimals
    | some asset =>
      let stableTokenAmount := normalizeDecimals stable.reserve asset.decimals
      let stableTokenLiquidity :=
        stableTokenAmount * (maps.pricesMap.get stable.address).getD .nan
      let poolLiquidity := stableTokenLiquidity * 2
      if poolLiquidity.lt config.minLiquidityRequired then .ok none else .ok (some token.address)

/-- The pairs of a batch. An exception ends the batch. -/
def checkPairs : List Pair → List Address → List Address
  | [], sent => sent
  | pair :: pairs, sent =>
    match newToken config maps pair with
    | .ok none => checkPairs pairs sent
    | .ok (some token) => checkPairs pairs (sent ++ [token])
    | .error _ => sent

variable (contracts : Contracts)

/-- The indices of a batch that are read. -/
def pairIds (total start : Nat) : List Nat :=
  let fixedBatchSize := min config.poolsBatchSize (total - start)
  (List.range (fixedBatchSize - 1)).map (start + ·)

/-- The pairs of a batch that are checked, nothing if the batch is left out. -/
def batchPairs (protocol : Protocol) (total start : Nat) : Option (List Pair) := do
  let pairAddresses ← getPairs contracts protocol.address (pairIds config total start)
  let pairsTokens ← getTokensForPairs contracts pairAddresses
  if containsBlacklistedToken pairsTokens then none
  else getPairsDetails contracts (filterKnownTokenPairs config maps pairsTokens)

def checkBatch (protocol : Protocol) (total : Nat) (sent : List Address) (start : Nat) : List Address :=
  match batchPairs config maps contracts protocol total start with
  | some pairs => checkPairs config maps pairs sent
  | none => sent

/-- The values of `from`. -/
def starts (total : Nat) : List Nat :=
  List.range' 0 ((total + config.poolsBatchSize - 1) / config.poolsBatchSize) config.poolsBatchSize

/-- What has been sent, and whether the job has failed. -/
structure Outcome where
  sent : List Address
  failed : Bool
  deriving DecidableEq

/-- The protocols from one on. The job fails if the number of pairs cannot be read. -/
def checkProtocols : List Protocol → List Address → Outcome
  | [], sent => ⟨sent, false⟩
  | protocol :: protocols, sent =>
    match contracts.allPairsLength protocol.address with
    | none => ⟨sent, true⟩
    | some total =>
      checkProtocols protocols ((starts config total).foldl
        (checkBatch config maps contracts protocol total) sent)

end

def buildMaps (config : Config) (services : Services) (assets : List AssetsApiDto) : Option Maps :=
  (buildPricesMap config services).map fun pricesMap =>
    ⟨buildPairsMap assets, buildAssetsMap assets,
      buildStableTokensMap config.stableCoins (buildAssetsMap assets), pricesMap⟩

def process (config : Config) (services : Services) (contracts : Contracts) : Outcome :=
  match services.getAssetsAndPairsByChain with
  | none => ⟨[], true⟩
  | some assets =>
    if assets.isEmpty then ⟨[], false⟩
    else match buildMaps config services assets with
      | none => ⟨[], true⟩
      | some maps => checkProtocols config maps contracts config.protocols []

/-! ## What is sent -/

section
variable (config : Config) (maps : Maps) (contracts : Contracts) (protocol : Protocol)

def pairAt (i : Nat) : Option PairTokens :=
  (contracts.allPairs protocol.address i).bind (tokensOf contracts)

def newPairAt (i : Nat) : Option Pair :=
  ((pairAt contracts protocol i).filter (isNew config maps)).bind (detailsOf contracts)

/-- A pair is read, without a blacklisted token, and if it is new, its details are. -/
def readable (i : Nat) : Bool :=
  (pairAt contracts protocol i).any fun pair =>
    !pair.isBlacklisted && (isNew config maps pair → (detailsOf contracts pair).isSome)

/-- The stable coin of a new pair is no asset. -/
def stops (i : Nat) : Bool :=
  (newPairAt config maps contracts protocol i).any fun pair =>
    (newToken config maps pair).toOption.isNone

/-- The new token of a pair. -/
def tokenAt (i : Nat) : Option Address :=
  (newPairAt config maps contracts protocol i).bind fun pair =>
    (newToken config maps pair).toOption.join

/-- The indices of the batch of a pair but the last one. -/
def mates (total i : Nat) : List Nat :=
  pairIds config total (i / config.poolsBatchSize * config.poolsBatchSize)

/-- A pair is checked: it is not the last one of its batch, all others of it can be read and are not
blacklisted, and none before it has a stable coin that is no asset. -/
def Checked (total i : Nat) : Prop :=
  ((i + 1) % config.poolsBatchSize ≠ 0 ∧ i + 1 < total) ∧
    (∀ j ∈ mates config total i, readable config maps contracts protocol j) ∧
    ∀ j ∈ mates config total i, j < i → stops config maps contracts protocol j = false

instance : Decidable (Checked config maps contracts protocol total i) :=
  inferInstanceAs (Decidable (_ ∧ _ ∧ _))

/-- The tokens of the pairs that are checked. -/
def tokensFound (total : Nat) : List Address :=
  (List.range total).filterMap fun i =>
    if Checked config maps contracts protocol total i then tokenAt config maps contracts protocol i
    else none

variable {config maps contracts protocol}

theorem poolsBatchSize_pos : 0 < config.poolsBatchSize := by
  rw [Config.poolsBatchSize]
  split <;> omega

/-- What is checked of some pairs, nothing if they are left out. -/
def checkedPairs (config : Config) (maps : Maps) (contracts : Contracts)
    (pairsTokens : List PairTokens) : Option (List Pair) :=
  if containsBlacklistedToken pairsTokens then none
  else getPairsDetails contracts (filterKnownTokenPairs config maps pairsTokens)

theorem batchPairs_eq (total start : Nat) : batchPairs config maps contracts protocol total start =
    ((pairIds config total start).mapM (pairAt contracts protocol)).bind
      (checkedPairs config maps contracts) := by
  have h := mapM_bind_mapM (contracts.allPairs protocol.address) (tokensOf contracts)
    (pairIds config total start)
  rw [← show _ = (pairIds config total start).mapM (pairAt contracts protocol) from h,
    Option.bind_assoc]
  rfl

theorem checkedPairs_cons (pair : PairTokens) (pairsTokens : List PairTokens) :
    checkedPairs config maps contracts (pair :: pairsTokens) =
      if pair.isBlacklisted then none
      else if isNew config maps pair then
        (detailsOf contracts pair).bind fun p =>
          (checkedPairs config maps contracts pairsTokens).map (p :: ·)
      else checkedPairs config maps contracts pairsTokens := by
  rw [checkedPairs, checkedPairs, containsBlacklistedToken, containsBlacklistedToken,
    filterKnownTokenPairs, filterKnownTokenPairs, List.any_cons, List.filter_cons]
  cases pair.isBlacklisted with
  | true => rfl
  | false =>
    rw [Bool.false_or, if_neg (by decide : ¬ false = true)]
    cases isNew config maps pair with
    | false => rfl
    | true =>
      rw [if_pos rfl, if_pos rfl, getPairsDetails, getPairsDetails, List.mapM_cons]
      cases detailsOf contracts pair with
      | none => exact ite_self _
      | some p =>
        cases pairsTokens.any PairTokens.isBlacklisted with
        | true => rfl
        | false =>
          cases (pairsTokens.filter (isNew config maps)).mapM (detailsOf contracts) <;> rfl

theorem readBatch_cons (i : Nat) (ids : List Nat) :
    ((i :: ids).mapM (pairAt contracts protocol)).bind (checkedPairs config maps contracts) =
      (pairAt contracts protocol i).bind fun pair =>
        if pair.isBlacklisted then none
        else if isNew config maps pair then
          (detailsOf contracts pair).bind fun p =>
            ((ids.mapM (pairAt contracts protocol)).bind
              (checkedPairs config maps contracts)).map (p :: ·)
        else (ids.mapM (pairAt contracts protocol)).bind (checkedPairs config maps contracts) := by
  rw [List.mapM_cons]
  cases pairAt contracts protocol i with
  | none => rfl
  | some pair =>
    rw [Option.bind_some]
    cases ids.mapM (pairAt contracts protocol) with
    | some pairsTokens => exact checkedPairs_cons pair pairsTokens
    | none =>
      cases pair.isBlacklisted with
      | true => rfl
      | false =>
        cases isNew config maps pair with
        | false => rfl
        | true => cases detailsOf contracts pair <;> rfl

/-- A batch has its new pairs, if all of it can be read. -/
theorem readBatch_eq (ids : List Nat) :
    (ids.mapM (pairAt contracts protocol)).bind (checkedPairs config maps contracts) =
      if ∀ j ∈ ids, readable config maps contracts protocol j then
        some (ids.filterMap (newPairAt config maps contracts protocol)) else none := by
  induction ids with
  | nil => rfl
  | cons i ids ih =>
    rw [readBatch_cons, ih, List.filterMap_cons]
    have hforall : (∀ j ∈ i :: ids, readable config maps contracts protocol j) ↔
        readable config maps contracts protocol i ∧
          ∀ j ∈ ids, readable config maps contracts protocol j := List.forall_mem_cons
    rw [if_congr hforall rfl rfl, newPairAt, readable]
    cases pairAt contracts protocol i with
    | none => exact (if_neg fun h => Bool.false_ne_true h.1).symm
    | some pair =>
      rw [Option.bind_some, Option.any_some, Option.filter_some]
      cases pair.isBlacklisted with
      | true => exact (if_neg fun h => Bool.false_ne_true h.1).symm
      | false =>
        cases isNew config maps pair with
        | false => simp
        | true =>
          cases hdetails : detailsOf contracts pair with
          | none => simp
          | some p => simp [hdetails]

/-- The pairs of a batch up to the first that stops it. -/
theorem checkPairs_eq (ids : List Nat) (sent : List Address) :
    checkPairs config maps (ids.filterMap (newPairAt config maps contracts protocol)) sent =
      sent ++ (ids.takeWhile fun i => !stops config maps contracts protocol i).filterMap
        (tokenAt config maps contracts protocol) := by
  induction ids generalizing sent with
  | nil => exact (List.append_nil sent).symm
  | cons i ids ih =>
    rw [List.filterMap_cons, List.takeWhile_cons, stops]
    cases hpair : newPairAt config maps contracts protocol i with
    | none =>
      have htoken : tokenAt config maps contracts protocol i = none := by rw [tokenAt, hpair]; rfl
      rw [ih, Option.any_none, if_pos (by decide), List.filterMap_cons, htoken]
    | some pair =>
      have htoken : tokenAt config maps contracts protocol i =
          (newToken config maps pair).toOption.join := by rw [tokenAt, hpair]; rfl
      rw [Option.any_some]
      dsimp only
      rw [checkPairs]
      cases hnew : newToken config maps pair with
      | error _ => exact (List.append_nil sent).symm
      | ok token =>
        rw [hnew] at htoken
        change _ = sent ++ (i :: ids.takeWhile _).filterMap _
        rw [List.filterMap_cons, htoken]
        cases token with
        | none => exact ih sent
        | some token => exact (ih _).trans (List.append_assoc ..)

theorem tokenAt_of_stops (i : Nat) (h : stops config maps contracts protocol i = true) :
    tokenAt config maps contracts protocol i = none := by
  rw [stops] at h
  rw [tokenAt]
  cases hpair : newPairAt config maps contracts protocol i with
  | none => rfl
  | some pair =>
    rw [hpair, Option.any_some] at h
    rw [Option.bind_some, Option.isNone_iff_eq_none.mp h]
    rfl

theorem pairIds_eq (total start : Nat) :
    pairIds config total start = List.range' start (min config.poolsBatchSize (total - start) - 1) :=
  List.range'_eq_map_range.symm

/-- A pair of a batch is one of those that are read, unless it is the last one. -/
theorem mem_pairIds {total n i : Nat} (hi : i ∈ List.range' (n * config.poolsBatchSize)
      (min config.poolsBatchSize (total - n * config.poolsBatchSize))) :
    i ∈ pairIds config total (n * config.poolsBatchSize) ↔
      (i + 1) % config.poolsBatchSize ≠ 0 ∧ i + 1 < total := by
  have hpos : 0 < config.poolsBatchSize := poolsBatchSize_pos
  rw [List.mem_range'_1] at hi
  rw [pairIds_eq, List.mem_range'_1]
  obtain ⟨d, rfl⟩ := Nat.exists_eq_add_of_le hi.1
  have hmod : (n * config.poolsBatchSize + d + 1) % config.poolsBatchSize =
      (d + 1) % config.poolsBatchSize := by
    rw [Nat.add_assoc, Nat.mul_comm, Nat.mul_add_mod]
  rw [hmod]
  rcases Nat.lt_or_ge (d + 1) config.poolsBatchSize with hlt | hge
  · rw [Nat.mod_eq_of_lt hlt]
    omega
  · have hlast : d + 1 = config.poolsBatchSize := by omega
    rw [hlast, Nat.mod_self]
    omega

theorem mates_eq {total n i : Nat} (hi : i ∈ List.range' (n * config.poolsBatchSize)
      (min config.poolsBatchSize (total - n * config.poolsBatchSize))) :
    mates config total i = pairIds config total (n * config.poolsBatchSize) := by
  rw [List.mem_range'_1] at hi
  have hdiv : i / config.poolsBatchSize = n := by
    refine Nat.div_eq_of_lt_le hi.1 ?_
    rw [Nat.succ_mul]
    omega
  rw [mates, hdiv]

/-- The tokens of a batch that is visited. -/
theorem checkBatch_eq (total n : Nat) (sent : List Address) :
    checkBatch config maps contracts protocol total sent (n * config.poolsBatchSize) =
      sent ++ (List.range' (n * config.poolsBatchSize)
        (min config.poolsBatchSize (total - n * config.poolsBatchSize))).filterMap fun i =>
          if Checked config maps contracts protocol total i then
            tokenAt config maps contracts protocol i else none := by
  have hchecked : ∀ i ∈ List.range' (n * config.poolsBatchSize)
      (min config.poolsBatchSize (total - n * config.poolsBatchSize)),
      (Checked config maps contracts protocol total i ↔
        i ∈ pairIds config total (n * config.poolsBatchSize) ∧
        (∀ j ∈ pairIds config total (n * config.poolsBatchSize),
          readable config maps contracts protocol j) ∧
        ∀ j ∈ pairIds config total (n * config.poolsBatchSize), j < i →
          stops config maps contracts protocol j = false) := by
    intro i hi
    rw [Checked, mates_eq hi, mem_pairIds hi]
  have hids : pairIds config total (n * config.poolsBatchSize) ⊆ List.range' (n * config.poolsBatchSize)
      (min config.poolsBatchSize (total - n * config.poolsBatchSize)) := by
    intro i hi
    rw [pairIds_eq, List.mem_range'_1] at hi
    rw [List.mem_range'_1]
    omega
  have hsorted : (pairIds config total (n * config.poolsBatchSize)).Pairwise (· < ·) := by
    rw [pairIds_eq]
    exact List.pairwise_lt_range'
  have hread : (List.range' (n * config.poolsBatchSize)
      (min config.poolsBatchSize (total - n * config.poolsBatchSize))).filterMap (fun i =>
          if Checked config maps contracts protocol total i then
            tokenAt config maps contracts protocol i else none) =
      (pairIds config total (n * config.poolsBatchSize)).filterMap fun i =>
          if Checked config maps contracts protocol total i then
            tokenAt config maps contracts protocol i else none := by
    rw [pairIds_eq]
    cases hm : min config.poolsBatchSize (total - n * config.poolsBatchSize) with
    | zero => rfl
    | succ m =>
      rw [Nat.add_sub_cancel, List.range'_1_concat, List.filterMap_append]
      rw [hm] at hchecked
      have hlast : ¬ Checked config maps contracts protocol total (n * config.poolsBatchSize + m) := by
        rw [hchecked _ (by rw [List.mem_range'_1]; omega), pairIds_eq, List.mem_range'_1]
        omega
      rw [List.filterMap_cons, if_neg hlast]
      exact List.append_nil _
  rw [hread, checkBatch, batchPairs_eq, readBatch_eq]
  by_cases hreadable : ∀ j ∈ pairIds config total (n * config.poolsBatchSize),
      readable config maps contracts protocol j
  · rw [if_pos hreadable]
    dsimp only
    rw [checkPairs_eq, ← filterMap_before hsorted fun i _ => tokenAt_of_stops i]
    refine congrArg (sent ++ ·) (List.filterMap_congr fun i hi => ?_)
    refine if_congr ?_ rfl rfl
    rw [hchecked i (hids hi)]
    exact ⟨fun h => ⟨hi, hreadable, h⟩, fun h => h.2.2⟩
  · rw [if_neg hreadable]
    dsimp only
    rw [List.filterMap_eq_nil_iff.mpr, List.append_nil]
    exact fun i hi => if_neg fun h => hreadable ((hchecked i (hids hi)).mp h).2.1

/-- All batches of a protocol. -/
theorem foldl_checkBatch (total : Nat) (sent : List Address) :
    (starts config total).foldl (checkBatch config maps contracts protocol total) sent =
      sent ++ tokensFound config maps contracts protocol total := by
  have hfold : ∀ l : List Nat, (∀ start ∈ l, ∃ n, start = n * config.poolsBatchSize) →
      ∀ sent, l.foldl (checkBatch config maps contracts protocol total) sent =
        sent ++ l.flatMap fun start =>
          (List.range' start (min config.poolsBatchSize (total - start))).filterMap fun i =>
            if Checked config maps contracts protocol total i then
              tokenAt config maps contracts protocol i else none := by
    intro l hl
    induction l with
    | nil => exact fun sent => (List.append_nil sent).symm
    | cons start l ih =>
      intro sent
      obtain ⟨⟨n, rfl⟩, hrest⟩ := List.forall_mem_cons.mp hl
      rw [List.foldl_cons, checkBatch_eq, ih hrest, List.flatMap_cons, List.append_assoc]
  have hpos : 0 < config.poolsBatchSize := poolsBatchSize_pos
  have hstarts : ∀ start ∈ starts config total, ∃ n, start = n * config.poolsBatchSize := by
    intro start hstart
    obtain ⟨n, -, rfl⟩ := List.mem_range'.mp hstart
    exact ⟨n, by rw [Nat.zero_add, Nat.mul_comm]⟩
  have htotal : total ≤ (total + config.poolsBatchSize - 1) / config.poolsBatchSize *
      config.poolsBatchSize := by
    have hdiv := Nat.div_add_mod (total + config.poolsBatchSize - 1) config.poolsBatchSize
    have hmod := Nat.mod_lt (total + config.poolsBatchSize - 1) hpos
    rw [Nat.mul_comm] at hdiv
    omega
  rw [hfold _ hstarts, ← List.filterMap_flatMap, starts, flatMap_batches, Nat.sub_zero,
    Nat.min_eq_right htotal, ← List.range_eq_range']
  rfl

/-- The protocols up to the first whose number of pairs cannot be read. -/
theorem checkProtocols_eq (protocols : List Protocol) (sent : List Address) :
    checkProtocols config maps contracts protocols sent =
      ⟨sent ++ (protocols.takeWhile fun p => (contracts.allPairsLength p.address).isSome).flatMap
        fun p => (contracts.allPairsLength p.address).elim [] (tokensFound config maps contracts p),
      protocols.any fun p => (contracts.allPairsLength p.address).isNone⟩ := by
  induction protocols generalizing sent with
  | nil => rw [List.takeWhile_nil, List.flatMap_nil, List.append_nil]; rfl
  | cons p protocols ih =>
    rw [checkProtocols, List.takeWhile_cons, List.any_cons]
    cases htotal : contracts.allPairsLength p.address with
    | none => exact congrArg (Outcome.mk · true) (List.append_nil sent).symm
    | some total =>
      dsimp only
      rw [ih, foldl_checkBatch, List.append_assoc, Option.isSome_some, if_pos rfl,
        List.flatMap_cons, htotal]
      rfl

/-- Once the assets and the prices are there, the job sends the tokens of the pairs that are
checked. -/
theorem process_tokens {services : Services} {assets : List AssetsApiDto}
    (hassets : services.getAssetsAndPairsByChain = some assets) (hne : assets ≠ [])
    (hmaps : buildMaps config services assets = some maps) :
    process config services contracts =
      ⟨(config.protocols.takeWhile fun p => (contracts.allPairsLength p.address).isSome).flatMap
        fun p => (contracts.allPairsLength p.address).elim [] (tokensFound config maps contracts p),
      config.protocols.any fun p => (contracts.allPairsLength p.address).isNone⟩ := by
  have hempty : ¬ assets.isEmpty := fun h => hne (List.isEmpty_iff.mp h)
  rw [process, hassets]
  dsimp only
  rw [if_neg hempty, hmaps]
  exact checkProtocols_eq config.protocols []

end

/-! ## The pairs, by what the contracts and the services say -/

section
variable (config : Config) (assets : List AssetsApiDto) (prices : JsMap Address PriceText)
variable (contracts : Contracts) (protocol : Protocol)

/-- The contracts give the pair at an index, and its tokens. -/
structure PairAt (i : Nat) (pair token0 token1 : Address) : Prop where
  address : contracts.allPairs protocol.address i = some pair
  token0 : contracts.token0 pair = some token0
  token1 : contracts.token1 pair = some token1

/-- A pair is known from the last asset that has it. -/
def Known (pair : Address) : Prop :=
  ∃ asset ∈ assets.reverse.find? (pair ∈ ·.pairs), asset.address ≠ ""

def IsAsset (token : Address) : Prop := ∃ asset ∈ assets, asset.address = token

/-- A stable coin with its reserve, and another token. -/
inductive StablePair (token0 token1 : Address) (reserves : Nat × Nat) : Address → Nat → Address → Prop
  | first : token0 ∈ config.stableCoins → token1 ∉ config.stableCoins →
    StablePair token0 token1 reserves token0 reserves.1 token1
  | second : token0 ∉ config.stableCoins → token1 ∈ config.stableCoins →
    StablePair token0 token1 reserves token1 reserves.2 token0

/-- The pair at an index is not known, and one of its tokens is a stable coin. -/
def NewPair (i : Nat) (stable : Address) (reserve : Nat) (token : Address) : Prop :=
  ∃ pair token0 token1 reserves, PairAt contracts protocol i pair token0 token1 ∧
    ¬ Known assets (lowerCase pair) ∧ contracts.getReserves pair = some reserves ∧
    (contracts.decimals token0).isSome ∧ (contracts.decimals token1).isSome ∧
    StablePair config (lowerCase token0) (lowerCase token1) reserves stable reserve token

/-- The price of a stable coin: the one that was fetched, or one. -/
def priceOf (stable : Address) : JsNumber :=
  (JsMap.lastWith Prod.fst (prices.filter fun e => e.2.text ≠ "") stable).elim 1 fun e => e.2.value

/-- Twice what the reserve of the stable coin is worth. -/
def liquidity (stable : AssetsApiDto) (reserve : Nat) : JsNumber :=
  normalizeDecimals reserve stable.decimals * priceOf prices stable.address * 2

/-- The token of a new pair is no asset, and the pair has the liquidity that is required. -/
def Sends (i : Nat) (token : Address) : Prop :=
  ∃ stable reserve, NewPair config assets contracts protocol i stable reserve token ∧
    ¬ IsAsset assets token ∧ ∃ asset ∈ JsMap.lastWith AssetsApiDto.address assets stable,
      (liquidity prices asset reserve).lt config.minLiquidityRequired = false

/-- Neither the token nor the stable coin of a new pair is an asset. -/
def Stops (i : Nat) : Prop :=
  ∃ stable reserve token, NewPair config assets contracts protocol i stable reserve token ∧
    ¬ IsAsset assets token ∧ ¬ IsAsset assets stable

/-- The pair at an index can be read, and has no blacklisted token. -/
def Readable (i : Nat) : Prop :=
  ∃ pair token0 token1, PairAt contracts protocol i pair token0 token1 ∧
    lowerCase token0 ∉ blacklisted ∧ lowerCase token1 ∉ blacklisted ∧
    (¬ Known assets (lowerCase pair) →
      (lowerCase token0 ∈ config.stableCoins ↔ lowerCase token1 ∉ config.stableCoins) →
      (contracts.getReserves pair).isSome ∧ (contracts.decimals token0).isSome ∧
        (contracts.decimals token1).isSome)

/-- An index is not the last one of its batch, nor of all. -/
def Visited (total i : Nat) : Prop := (i + 1) % config.poolsBatchSize ≠ 0 ∧ i + 1 < total

/-- A pair is visited, all that are visited in its batch can be read, and none before it stops the
batch. -/
def Reached (total i : Nat) : Prop :=
  Visited config total i ∧
    ∀ j, Visited config total j → j / config.poolsBatchSize = i / config.poolsBatchSize →
      Readable config assets contracts protocol j ∧
        (j < i → ¬ Stops config assets contracts protocol j)

end

section
variable {config : Config} {assets : List AssetsApiDto} {prices : JsMap Address PriceText}
variable {contracts : Contracts} {protocol : Protocol}

/-- The prices of the stable coins, of which some have been fetched. -/
def pricesMapOf (config : Config) (prices : JsMap Address PriceText) : JsMap Address JsNumber :=
  prices.foldl (fun map e => if e.2.text ≠ "" then map.set e.1 e.2.value else map)
    (config.stableCoins.foldl (fun map stable => map.set stable 1) [])

def mapsOf (config : Config) (assets : List AssetsApiDto) (prices : JsMap Address PriceText) : Maps where
  pairsMap := buildPairsMap assets
  assetsMap := buildAssetsMap assets
  stableTokensMap := buildStableTokensMap config.stableCoins (buildAssetsMap assets)
  pricesMap := pricesMapOf config prices

theorem buildPairsMap_get (pair : Address) :
    (buildPairsMap assets).get pair =
      (assets.reverse.find? (pair ∈ ·.pairs)).map (·.address) := by
  have hpairs : ∀ (asset : AssetsApiDto) (m : JsMap Address Address),
      (asset.pairs.foldl (fun map pair => map.set pair asset.address) m).get pair =
        if pair ∈ asset.pairs then some asset.address else m.get pair := by
    intro asset m
    induction asset.pairs generalizing m with
    | nil => rfl
    | cons p pairs ih =>
      rw [List.foldl_cons, ih, JsMap.get_set]
      by_cases hp : p = pair
      · subst hp
        simp
      · simp [hp, Ne.symm hp]
  unfold buildPairsMap
  induction assets using List.reverseRecOn with
  | nil => rfl
  | append_singleton assets asset ih =>
    rw [List.foldl_append, List.foldl_cons, List.foldl_nil, hpairs, ih, List.reverse_append,
      List.reverse_singleton, List.singleton_append, List.find?_cons]
    by_cases hp : pair ∈ asset.pairs
    · simp [hp]
    · simp [hp]

theorem buildAssetsMap_get (token : Address) :
    (buildAssetsMap assets).get token = JsMap.lastWith AssetsApiDto.address assets token := by
  have h := JsMap.get_ofEntries_self (k := token) AssetsApiDto.address assets
  rwa [JsMap.ofEntries, List.foldl_map] at h

theorem isSome_lastWith {token : Address} :
    (JsMap.lastWith AssetsApiDto.address assets token).isSome ↔ IsAsset assets token := by
  constructor
  · intro h
    obtain ⟨asset, hasset⟩ := Option.isSome_iff_exists.mp h
    obtain ⟨haddress, hmem⟩ := JsMap.lastWith_eq_some hasset
    exact ⟨asset, hmem, haddress⟩
  · rintro ⟨asset, hmem, rfl⟩
    obtain ⟨last, hlast⟩ := JsMap.exists_lastWith AssetsApiDto.address hmem
    exact Option.isSome_of_eq_some hlast

theorem buildStableTokensMap_get {stable : Address} (h : stable ∈ config.stableCoins) :
    (buildStableTokensMap config.stableCoins (buildAssetsMap assets)).get stable =
      some (JsMap.lastWith AssetsApiDto.address assets stable) := by
  have hget := JsMap.get_ofEntries_graph (fun stable => (buildAssetsMap assets).get stable) h
  rw [JsMap.ofEntries, List.foldl_map] at hget
  rw [← buildAssetsMap_get]
  exact hget

theorem pricesMapOf_get {stable : Address} (h : stable ∈ config.stableCoins) :
    (pricesMapOf config prices).get stable = some (priceOf prices stable) := by
  have hone := JsMap.get_ofEntries_graph (fun _ : Address => (1 : JsNumber)) h
  rw [JsMap.ofEntries, List.foldl_map] at hone
  have hfold := JsMap.foldl_set_get (k := stable)
    ((prices.filter fun e => e.2.text ≠ "").map fun e => (e.1, e.2.value))
    (config.stableCoins.foldl (fun map stable => map.set stable 1) [])
  rw [← JsMap.get_ofEntries, JsMap.get_ofEntries_map Prod.fst, List.foldl_map, List.foldl_filter,
    hone] at hfold
  simp only [decide_eq_true_eq] at hfold
  rw [pricesMapOf, hfold, priceOf]
  cases JsMap.lastWith Prod.fst (prices.filter fun e => e.2.text ≠ "") stable <;> rfl

theorem isNew_iff {pair : PairTokens} :
    isNew config (mapsOf config assets prices) pair ↔
      ¬ Known assets (lowerCase pair.address) ∧
        (lowerCase pair.token0 ∈ config.stableCoins ↔ lowerCase pair.token1 ∉ config.stableCoins) := by
  unfold isNew Known mapsOf
  rw [decide_eq_true_iff, buildPairsMap_get]
  refine and_congr ?_ ?_
  · cases assets.reverse.find? (lowerCase pair.address ∈ ·.pairs) <;> simp
  · by_cases h0 : lowerCase pair.token0 ∈ config.stableCoins <;>
      by_cases h1 : lowerCase pair.token1 ∈ config.stableCoins <;> simp [h0, h1]

theorem pairAt_iff {i : Nat} {pair : PairTokens} :
    pairAt contracts protocol i = some pair ↔
      PairAt contracts protocol i pair.address pair.token0 pair.token1 := by
  have htokens : ∀ address, tokensOf contracts address = some pair ↔
      address = pair.address ∧ contracts.token0 address = some pair.token0 ∧
        contracts.token1 address = some pair.token1 := by
    intro address
    unfold tokensOf
    obtain ⟨pairAddress, token0, token1⟩ := pair
    cases contracts.token0 address with
    | none => simp
    | some t0 =>
      cases contracts.token1 address with
      | none => simp
      | some t1 => simp
  rw [pairAt, Option.bind_eq_some_iff]
  constructor
  · rintro ⟨address, haddress, h⟩
    obtain ⟨rfl, h0, h1⟩ := (htokens address).mp h
    exact ⟨haddress, h0, h1⟩
  · rintro ⟨haddress, h0, h1⟩
    exact ⟨_, haddress, (htokens _).mpr ⟨rfl, h0, h1⟩⟩

theorem detailsOf_iff {pair : PairTokens} {p : Pair} :
    detailsOf contracts pair = some p ↔
      ∃ reserves decimals0 decimals1, contracts.getReserves pair.address = some reserves ∧
        contracts.decimals pair.token0 = some decimals0 ∧
        contracts.decimals pair.token1 = some decimals1 ∧
        p = ⟨lowerCase pair.address, ⟨lowerCase pair.token0, decimals0, reserves.1⟩,
          ⟨lowerCase pair.token1, decimals1, reserves.2⟩⟩ := by
  unfold detailsOf
  cases contracts.getReserves pair.address with
  | none => simp
  | some reserves =>
    cases contracts.decimals pair.token0 with
    | none => simp
    | some decimals0 =>
      cases contracts.decimals pair.token1 with
      | none => simp
      | some decimals1 => simp [eq_comm]

/-- The stable coin of a pair that is read, and the other token. -/
def Pair.IsStable (config : Config) (p : Pair) : Address → Nat → Address → Prop :=
  StablePair config p.token0.address p.token1.address (p.token0.reserve, p.token1.reserve)

theorem newPairAt_iff {i : Nat} {p : Pair} :
    newPairAt config (mapsOf config assets prices) contracts protocol i = some p ↔
      ∃ pair, pairAt contracts protocol i = some pair ∧ ¬ Known assets (lowerCase pair.address) ∧
        (lowerCase pair.token0 ∈ config.stableCoins ↔ lowerCase pair.token1 ∉ config.stableCoins) ∧
        detailsOf contracts pair = some p := by
  rw [newPairAt, Option.bind_eq_some_iff]
  refine exists_congr fun pair => ?_
  rw [Option.filter_eq_some_iff, isNew_iff, and_assoc, and_assoc]

theorem newPair_iff {i : Nat} {stable token : Address} {reserve : Nat} :
    NewPair config assets contracts protocol i stable reserve token ↔
      ∃ p, newPairAt config (mapsOf config assets prices) contracts protocol i = some p ∧
        p.IsStable config stable reserve token := by
  constructor
  · rintro ⟨pair, token0, token1, reserves, hpair, hknown, hreserves, h0, h1, hstable⟩
    obtain ⟨decimals0, hdecimals0⟩ := Option.isSome_iff_exists.mp h0
    obtain ⟨decimals1, hdecimals1⟩ := Option.isSome_iff_exists.mp h1
    have hone : lowerCase token0 ∈ config.stableCoins ↔ lowerCase token1 ∉ config.stableCoins := by
      cases hstable with
      | first h h' => exact iff_of_true h h'
      | second h h' => exact iff_of_false h (not_not_intro h')
    refine ⟨_, newPairAt_iff.mpr ⟨⟨pair, token0, token1⟩, pairAt_iff.mpr hpair, hknown, hone,
      detailsOf_iff.mpr ⟨reserves, decimals0, decimals1, hreserves, hdecimals0, hdecimals1, rfl⟩⟩, ?_⟩
    exact hstable
  · rintro ⟨p, hp, hstable⟩
    obtain ⟨pair, hpair, hknown, -, hdetails⟩ := newPairAt_iff.mp hp
    obtain ⟨reserves, decimals0, decimals1, hreserves, h0, h1, rfl⟩ := detailsOf_iff.mp hdetails
    exact ⟨pair.address, pair.token0, pair.token1, reserves, pairAt_iff.mp hpair, hknown, hreserves,
      Option.isSome_of_eq_some h0, Option.isSome_of_eq_some h1, hstable⟩

/-- A new pair has a stable coin. -/
theorem exists_isStable {i : Nat} {p : Pair}
    (h : newPairAt config (mapsOf config assets prices) contracts protocol i = some p) :
    ∃ stable reserve token, p.IsStable config stable reserve token := by
  obtain ⟨pair, -, -, hone, hdetails⟩ := newPairAt_iff.mp h
  obtain ⟨reserves, decimals0, decimals1, -, -, -, rfl⟩ := detailsOf_iff.mp hdetails
  by_cases h0 : lowerCase pair.token0 ∈ config.stableCoins
  · exact ⟨_, _, _, .first h0 (hone.mp h0)⟩
  · exact ⟨_, _, _, .second h0 (not_not.mp fun h1 => h0 (hone.mpr h1))⟩

/-- What is made of a pair with a stable coin. -/
theorem newToken_eq {p : Pair} {stable token : Address} {reserve : Nat}
    (h : p.IsStable config stable reserve token) :
    newToken config (mapsOf config assets prices) p =
      if (JsMap.lastWith AssetsApiDto.address assets token).isSome then .ok none
      else match JsMap.lastWith AssetsApiDto.address assets stable with
        | none => .error .decimals
        | some asset =>
          if (liquidity prices asset reserve).lt config.minLiquidityRequired then .ok none
          else .ok (some token) := by
  have hcheck : ∀ stable token : PairToken, stable.address ∈ config.stableCoins →
      (if ((mapsOf config assets prices).assetsMap.get token.address).isSome then .ok none
      else match ((mapsOf config assets prices).stableTokensMap.get stable.address).join with
        | none => .error .decimals
        | some asset =>
          if (normalizeDecimals stable.reserve asset.decimals *
            ((mapsOf config assets prices).pricesMap.get stable.address).getD .nan * 2).lt
              config.minLiquidityRequired then .ok none else .ok (some token.address)) =
      if (JsMap.lastWith AssetsApiDto.address assets token.address).isSome then
        (.ok none : Except TypeError (Option Address))
      else match JsMap.lastWith AssetsApiDto.address assets stable.address with
        | none => .error .decimals
        | some asset =>
          if (liquidity prices asset stable.reserve).lt config.minLiquidityRequired then .ok none
          else .ok (some token.address) := by
    intro stable token hstable
    change (if ((buildAssetsMap assets).get token.address).isSome then _
      else match ((buildStableTokensMap config.stableCoins (buildAssetsMap assets)).get
          stable.address).join with
        | none => _
        | some asset => if (normalizeDecimals stable.reserve asset.decimals *
            ((pricesMapOf config prices).get stable.address).getD .nan * 2).lt _ then _ else _) = _
    rw [buildAssetsMap_get, buildStableTokensMap_get hstable, pricesMapOf_get hstable, Option.join_some,
      Option.getD_some]
    cases hasset : JsMap.lastWith AssetsApiDto.address assets stable.address with
    | none => rfl
    | some asset =>
      obtain ⟨haddress, -⟩ := JsMap.lastWith_eq_some hasset
      simp only [liquidity, haddress]
  obtain ⟨address, token0, token1⟩ := p
  cases h with
  | first h0 h1 =>
    rw [← hcheck token0 token1 h0]
    simp only [newToken, h0, if_true]
  | second h0 h1 =>
    rw [← hcheck token1 token0 h1]
    simp only [newToken, h0, if_false]

/-- What is sent for a pair is told by its reserve, the assets and the prices. -/
theorem tokenAt_iff {i : Nat} {token : Address} :
    tokenAt config (mapsOf config assets prices) contracts protocol i = some token ↔
      Sends config assets prices contracts protocol i token := by
  rw [tokenAt, Option.bind_eq_some_iff, Sends]
  constructor
  · rintro ⟨p, hp, htoken⟩
    obtain ⟨stable, reserve, token', hstable⟩ := exists_isStable hp
    rw [newToken_eq hstable] at htoken
    split at htoken
    · cases htoken
    · rename_i hasset
      rw [isSome_lastWith] at hasset
      cases hlast : JsMap.lastWith AssetsApiDto.address assets stable with
      | none =>
        rw [hlast] at htoken
        cases htoken
      | some asset =>
        rw [hlast] at htoken
        dsimp only at htoken
        split at htoken
        · cases htoken
        · rename_i hliquid
          cases htoken
          exact ⟨stable, reserve, newPair_iff.mpr ⟨p, hp, hstable⟩, hasset, asset, hlast,
            Bool.eq_false_of_not_eq_true hliquid⟩
  · rintro ⟨stable, reserve, hnew, hasset, asset, hlast, hliquid⟩
    obtain ⟨p, hp, hstable⟩ := newPair_iff.mp hnew
    refine ⟨p, hp, ?_⟩
    rw [Option.mem_def] at hlast
    rw [newToken_eq hstable, if_neg (isSome_lastWith.not.mpr hasset), hlast]
    dsimp only
    rw [hliquid]
    rfl

theorem stops_iff (prices : JsMap Address PriceText) {i : Nat} :
    stops config (mapsOf config assets prices) contracts protocol i = true ↔
      Stops config assets contracts protocol i := by
  rw [stops, Option.any_eq_true, Stops]
  constructor
  · rintro ⟨p, hp, hnone⟩
    obtain ⟨stable, reserve, token, hstable⟩ := exists_isStable hp
    rw [newToken_eq hstable] at hnone
    split at hnone
    · cases hnone
    · rename_i hasset
      rw [isSome_lastWith] at hasset
      cases hlast : JsMap.lastWith AssetsApiDto.address assets stable with
      | none =>
        refine ⟨stable, reserve, token, newPair_iff.mpr ⟨p, hp, hstable⟩, hasset, ?_⟩
        rw [← isSome_lastWith, hlast]
        exact Bool.false_ne_true
      | some asset =>
        rw [hlast] at hnone
        dsimp only at hnone
        split at hnone <;> cases hnone
  · rintro ⟨stable, reserve, token, hnew, htoken, hstableAsset⟩
    obtain ⟨p, hp, hstable⟩ := newPair_iff.mp hnew
    have hlast : JsMap.lastWith AssetsApiDto.address assets stable = none :=
      Option.not_isSome_iff_eq_none.mp (isSome_lastWith.not.mpr hstableAsset)
    refine ⟨p, hp, ?_⟩
    rw [newToken_eq hstable, if_neg (isSome_lastWith.not.mpr htoken), hlast]
    rfl

theorem readable_iff {i : Nat} :
    readable config (mapsOf config assets prices) contracts protocol i = true ↔
      Readable config assets contracts protocol i := by
  have hdetails : ∀ pair : PairTokens, (detailsOf contracts pair).isSome ↔
      (contracts.getReserves pair.address).isSome ∧ (contracts.decimals pair.token0).isSome ∧
        (contracts.decimals pair.token1).isSome := by
    intro pair
    simp only [Option.isSome_iff_exists, detailsOf_iff]
    constructor
    · rintro ⟨_, reserves, decimals0, decimals1, hreserves, h0, h1, -⟩
      exact ⟨⟨_, hreserves⟩, ⟨_, h0⟩, ⟨_, h1⟩⟩
    · rintro ⟨⟨reserves, hreserves⟩, ⟨decimals0, h0⟩, ⟨decimals1, h1⟩⟩
      exact ⟨_, reserves, decimals0, decimals1, hreserves, h0, h1, rfl⟩
  have hblacklisted : ∀ pair : PairTokens, (!pair.isBlacklisted) = true ↔
      lowerCase pair.token0 ∉ blacklisted ∧ lowerCase pair.token1 ∉ blacklisted := by
    intro pair
    simp [PairTokens.isBlacklisted]
  have hpair : ∀ pair : PairTokens,
      (!pair.isBlacklisted && decide (isNew config (mapsOf config assets prices) pair = true →
        (detailsOf contracts pair).isSome)) = true ↔
      lowerCase pair.token0 ∉ blacklisted ∧ lowerCase pair.token1 ∉ blacklisted ∧
        (¬ Known assets (lowerCase pair.address) →
          (lowerCase pair.token0 ∈ config.stableCoins ↔
            lowerCase pair.token1 ∉ config.stableCoins) →
          (contracts.getReserves pair.address).isSome ∧ (contracts.decimals pair.token0).isSome ∧
            (contracts.decimals pair.token1).isSome) := by
    intro pair
    rw [Bool.and_eq_true, hblacklisted, decide_eq_true_iff, isNew_iff, hdetails, and_imp, and_assoc]
  rw [readable, Option.any_eq_true]
  constructor
  · rintro ⟨pair, hat, h⟩
    exact ⟨pair.address, pair.token0, pair.token1, pairAt_iff.mp hat, (hpair pair).mp h⟩
  · rintro ⟨pair, token0, token1, hat, h⟩
    exact ⟨⟨pair, token0, token1⟩, pairAt_iff.mpr hat, (hpair ⟨pair, token0, token1⟩).mpr h⟩

/-- The indices that are read with another. -/
theorem mem_mates {total i j : Nat} :
    j ∈ mates config total i ↔
      Visited config total j ∧ j / config.poolsBatchSize = i / config.poolsBatchSize := by
  have hpos : 0 < config.poolsBatchSize := poolsBatchSize_pos
  rw [mates]
  constructor
  · intro h
    have hrange : j ∈ List.range' (i / config.poolsBatchSize * config.poolsBatchSize)
        (min config.poolsBatchSize (total - i / config.poolsBatchSize * config.poolsBatchSize)) := by
      rw [pairIds_eq, List.mem_range'_1] at h
      rw [List.mem_range'_1]
      omega
    refine ⟨(mem_pairIds hrange).mp h, Nat.div_eq_of_lt_le ?_ ?_⟩
    · exact (List.mem_range'_1.mp hrange).1
    · rw [List.mem_range'_1] at hrange
      rw [Nat.succ_mul]
      omega
  · rintro ⟨hvisited, hdiv⟩
    rw [← hdiv]
    refine (mem_pairIds ?_).mpr hvisited
    have hmod := Nat.div_add_mod j config.poolsBatchSize
    have hlt := Nat.mod_lt j hpos
    have hle := hvisited.2
    rw [Nat.mul_comm] at hmod
    rw [List.mem_range'_1]
    omega

theorem checked_iff (prices : JsMap Address PriceText) {total i : Nat} :
    Checked config (mapsOf config assets prices) contracts protocol total i ↔
      Reached config assets contracts protocol total i := by
  rw [Checked, Reached, Visited, ← forall₂_and]
  refine and_congr_right fun _ => forall_congr' fun j => ?_
  rw [mem_mates, readable_iff, and_imp, ← stops_iff prices, Bool.not_eq_true]

/-- Once the assets and the prices are there, each pair that is reached has its token sent, in the
order of the pairs and once for each pair, of all protocols up to the first whose number of pairs
cannot be read. The job fails if there is one that cannot be read. -/
theorem process_eq {services : Services} {assets : List AssetsApiDto}
    {prices : JsMap Address PriceText}
    (hassets : services.getAssetsAndPairsByChain = some assets) (hne : assets ≠ [])
    (hprices : (if config.baseTokens = [] then some [] else services.fetchPrices config.baseTokens) =
      some prices) :
    ∃ sent : Protocol → Nat → Option Address,
      (∀ p total i token, contracts.allPairsLength p.address = some total →
        (sent p i = some token ↔
          Reached config assets contracts p total i ∧
            Sends config assets prices contracts p i token)) ∧
      process config services contracts =
        ⟨(config.protocols.takeWhile fun p => (contracts.allPairsLength p.address).isSome).flatMap
          fun p => (List.range ((contracts.allPairsLength p.address).getD 0)).filterMap (sent p),
        config.protocols.any fun p => (contracts.allPairsLength p.address).isNone⟩ := by
  have hmaps : buildMaps config services assets = some (mapsOf config assets prices) := by
    unfold buildMaps buildPricesMap
    by_cases hbase : config.baseTokens = []
    · rw [if_pos hbase] at hprices
      cases hprices
      rw [if_pos (List.isEmpty_iff.mpr hbase)]
      rfl
    · rw [if_neg hbase] at hprices
      rw [if_neg fun h => hbase (List.isEmpty_iff.mp h), hprices]
      rfl
  refine ⟨fun p i => (contracts.allPairsLength p.address).bind fun total =>
    if Checked config (mapsOf config assets prices) contracts p total i then
      tokenAt config (mapsOf config assets prices) contracts p i else none, ?_, ?_⟩
  · intro p total i token htotal
    dsimp only
    rw [htotal, Option.bind_some, Option.ite_none_right_eq_some, checked_iff, tokenAt_iff]
  · rw [process_tokens hassets hne hmaps]
    congr 2
    funext p
    cases htotal : contracts.allPairsLength p.address with
    | none => rfl
    | some total =>
      simp only [htotal, Option.bind_some]
      rfl

/-- Two batches of two pairs and of one. -/
def sampleConfig : Config := ⟨["s"], [⟨"f"⟩], 2, 2000, []⟩

def sampleAssets : List AssetsApiDto := [⟨"s", some 0, []⟩]

def sampleServices : Services := ⟨some sampleAssets, fun _ => none⟩

/-- Pairs of a stable coin with tokens of which all have the same reserves. -/
def sampleContracts : Contracts where
  allPairsLength _ := some 3
  allPairs _ i := ["a", "b", "c"][i]?
  token0 _ := some "s"
  token1 pair := some (if pair = "a" then "t" else "u")
  getReserves _ := some (5000, 5000)
  decimals _ := some 0

theorem sample_checked (i : Nat) :
    Reached sampleConfig sampleAssets sampleContracts ⟨"f"⟩ 3 i ↔ i = 0 := by
  rw [← checked_iff []]
  constructor
  · intro h
    obtain ⟨⟨hlast, hlt⟩, -⟩ := h
    change (i + 1) % 2 ≠ 0 at hlast
    omega
  · rintro rfl
    decide +kernel

/-- The second pair of a batch of two and the only one of another are not checked. -/
theorem process_eq_sample : process sampleConfig sampleServices sampleContracts = ⟨["t"], false⟩ := by
  have hassets : sampleServices.getAssetsAndPairsByChain = some sampleAssets := rfl
  have hne : sampleAssets ≠ [] := List.cons_ne_nil _ _
  obtain ⟨sent, hsent, hprocess⟩ :=
    @process_eq sampleConfig sampleContracts sampleServices sampleAssets [] hassets hne rfl
  have hfirst : sent ⟨"f"⟩ 0 = some "t" :=
    (hsent _ 3 0 "t" rfl).mpr ⟨(sample_checked 0).mpr rfl, tokenAt_iff.mp (by decide +kernel)⟩
  have hothers : ∀ i, i ≠ 0 → sent ⟨"f"⟩ i = none := by
    intro i hi
    refine Option.eq_none_iff_forall_ne_some.mpr fun token h => hi ?_
    exact (sample_checked i).mp ((hsent _ 3 i token rfl).mp h).1
  rw [hprocess]
  change Outcome.mk ((List.range 3).filterMap (sent ⟨"f"⟩) ++ []) false = _
  rw [List.append_nil]
  change Outcome.mk ([0, 1, 2].filterMap (sent ⟨"f"⟩)) false = _
  rw [List.filterMap_cons, hfirst, List.filterMap_cons, hothers 1 (by decide), List.filterMap_cons,
    hothers 2 (by decide), List.filterMap_nil]

end

end NewAssets
end Jobs
end DefiBackend
