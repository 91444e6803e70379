import DefiBackend.Common.AbiDecoding
import DefiBackend.Common.Address
import DefiBackend.Common.JsNumber

/-! # Prices of a subgraph

`Univ2SubgraphStrategy.fetchPrices`: the prices of the tokens of a subgraph, which are asked for in
chunks until there are enough of them or no more.

* `doWhilst` ends for any answers, since what is skipped grows;
* `Run.entries`: the prices are those of the tokens that were read and of the coin;
* `exactPagination_iff`: when a prefix of the list is read. The coin is counted as a token. -/

namespace DefiBackend
namespace Assets
namespace Univ2Subgraph
open JsNumber

abbrev ChainId := Nat

/-- Numbers in texts are given by the numbers. -/
structure Token where
  id : Address
  derived : JsNumber

structure AssetPrice where
  sourceId : Nat
  chainId : ChainId
  address : Address
  price : JsNumber

/-- The texts of the query are not modelled, and chunks are not empty. -/
structure Config where
  chainId : ChainId
  maxItems : Option Nat
  chunkSize : Option Nat
  ignoreCoin : Option Bool
  wrappedCoin : Option Address
  chunkSize_pos : ∀ size ∈ chunkSize, 0 < size

structure PriceSource where
  sourceId : Nat
  config : Config

/-- The errors, the tokens and the price in the first bundle, no number if there is none. -/
structure TheGraphResponse where
  errors : List String
  tokens : List Token
  price : JsNumber

/-- A subgraph answers `first` and `skip`, or the request fails with a message. -/
abbrev HttpService := Nat → Nat → Except String TheGraphResponse

def COIN_ADDRESS : Address := "0x0000000000000000000000000000000000000000"

namespace Config
variable (config : Config)

def maxItemsOrDefault : Nat := config.maxItems.getD 5000

def chunkSizeOrDefault : Nat := config.chunkSize.getD 1000

def ignoresCoin : Bool := config.ignoreCoin.getD false

theorem chunkSizeOrDefault_pos : 0 < config.chunkSizeOrDefault := by
  rw [chunkSizeOrDefault]
  cases h : config.chunkSize with
  | none => exact (by decide : 0 < 1000)
  | some size => exact config.chunkSize_pos size h

end Config

/-- The prices of a chunk, and the tokens that were read for them. -/
structure Chunk where
  prices : List AssetPrice
  tokens : List Token

structure State where
  prices : List AssetPrice
  skip : Nat
  tokens : List Token

section
variable (httpService : HttpService) (source : PriceSource)

def parseToken (token : Token) (baseDerived : JsNumber) : AssetPrice :=
  ⟨source.sourceId, source.config.chainId, token.id, baseDerived * token.derived⟩

def coinPrice (baseDerived : JsNumber) : AssetPrice :=
  ⟨source.sourceId, source.config.chainId, COIN_ADDRESS, baseDerived⟩

def getChunkPrices (chunkSize skip : Nat) : Except String Chunk :=
  match httpService chunkSize skip with
  | .error message => if includes message "timeout" then .ok ⟨[], []⟩ else .error message
  | .ok response =>
    if response.errors ≠ [] then .error ("; ".intercalate response.errors)
    else
      let prices := response.tokens.map (parseToken source · response.price)
      if !source.config.ignoresCoin && skip = 0 then
        .ok ⟨prices ++ [coinPrice source response.price], response.tokens⟩
      else .ok ⟨prices, response.tokens⟩

/-- The state at the end of the loop, and the error that has ended it. -/
def doWhilst (s : State) : State × Option String :=
  match getChunkPrices httpService source source.config.chunkSizeOrDefault s.skip with
  | .error e => (s, some e)
  | .ok chunk =>
    let s' : State :=
      ⟨s.prices ++ chunk.prices, s.skip + chunk.prices.length, s.tokens ++ chunk.tokens⟩
    if s.skip + chunk.prices.length < source.config.maxItemsOrDefault ∧ chunk.prices.length ≠ 0 then
      doWhilst s'
    else (s', none)
termination_by source.config.maxItemsOrDefault - s.skip

/-- The prices that are returned, and the tokens that were read, in their order. -/
structure Run where
  prices : List AssetPrice
  tokens : List Token

/-- A second entry for the coin, with the price of the wrapped coin. -/
def wrappedCoinPrice (prices : List AssetPrice) : List AssetPrice :=
  match source.config.wrappedCoin with
  | some wrappedCoin =>
    match prices.find? fun price => lowerCase price.address = lowerCase wrappedCoin with
    | some entry => if entry.price.falsy then [] else [{ entry with address := COIN_ADDRESS }]
    | none => []
  | none => []

def fetchPrices : Except String Run :=
  match doWhilst httpService source ⟨[], 0, []⟩ with
  | (s, some e) =>
    if s.prices = [] then .error e
    else .ok ⟨s.prices ++ wrappedCoinPrice source s.prices, s.tokens⟩
  | (s, none) => .ok ⟨s.prices ++ wrappedCoinPrice source s.prices, s.tokens⟩

end

/-! ## Entries -/

/-- A price of a token: under its id, its price in the coin times one of the coin. -/
structure EntryOf (source : PriceSource) (token : Token) (price : AssetPrice) : Prop where
  sourceId : price.sourceId = source.sourceId
  chainId : price.chainId = source.config.chainId
  address : price.address = token.id
  price : ∃ baseDerived, price.price = baseDerived * token.derived

/-- Prices that are those of tokens, in their order, and some of the coin. -/
inductive Entries (source : PriceSource) : List Token → List AssetPrice → Prop where
  | nil : Entries source [] []
  | token : EntryOf source token price → Entries source tokens prices →
      Entries source (token :: tokens) (price :: prices)
  | coin : price.address = COIN_ADDRESS → Entries source tokens prices →
      Entries source tokens (price :: prices)

theorem Entries.append {source : PriceSource} (H : Entries source tokens prices)
    (H' : Entries source tokens' prices') :
    Entries source (tokens ++ tokens') (prices ++ prices') := by
  induction H with
  | nil => exact H'
  | token hentry _ ih => exact .token hentry ih
  | coin haddress _ ih => exact .coin haddress ih

theorem entries_tokens (source : PriceSource) (tokens : List Token) (baseDerived : JsNumber) :
    Entries source tokens (tokens.map (parseToken source · baseDerived)) := by
  induction tokens with
  | nil => exact .nil
  | cons token tokens ih => exact .token ⟨rfl, rfl, rfl, baseDerived, rfl⟩ ih

section
variable {httpService : HttpService} {source : PriceSource}

theorem entries_getChunkPrices {chunk : Chunk}
    (h : getChunkPrices httpService source size skip = .ok chunk) :
    Entries source chunk.tokens chunk.prices := by
  rw [getChunkPrices] at h
  split at h
  · split at h
    · cases h
      exact .nil
    · cases h
  · next response _ =>
    split at h
    · cases h
    · split at h
      · cases h
        have hentries := (entries_tokens source response.tokens response.price).append
          (.coin rfl .nil : Entries source [] [coinPrice source response.price])
        rwa [List.append_nil] at hentries
      · cases h
        exact entries_tokens source response.tokens response.price

variable (httpService source) in
theorem entries_doWhilst (s : State) (hs : Entries source s.tokens s.prices) :
    Entries source (doWhilst httpService source s).1.tokens
      (doWhilst httpService source s).1.prices := by
  induction s using doWhilst.induct httpService source with
  | case1 s e h =>
    rw [doWhilst, h]
    exact hs
  | case2 s chunk h s' hnext ih =>
    rw [doWhilst, h]
    simp only [if_pos hnext]
    exact ih (hs.append (entries_getChunkPrices h))
  | case3 s chunk h hlast =>
    rw [doWhilst, h]
    simp only [if_neg hlast]
    exact hs.append (entries_getChunkPrices h)

theorem entries_wrappedCoinPrice (prices : List AssetPrice) :
    Entries source [] (wrappedCoinPrice source prices) := by
  rw [wrappedCoinPrice]
  split
  · split
    · split
      · exact .nil
      · exact .coin rfl .nil
    · exact .nil
  · exact .nil

/-- What is returned are entries of the tokens that were read and of the coin. -/
theorem Run.entries {run : Run} (h : fetchPrices httpService source = .ok run) :
    Entries source run.tokens run.prices := by
  have hloop := entries_doWhilst httpService source ⟨[], 0, []⟩ .nil
  rw [fetchPrices] at h
  split at h
  · next s _ hs =>
    rw [hs] at hloop
    split at h
    · cases h
    · cases h
      have hentries := hloop.append (entries_wrappedCoinPrice s.prices)
      rwa [List.append_nil] at hentries
  · next s hs =>
    rw [hs] at hloop
    cases h
    have hentries := hloop.append (entries_wrappedCoinPrice s.prices)
    rwa [List.append_nil] at hentries

end

/-! ## A subgraph that answers -/

/-- A fixed list of tokens with different ids. -/
structure Subgraph where
  tokens : List Token
  price : JsNumber
  nodup : (tokens.map (·.id)).Nodup

/-- The answers of the subgraph. -/
def Subgraph.httpService (graph : Subgraph) : HttpService := fun first skip =>
  .ok ⟨[], (graph.tokens.drop skip).take first, graph.price⟩

section
variable {graph : Subgraph} {source : PriceSource}

theorem Subgraph.getChunkPrices_eq (graph : Subgraph) (source : PriceSource) (size skip : Nat) :
    ∃ prices, getChunkPrices graph.httpService source size skip =
        .ok ⟨prices, (graph.tokens.drop skip).take size⟩ ∧
      prices.length = ((graph.tokens.drop skip).take size).length +
        (if !source.config.ignoresCoin && skip = 0 then 1 else 0) := by
  rw [getChunkPrices, Subgraph.httpService]
  simp only [ne_eq, not_true_eq_false, if_false]
  split
  · refine ⟨_, rfl, ?_⟩
    rw [List.length_append, List.length_map, List.length_singleton]
  · refine ⟨_, rfl, ?_⟩
    rw [List.length_map, Nat.add_zero]

variable (graph source) in
/-- Where the coin is not counted, the tokens are read one chunk after the other. -/
theorem doWhilst_tokens (s : State) (hcoin : ¬ (!source.config.ignoresCoin && s.skip = 0)) :
    (doWhilst graph.httpService source s).2 = none ∧
      ∃ m, min (graph.tokens.length - s.skip) (source.config.maxItemsOrDefault - s.skip) ≤ m ∧
        (doWhilst graph.httpService source s).1.tokens =
          s.tokens ++ (graph.tokens.drop s.skip).take m := by
  have hpos := source.config.chunkSizeOrDefault_pos
  have hchunk (s : State) (hcoin : ¬ (!source.config.ignoresCoin && s.skip = 0)) :
      ∃ prices, getChunkPrices graph.httpService source source.config.chunkSizeOrDefault s.skip =
        .ok ⟨prices, (graph.tokens.drop s.skip).take prices.length⟩ ∧
      prices.length = min source.config.chunkSizeOrDefault (graph.tokens.length - s.skip) := by
    obtain ⟨prices, h, hlength⟩ :=
      graph.getChunkPrices_eq source source.config.chunkSizeOrDefault s.skip
    rw [if_neg hcoin, Nat.add_zero, List.length_take, List.length_drop] at hlength
    have htake : (graph.tokens.drop s.skip).take source.config.chunkSizeOrDefault =
        (graph.tokens.drop s.skip).take prices.length := by
      rw [List.take_eq_take_iff, List.length_drop]
      omega
    rw [htake] at h
    exact ⟨prices, h, hlength⟩
  induction s using doWhilst.induct graph.httpService source with
  | case1 s e h =>
    obtain ⟨prices, hprices, -⟩ := hchunk s hcoin
    rw [hprices] at h
    cases h
  | case2 s chunk h s' hnext ih =>
    obtain ⟨prices, hprices, hlength⟩ := hchunk s hcoin
    rw [doWhilst, h]
    simp only [if_pos hnext]
    rw [hprices] at h
    cases h
    have hnext' : ¬ (!source.config.ignoresCoin && decide (s'.skip = 0)) := by
      intro h0
      have hzero : s.skip + prices.length = 0 := of_decide_eq_true (Bool.and_eq_true_iff.mp h0).2
      exact hnext.2 (Nat.eq_zero_of_add_eq_zero_left hzero)
    obtain ⟨hnone, m, hm, htokens⟩ := ih hnext'
    refine ⟨hnone, prices.length + m, ?_, ?_⟩
    · simp only [s'] at hm
      omega
    · rw [htokens, List.append_assoc, List.take_add, List.drop_drop]
  | case3 s chunk h hlast =>
    obtain ⟨prices, hprices, hlength⟩ := hchunk s hcoin
    rw [doWhilst, h]
    simp only [if_neg hlast]
    rw [hprices] at h
    cases h
    refine ⟨trivial, prices.length, ?_, rfl⟩
    simp only at hlast
    omega

/-- The prefix of the list that a run reads. -/
def ExactPagination (source : PriceSource) (graph : Subgraph) : Prop :=
  ∃ run, fetchPrices graph.httpService source = .ok run ∧ Entries source run.tokens run.prices ∧
    run.tokens <+: graph.tokens ∧
    min graph.tokens.length source.config.maxItemsOrDefault ≤ run.tokens.length

theorem fetchPrices_of_none (h : (doWhilst graph.httpService source ⟨[], 0, []⟩).2 = none) :
    ∃ run, fetchPrices graph.httpService source = .ok run ∧
      run.tokens = (doWhilst graph.httpService source ⟨[], 0, []⟩).1.tokens := by
  rw [fetchPrices]
  generalize doWhilst graph.httpService source ⟨[], 0, []⟩ = outcome at *
  obtain ⟨s, e⟩ := outcome
  cases h
  exact ⟨_, rfl, rfl⟩

variable (graph source) in
/-- With the coin, the first chunk is one entry longer than what was read. -/
theorem doWhilst_first (hcoin : source.config.ignoresCoin = false) :
    (doWhilst graph.httpService source ⟨[], 0, []⟩).2 = none ∧
      ∃ m, (doWhilst graph.httpService source ⟨[], 0, []⟩).1.tokens =
        graph.tokens.take source.config.chunkSizeOrDefault ++ (graph.tokens.drop
          (min source.config.chunkSizeOrDefault graph.tokens.length + 1)).take m ∧
      (source.config.maxItemsOrDefault ≤ min source.config.chunkSizeOrDefault
        graph.tokens.length + 1 → m = 0) := by
  obtain ⟨prices, hprices, hlength⟩ :=
    graph.getChunkPrices_eq source source.config.chunkSizeOrDefault 0
  rw [hcoin, if_pos (by decide), List.drop_zero, List.length_take] at hlength
  rw [doWhilst, hprices, List.drop_zero]
  simp only [Nat.zero_add, List.nil_append]
  split
  · next hnext =>
    obtain ⟨hnone, m, -, htokens⟩ := doWhilst_tokens graph source
      ⟨prices, prices.length, graph.tokens.take source.config.chunkSizeOrDefault⟩
      (by simp [hnext.2])
    refine ⟨hnone, m, by rw [htokens, hlength], fun hle => ?_⟩
    omega
  · exact ⟨rfl, 0, by rw [List.take_zero, List.append_nil], fun _ => rfl⟩

/-- A prefix of the right length is read exactly if the coin is ignored, or the first chunk holds
all tokens, or it holds as many as are asked for: otherwise the token after it is left out. -/
theorem exactPagination_iff (source : PriceSource) (graph : Subgraph) :
    ExactPagination source graph ↔ source.config.ignoresCoin ∨
      graph.tokens.length ≤ source.config.chunkSizeOrDefault ∨
      source.config.maxItemsOrDefault ≤ source.config.chunkSizeOrDefault := by
  have hpos := source.config.chunkSizeOrDefault_pos
  by_cases hcoin : source.config.ignoresCoin
  · refine iff_of_true ?_ (.inl hcoin)
    obtain ⟨hnone, m, hm, htokens⟩ := doWhilst_tokens graph source
      ⟨[], 0, []⟩ (by simp [hcoin])
    obtain ⟨run, hrun, hsame⟩ := fetchPrices_of_none hnone
    rw [htokens, List.nil_append, List.drop_zero] at hsame
    refine ⟨run, hrun, Run.entries hrun, ?_, ?_⟩
    · rw [hsame]
      exact List.take_prefix _ _
    · rw [hsame, List.length_take]
      simp only [Nat.sub_zero] at hm
      omega
  · obtain ⟨hnone, m, htokens, hm⟩ := doWhilst_first graph source (Bool.eq_false_iff.mpr hcoin)
    obtain ⟨run, hrun, hsame⟩ := fetchPrices_of_none hnone
    rw [htokens] at hsame
    rw [or_iff_right hcoin]
    constructor
    · rintro ⟨run', hrun', -, hprefix, hlength⟩
      rw [hrun] at hrun'
      cases hrun'
      by_contra hne
      rw [not_or, Nat.not_le, Nat.not_le] at hne
      rw [Nat.min_eq_left hne.1.le] at hsame hm
      have hlt : source.config.chunkSizeOrDefault < run.tokens.length := by omega
      -- after the first chunk comes the token that is next but one
      have hget : graph.tokens[source.config.chunkSizeOrDefault]? =
          graph.tokens[source.config.chunkSizeOrDefault + 1]? := by
        have hprefix := List.prefix_iff_eq_take.mp hprefix
        have hm0 : 0 < m := by
          rw [hsame, List.length_append, List.length_take, List.length_take] at hlt
          omega
        rw [← List.getElem?_take_of_lt hlt, ← hprefix, hsame, List.getElem?_append_right
          (List.length_take_le _ _), List.length_take, Nat.min_eq_left hne.1.le, Nat.sub_self,
          List.getElem?_take_of_lt hm0, List.getElem?_drop, Nat.add_zero]
      have hsucc := (List.getElem?_inj hne.1 (List.Nodup.of_map _ graph.nodup)).mp hget
      omega
    · intro h
      refine ⟨run, hrun, Run.entries hrun, ?_⟩
      rw [hsame]
      rcases le_or_gt graph.tokens.length source.config.chunkSizeOrDefault with hle | hgt
      · rw [Nat.min_eq_right hle, List.take_of_length_le hle,
          List.drop_eq_nil_of_le (Nat.le_succ _), List.take_nil, List.append_nil]
        exact ⟨List.prefix_refl _, Nat.min_le_left _ _⟩
      · have hmax := h.resolve_left (Nat.not_le.mpr hgt)
        rw [Nat.min_eq_left hgt.le] at hm ⊢
        rw [hm (Nat.le_succ_of_le hmax), List.take_zero, List.append_nil, List.length_take]
        exact ⟨List.take_prefix _ _, by omega⟩

end

/-! ## The token after the first chunk -/

/-- Three tokens, asked for in chunks of one. -/
def sampleGraph : Subgraph where
  tokens := [⟨"0xa", 1⟩, ⟨"0xb", 1⟩, ⟨"0xc", 1⟩]
  price := 2
  nodup := by decide

def sampleSource : PriceSource :=
  ⟨1, ⟨1, none, some 1, none, none, by decide⟩⟩

/-- The second token is left out. -/
theorem sampleSource_skips : ¬ ExactPagination sampleSource sampleGraph := by
  rintro ⟨run, hrun, -, -, hlength⟩
  obtain ⟨hnone, m, htokens, -⟩ :=
    doWhilst_first sampleGraph sampleSource rfl
  obtain ⟨run', hrun', hsame⟩ := fetchPrices_of_none hnone
  rw [hrun] at hrun'
  cases hrun'
  have hle : run.tokens.length ≤ 1 + 1 := by
    rw [hsame, htokens, List.length_append]
    refine Nat.add_le_add (List.length_take_le _ _) ?_
    exact (List.length_take_le' _ _).trans (by decide)
  have hge : 3 ≤ run.tokens.length := hlength
  omega

end Univ2Subgraph
end Assets
end DefiBackend
