import DefiBackend.Jobs.ReservePrices

/-! # Missing reserves

`processor.ts` of the prices job: the prices of all tokens, in three stages. First comes the wrapped
coin, then the white-listed coins and the stable coins, each with the prices of those before it,
then all others. A pair without reserves makes it throw, as do a wrapped coin without a price and a
stable coin with a liquid pair of which the other token has no price.

* `quotes`: the prices of the coins, as means of what their liquid pairs imply.
* `robust_iff`: all prices are found, and are the same without the pairs that miss reserves, exactly
  when what is read is there. -/

namespace DefiBackend
namespace Jobs
namespace LambdaPrices
open Theory

/-! ## All prices -/

/-- A map of base assets has them under their addresses. -/
structure BaseAssetsMap where
  map : JsMap String AssetsApiDto
  keyed : ∀ address asset, map.get address = some asset → asset.address = address

/-- `buildBaseAssetsMap`. -/
def buildBaseAssetsMap (assets : List AssetsApiDto) (baseAssets : List String) :
    JsMap String AssetsApiDto :=
  assets.foldl (fun baseAssetsMap asset =>
    if asset.address ∈ baseAssets then baseAssetsMap.set asset.address asset else baseAssetsMap) []

theorem buildBaseAssetsMap_keyed (assets : List AssetsApiDto) (baseAssets : List String) :
    ∀ address asset, (buildBaseAssetsMap assets baseAssets).get address = some asset →
      asset.address = address := by
  apply List.foldlRecOn (motive := fun m : JsMap String AssetsApiDto =>
    ∀ address asset, m.get address = some asset → asset.address = address)
  · exact fun _ _ h => nomatch h
  · intro m hm asset _ address asset' hasset'
    split at hasset'
    · rw [JsMap.get_set] at hasset'
      split at hasset'
      · next heq =>
        cases hasset'
        exact heq
      · exact hm address asset' hasset'
    · exact hm address asset' hasset'

def zeroAddress : String := "0x0000000000000000000000000000000000000000"

section
variable (config : Config) (assets : List AssetsApiDto) (pairsReserves : UniswapReservesData)
variable (baseAssetsMap : JsMap String AssetsApiDto)

/-- The callback for a coin of a category: its price is set. -/
def setPrice (category : TokensCategories) (baseTokensPrices : PriceMap) (address : String) :
    Except Thrown PriceMap := do
  let asset := baseAssetsMap.get address
  let price ← getTokenPrice config asset pairsReserves category (some baseTokensPrices)
  return baseTokensPrices.set address price

/-- The callback for an asset that has pairs. -/
def tokenPrice (baseTokensPrices : PriceMap) (asset : AssetsApiDto) :
    Except Thrown (Option PriceDto) :=
  match lookup (some baseTokensPrices) asset.address with
  | some basePrice =>
    if asset.address = basePrice.address then return some basePrice
    else getTokenPrice config (some asset) pairsReserves .simple (some baseTokensPrices)
  | none => getTokenPrice config (some asset) pairsReserves .simple (some baseTokensPrices)

/-- The first part of `getTokensPricesFromReserves`: the price of the wrapped coin, and those of all
coins. -/
def getBaseTokensPrices : Except Thrown (PriceDto × PriceMap) := do
  let wrappedAsset := assets.find? (·.address = config.wrappedCoin)
  let wrappedCoinPrice ← getTokenPrice config wrappedAsset pairsReserves .base none
  match wrappedCoinPrice with
  | none => throw .address
  | some wrappedCoinPrice =>
    let baseTokensPrices : PriceMap := JsMap.set [] wrappedCoinPrice.address (some wrappedCoinPrice)
    let baseTokensPrices ←
      config.whiteListCoins.foldlM (setPrice config pairsReserves baseAssetsMap .base)
        baseTokensPrices
    let baseTokensPrices ←
      config.stableCoins.foldlM (setPrice config pairsReserves baseAssetsMap .stable)
        baseTokensPrices
    return (wrappedCoinPrice, baseTokensPrices)

def getTokensPricesFromReserves : Except Thrown (List PriceDto) := do
  let (wrappedCoinPrice, baseTokensPrices) ←
    getBaseTokensPrices config assets pairsReserves baseAssetsMap
  let tokensPrices ← (assets.filter (¬ ·.pairs.isEmpty)).mapM
    (tokenPrice config pairsReserves baseTokensPrices)
  let coinPrice : PriceDto :=
    { wrappedCoinPrice with
      address := zeroAddress
      chainId := config.chainId
      currencyId := config.currencyId }
  return (tokensPrices ++ [some coinPrice]).filterMap id

end

/-- An asset without the pairs that miss reserves. -/
def dropMissing (pairsReserves : UniswapReservesData) (asset : AssetsApiDto) : AssetsApiDto :=
  { asset with pairs := asset.pairs.filter fun pair => (pairsReserves.get pair.address).isSome }

/-- All prices are found, and are those without the pairs that miss reserves. -/
def Robust (config : Config) (assets : List AssetsApiDto) (pairsReserves : UniswapReservesData)
    (baseAssetsMap : JsMap String AssetsApiDto) : Prop :=
  ∃ prices, getTokensPricesFromReserves config assets pairsReserves baseAssetsMap = .ok prices ∧
    getTokensPricesFromReserves config (assets.map (dropMissing pairsReserves)) pairsReserves
      (baseAssetsMap.map fun e => (e.1, dropMissing pairsReserves e.2)) = .ok prices

/-! ## Quotes -/

section
variable (config : Config) (pairsReserves : UniswapReservesData)
variable (baseAssetsMap : JsMap String AssetsApiDto)

/-- What the liquid pairs of a token imply on average. It is no number where one of them has no
reserve of the token. -/
def quote (prices : Known) (category : TokensCategories) (asset : AssetsApiDto) : Option JsNumber :=
  let l := liquidSides config prices category pairsReserves asset
  if l = [] then none
  else if ∃ s ∈ l, s.ownReserve = 0 then some .nan
  else some (.total (l.map (·.worth config prices category)) / .total (l.map (·.ownReserve)))

/-- The quote of a coin is added to those before it. -/
def addQuote (category : TokensCategories) (prices : Known) (address : String) : Known :=
  Function.update prices address ((baseAssetsMap.get address).bind
    (quote config pairsReserves prices category))

/-- The quote of the wrapped coin. -/
def wrappedQuote (wrappedAsset : AssetsApiDto) : Known :=
  Function.update (fun _ => none) config.wrappedCoin
    (quote config pairsReserves (fun _ => none) .base wrappedAsset)

/-- All quotes. -/
def quotes (wrappedAsset : AssetsApiDto) : Known :=
  config.stableCoins.foldl (addQuote config pairsReserves baseAssetsMap .stable)
    (config.whiteListCoins.foldl (addQuote config pairsReserves baseAssetsMap .base)
      (wrappedQuote config pairsReserves wrappedAsset))

/-- What is read for a coin is there, if it is a base asset. -/
def CoinAnswerable (category : TokensCategories) (prices : Known) (address : String) : Prop :=
  ∀ asset, baseAssetsMap.get address = some asset →
    Answerable config prices category pairsReserves asset

/-- What is read of reserves and prices is there for the wrapped coin, which has a liquid pair, and
for the other coins. -/
structure CoinsSufficient (assets : List AssetsApiDto) (wrappedAsset : AssetsApiDto) : Prop where
  listed : assets.find? (·.address = config.wrappedCoin) = some wrappedAsset
  wrapped : Answerable config (fun _ => none) .base pairsReserves wrappedAsset
  liquid : liquidSides config (fun _ => none) .base pairsReserves wrappedAsset ≠ []
  whiteList : ∀ before address after, config.whiteListCoins = before ++ address :: after →
    CoinAnswerable config pairsReserves baseAssetsMap .base
      (before.foldl (addQuote config pairsReserves baseAssetsMap .base)
        (wrappedQuote config pairsReserves wrappedAsset)) address
  stable : ∀ before address after, config.stableCoins = before ++ address :: after →
    CoinAnswerable config pairsReserves baseAssetsMap .stable
      (before.foldl (addQuote config pairsReserves baseAssetsMap .stable)
        (config.whiteListCoins.foldl (addQuote config pairsReserves baseAssetsMap .base)
          (wrappedQuote config pairsReserves wrappedAsset))) address

/-- And for all other assets. Those that are coins with a quote keep a pair. -/
structure Sufficient (assets : List AssetsApiDto) (wrappedAsset : AssetsApiDto) : Prop
    extends CoinsSufficient config pairsReserves baseAssetsMap assets wrappedAsset where
  others : ∀ asset ∈ assets, (∀ pair ∈ asset.pairs, (pairsReserves.get pair.address).isSome) ∨
    (quotes config pairsReserves baseAssetsMap wrappedAsset asset.address).isSome ∧
      ∃ pair ∈ asset.pairs, (pairsReserves.get pair.address).isSome

end

/-! ## Quotes of coins -/

/-- A price that is a number, if not `NaN`, is finite. -/
def Regular (prices : Known) : Prop :=
  ∀ address price, prices address = some price → price = .nan ∨ ∃ q, price = .finite q

section
variable {config : Config} {prices : Known} {pairsReserves : UniswapReservesData}
variable {asset : AssetsApiDto}

theorem getPairTokenReserve_cases (token : Token) (reserves : List Nat) :
    getPairTokenReserve token reserves = .nan ∨
      ∃ q : ℚ, 0 ≤ q ∧ getPairTokenReserve token reserves = .finite q := by
  rw [getPairTokenReserve, decimalsReserve]
  cases reserves[token.pairPosition]? with
  | none =>
    left
    split
    · rfl
    · exact JsNumber.nan_div _
  | some reserve =>
    right
    split
    · exact ⟨reserve, Nat.cast_nonneg _, rfl⟩
    · refine ⟨reserve / 10 ^ (getCorrectTokenDecimals token.decimals : ℤ), ?_, ?_⟩
      · exact div_nonneg (Nat.cast_nonneg _) (zpow_nonneg (by norm_num) _)
      · exact JsNumber.finite_div _ (zpow_ne_zero _ (by norm_num))

/-- The reserves of a pair are no negative numbers. -/
theorem sides_cases {s : Side} (hs : s ∈ sides pairsReserves asset) :
    (s.ownReserve = .nan ∨ ∃ q : ℚ, 0 ≤ q ∧ s.ownReserve = .finite q) ∧
      (s.partnerReserve = .nan ∨ ∃ q : ℚ, 0 ≤ q ∧ s.partnerReserve = .finite q) := by
  obtain ⟨pair, -, hside⟩ := List.mem_filterMap.mp hs
  obtain ⟨r, -, rfl⟩ := Option.map_eq_some_iff.mp hside
  exact ⟨getPairTokenReserve_cases _ _, getPairTokenReserve_cases _ _⟩

/-- What the limit lets through is a number. -/
theorem Side.liquid.usd_ne_nan {category : TokensCategories} {s : Side}
    (h : s.liquid config prices category) : s.usd prices category ≠ .nan := by
  intro hnan
  rw [Side.liquid, hnan, JsNumber.not_le_nan] at h
  cases h

/-- What is liquid has a reserve of the other token, and a price of it that is a number. -/
theorem Side.liquid.partnerReserve_ne_nan {s : Side} (h : s.liquid config prices .base) :
    s.partnerReserve ≠ .nan := by
  intro hnan
  apply Side.liquid.usd_ne_nan h
  simp only [Side.usd, hnan]
  split
  · exact JsNumber.mul_nan _
  · rfl

theorem Side.liquid.price_ne_nan {s : Side} (h : s.liquid config prices .base) :
    prices s.partner ≠ some .nan := by
  intro hnan
  apply Side.liquid.usd_ne_nan h
  simp only [Side.usd, hnan]
  exact JsNumber.nan_mul _

/-- The other tokens' reserves in the liquid pairs of a base asset have a worth. -/
theorem worth_finite (hregular : Regular prices)
    (h : Answerable config prices .base pairsReserves asset) {s : Side}
    (hs : s ∈ liquidSides config prices .base pairsReserves asset) :
    s.worth config prices .base = .finite (s.worth config prices .base).toRat := by
  obtain ⟨hside, hliquid⟩ := List.mem_filter.mp hs
  have hprice : ∃ q, s.partnerPrice config prices .base = some (.finite q) := by
    obtain ⟨price, hprice⟩ := Option.isSome_iff_exists.mp (h.prices s hs)
    rw [Side.partnerPrice] at hprice ⊢
    split at hprice
    · next hwrapped =>
      rw [if_pos hwrapped]
      rcases hregular _ _ hprice with rfl | ⟨q, rfl⟩
      · exact absurd (hwrapped ▸ hprice) (Side.liquid.price_ne_nan hliquid)
      · exact ⟨q, hprice⟩
    · next hwrapped => exact ⟨1, if_neg hwrapped⟩
  obtain ⟨q, hq⟩ := hprice
  obtain ⟨partner, -, hpartner⟩ :=
    (sides_cases hside).2.resolve_left (Side.liquid.partnerReserve_ne_nan hliquid)
  rw [Side.worth, hq, hpartner]
  rfl

/-- Reserves that are numbers, and not nothing. -/
theorem sides_finite (hregular : Regular prices)
    (h : Answerable config prices .base pairsReserves asset)
    (hzero : ¬ ∃ s ∈ liquidSides config prices .base pairsReserves asset, s.ownReserve = 0)
    (hnan : ¬ ∃ s ∈ liquidSides config prices .base pairsReserves asset, s.ownReserve = .nan) :
    ∀ s ∈ liquidSides config prices .base pairsReserves asset, s.Finite config prices .base := by
  intro s hs
  have hown := (sides_cases (List.mem_of_mem_filter hs)).1
  obtain ⟨q, hq, hfinite⟩ := hown.resolve_left fun h => hnan ⟨s, hs, h⟩
  have hpos : q ≠ 0 := by
    rintro rfl
    exact hzero ⟨s, hs, hfinite⟩
  refine ⟨by rw [hfinite]; rfl, ?_, worth_finite hregular h hs⟩
  rw [hfinite]
  exact lt_of_le_of_ne hq hpos.symm

/-- The shares of liquid pairs of a base asset add up to its quote. -/
theorem total_share_base (hregular : Regular prices)
    (h : Answerable config prices .base pairsReserves asset)
    (hne : liquidSides config prices .base pairsReserves asset ≠ []) :
    some (JsNumber.total ((liquidSides config prices .base pairsReserves asset).map
        (·.share config prices .base (liquidity config prices .base pairsReserves asset)))) =
      quote config pairsReserves prices .base asset := by
  have hshare : ∀ s : Side, ∀ total, s.share config prices .base total =
      s.ownReserve / total * (s.worth config prices .base / s.ownReserve) :=
    fun s total => Side.share_eq TokensCategories.noConfusion s total
  simp only [quote, if_neg hne, hshare]
  split
  · next hzero =>
    obtain ⟨s, hs, hzero⟩ := hzero
    refine congrArg some (JsNumber.total_nan (List.mem_map.mpr ⟨s, hs, ?_⟩))
    rw [hzero]
    exact JsNumber.zero_div_mul_div_zero _ _
  · next hzero =>
    by_cases hnan : ∃ s ∈ liquidSides config prices .base pairsReserves asset, s.ownReserve = .nan
    · have hliquidity : liquidity config prices .base pairsReserves asset = .nan := by
        obtain ⟨s, hs, hnan⟩ := hnan
        exact JsNumber.total_nan (List.mem_map.mpr ⟨s, hs, hnan⟩)
      obtain ⟨s, hs, -⟩ := hnan
      rw [liquidity] at hliquidity
      rw [liquidity, hliquidity, JsNumber.div_nan]
      refine congrArg some (JsNumber.total_nan (List.mem_map.mpr ⟨s, hs, ?_⟩))
      rw [JsNumber.div_nan, JsNumber.nan_mul]
    · have hfinite := sides_finite hregular h hzero hnan
      have hpos : 0 < ((liquidSides config prices .base pairsReserves asset).map
          fun s : Side => s.ownReserve.toRat).sum :=
        sum_weight_pos hne fun s hs => (hfinite s hs).pos
      have hliquidity := JsNumber.total_finite fun s hs => (hfinite s hs).own
      rw [mean_finite hne hfinite, liquidity, hliquidity,
        JsNumber.total_finite fun s hs => (hfinite s hs).weighted hpos.ne',
        sum_share_eq_mean fun s hs => (hfinite s hs).pos.ne']

/-- The price of a base asset is its quote. -/
theorem priceFor_base (hregular : Regular prices)
    (h : Answerable config prices .base pairsReserves asset) :
    (priceFor config prices .base pairsReserves asset).map (·.price) =
      quote config pairsReserves prices .base asset := by
  by_cases hne : liquidSides config prices .base pairsReserves asset = []
  · simp only [priceFor, quote, if_pos hne, Option.map_none]
  · rw [← total_share_base hregular h hne]
    simp only [priceFor, if_neg hne, Option.map_some]

/-- A price is found where there is a quote. -/
theorem isSome_priceFor {category : TokensCategories} :
    (priceFor config prices category pairsReserves asset).isSome =
      (quote config pairsReserves prices category asset).isSome := by
  by_cases hne : liquidSides config prices category pairsReserves asset = []
  · simp only [priceFor, quote, if_pos hne]
    rfl
  · simp only [priceFor, quote, if_neg hne]
    split <;> rfl

theorem priceFor_address {category : TokensCategories} {price : PriceDto}
    (h : priceFor config prices category pairsReserves asset = some price) :
    price.address = asset.address := by
  simp only [priceFor] at h
  split at h
  · cases h
  · cases h
    rfl

/-- The quote of a base asset is finite, if it is a number. -/
theorem quote_regular (hregular : Regular prices)
    (h : Answerable config prices .base pairsReserves asset) {price : JsNumber}
    (hprice : quote config pairsReserves prices .base asset = some price) :
    price = .nan ∨ ∃ q, price = .finite q := by
  by_cases hne : liquidSides config prices .base pairsReserves asset = []
  · rw [quote, if_pos hne] at hprice
    cases hprice
  · simp only [quote, if_neg hne] at hprice
    split at hprice
    · exact .inl (Option.some.inj hprice).symm
    · next hzero =>
      rw [← Option.some.inj hprice]
      by_cases hnan : ∃ s ∈ liquidSides config prices .base pairsReserves asset, s.ownReserve = .nan
      · obtain ⟨s, hs, hnan⟩ := hnan
        rw [JsNumber.total_nan (l := List.map (·.ownReserve) _) (List.mem_map.mpr ⟨s, hs, hnan⟩)]
        exact .inl (JsNumber.div_nan _)
      · exact .inr ⟨_, mean_finite hne (sides_finite hregular h hzero hnan)⟩

end

/-! ## Coins -/

section
variable {config : Config} {pairsReserves : UniswapReservesData}
variable {baseAssetsMap : JsMap String AssetsApiDto} {category : TokensCategories}
variable {baseTokensPrices : PriceMap} {prices : Known} {address : String}

theorem lookup_set {price : Option PriceDto} {address' : String} :
    lookup (some (baseTokensPrices.set address price)) address' =
      if address = address' then price else lookup (some baseTokensPrices) address' := by
  simp only [lookup, Option.bind_some, JsMap.get_set]
  split <;> rfl

theorem known_set {price : Option PriceDto} :
    known (some (baseTokensPrices.set address price)) =
      Function.update (known (some baseTokensPrices)) address (price.map (·.price)) := by
  funext address'
  rw [known, lookup_set, Function.update_apply]
  by_cases h : address = address'
  · rw [if_pos h, if_pos h.symm]
  · rw [if_neg h, if_neg (Ne.symm h)]
    rfl

/-- What a coin is looked up for is there exactly when its price can be set. -/
theorem succeeds_setPrice :
    Succeeds (setPrice config pairsReserves baseAssetsMap category baseTokensPrices address) ↔
      CoinAnswerable config pairsReserves baseAssetsMap category (known (some baseTokensPrices))
        address := by
  rw [setPrice, succeeds_bind_of_forall fun _ => succeeds_pure, CoinAnswerable]
  cases baseAssetsMap.get address with
  | none => exact ⟨fun _ _ h => (nomatch h), fun _ => succeeds_ok⟩
  | some asset =>
    rw [succeeds_getTokenPrice fun _ => rfl]
    constructor
    · intro h _ hasset
      cases hasset
      exact h
    · intro h
      exact h asset rfl

theorem setPrice_eq (h : CoinAnswerable config pairsReserves baseAssetsMap category
      (known (some baseTokensPrices)) address) :
    setPrice config pairsReserves baseAssetsMap category baseTokensPrices address =
      .ok (baseTokensPrices.set address ((baseAssetsMap.get address).bind
        (priceFor config (known (some baseTokensPrices)) category pairsReserves))) := by
  rw [setPrice]
  cases hget : baseAssetsMap.get address with
  | none => rfl
  | some asset =>
    rw [getTokenPrice_eq (fun _ => rfl) (h asset hget)]
    rfl

/-- Prices are stored under their addresses. -/
def Addressed (baseTokensPrices : PriceMap) : Prop :=
  ∀ address price, lookup (some baseTokensPrices) address = some price → price.address = address

/-- The prices are the quotes. -/
structure Quoted (baseTokensPrices : PriceMap) (prices : Known) : Prop where
  known : known (some baseTokensPrices) = prices
  regular : Regular prices
  addressed : Addressed baseTokensPrices

/-- There are prices where there are quotes. -/
structure Priced (baseTokensPrices : PriceMap) (prices : Known) : Prop where
  isSome : ∀ address, (known (some baseTokensPrices) address).isSome = (prices address).isSome
  addressed : Addressed baseTokensPrices

theorem Quoted.priced (H : Quoted baseTokensPrices prices) : Priced baseTokensPrices prices :=
  ⟨fun _ => by rw [H.known], H.addressed⟩

theorem Addressed.set (H : Addressed baseTokensPrices)
    (hkeyed : ∀ asset, baseAssetsMap.get address = some asset → asset.address = address) :
    Addressed (baseTokensPrices.set address ((baseAssetsMap.get address).bind
      (priceFor config prices category pairsReserves))) := by
  intro address' price hprice
  rw [lookup_set] at hprice
  split at hprice
  · next heq =>
    obtain ⟨asset, hasset, hprice⟩ := Option.bind_eq_some_iff.mp hprice
    rw [priceFor_address hprice, hkeyed asset hasset, heq]
  · exact H address' price hprice

/-- A base coin's price is set to its quote. -/
theorem Quoted.setPrice (H : Quoted baseTokensPrices prices)
    (hkeyed : ∀ asset, baseAssetsMap.get address = some asset → asset.address = address)
    (h : CoinAnswerable config pairsReserves baseAssetsMap .base prices address) :
    Quoted (baseTokensPrices.set address ((baseAssetsMap.get address).bind
        (priceFor config prices .base pairsReserves)))
      (addQuote config pairsReserves baseAssetsMap .base prices address) := by
  refine ⟨?_, ?_, H.addressed.set hkeyed⟩
  · rw [known_set, H.known, addQuote, Option.map_bind]
    congr 1
    cases hget : baseAssetsMap.get address with
    | none => rfl
    | some asset => exact priceFor_base H.regular (h asset hget)
  · intro address' price hprice
    rw [addQuote, Function.update_apply] at hprice
    split at hprice
    · obtain ⟨asset, hasset, hprice⟩ := Option.bind_eq_some_iff.mp hprice
      exact quote_regular H.regular (h asset hasset) hprice
    · exact H.regular address' price hprice

/-- Which pairs of a stable coin are liquid does not depend on prices, and only that there are
prices matters. -/
theorem Answerable.stable_congr {prices' : Known} {asset : AssetsApiDto}
    (h : ∀ address, (prices address).isSome = (prices' address).isSome) :
    Answerable config prices .stable pairsReserves asset ↔
      Answerable config prices' .stable pairsReserves asset := by
  constructor
  · intro H
    refine ⟨H.reserves, fun s hs => ?_⟩
    exact (h s.partner).symm.trans (H.prices s hs)
  · intro H
    refine ⟨H.reserves, fun s hs => ?_⟩
    exact (h s.partner).trans (H.prices s hs)

theorem isSome_quote_stable (prices prices' : Known) (asset : AssetsApiDto) :
    (quote config pairsReserves prices .stable asset).isSome =
      (quote config pairsReserves prices' .stable asset).isSome := by
  have hsides : liquidSides config prices .stable pairsReserves asset =
      liquidSides config prices' .stable pairsReserves asset := rfl
  rw [← isSome_priceFor, ← isSome_priceFor]
  simp only [priceFor, hsides]
  split <;> rfl

/-- A stable coin's price is set if it has a quote. -/
theorem Priced.setPrice (H : Priced baseTokensPrices prices)
    (hkeyed : ∀ asset, baseAssetsMap.get address = some asset → asset.address = address) :
    Priced (baseTokensPrices.set address ((baseAssetsMap.get address).bind
        (priceFor config (LambdaPrices.known (some baseTokensPrices)) .stable pairsReserves)))
      (addQuote config pairsReserves baseAssetsMap .stable prices address) := by
  refine ⟨fun address' => ?_, H.addressed.set hkeyed⟩
  rw [known_set, addQuote, Function.update_apply, Function.update_apply]
  split
  · cases baseAssetsMap.get address with
    | none => rfl
    | some asset =>
      rw [Option.bind_some, Option.bind_some, Option.isSome_map, isSome_priceFor]
      exact isSome_quote_stable _ _ asset
  · exact H.isSome address'

/-- The prices of the white-listed coins. -/
theorem foldlM_whiteList
    (hkeyed : ∀ address asset, baseAssetsMap.get address = some asset → asset.address = address)
    (H : Quoted baseTokensPrices prices) (coins : List String) :
    (Succeeds (coins.foldlM (setPrice config pairsReserves baseAssetsMap .base) baseTokensPrices) ↔
        ∀ before address after, coins = before ++ address :: after →
          CoinAnswerable config pairsReserves baseAssetsMap .base
            (before.foldl (addQuote config pairsReserves baseAssetsMap .base) prices) address) ∧
      ∀ baseTokensPrices',
        coins.foldlM (setPrice config pairsReserves baseAssetsMap .base) baseTokensPrices =
          .ok baseTokensPrices' →
        Quoted baseTokensPrices'
          (coins.foldl (addQuote config pairsReserves baseAssetsMap .base) prices) := by
  have hs : ∀ (m : PriceMap) (q : Known) address, Quoted m q →
      (Succeeds (setPrice config pairsReserves baseAssetsMap .base m address) ↔
        CoinAnswerable config pairsReserves baseAssetsMap .base q address) := by
    intro m q address hq
    rw [succeeds_setPrice, hq.known]
  apply foldlM_simulates hs
  · intro m q address m' hq hm'
    have hanswer := (hs m q address hq).mp ⟨m', hm'⟩
    rw [setPrice_eq (hq.known ▸ hanswer), hq.known] at hm'
    cases hm'
    exact hq.setPrice (hkeyed address) hanswer
  · exact H

/-- The prices of the stable coins. -/
theorem foldlM_stable
    (hkeyed : ∀ address asset, baseAssetsMap.get address = some asset → asset.address = address)
    (H : Priced baseTokensPrices prices) (coins : List String) :
    (Succeeds
        (coins.foldlM (setPrice config pairsReserves baseAssetsMap .stable) baseTokensPrices) ↔
        ∀ before address after, coins = before ++ address :: after →
          CoinAnswerable config pairsReserves baseAssetsMap .stable
            (before.foldl (addQuote config pairsReserves baseAssetsMap .stable) prices) address) ∧
      ∀ baseTokensPrices',
        coins.foldlM (setPrice config pairsReserves baseAssetsMap .stable) baseTokensPrices =
          .ok baseTokensPrices' →
        Priced baseTokensPrices'
          (coins.foldl (addQuote config pairsReserves baseAssetsMap .stable) prices) := by
  have hs : ∀ (m : PriceMap) (q : Known) address, Priced m q →
      (Succeeds (setPrice config pairsReserves baseAssetsMap .stable m address) ↔
        CoinAnswerable config pairsReserves baseAssetsMap .stable q address) := by
    intro m q address hq
    rw [succeeds_setPrice]
    apply forall₂_congr
    intro asset _
    exact Answerable.stable_congr hq.isSome
  apply foldlM_simulates hs
  · intro m q address m' hq hm'
    have hanswer := succeeds_setPrice.mp ⟨m', hm'⟩
    rw [setPrice_eq hanswer] at hm'
    cases hm'
    exact hq.setPrice (hkeyed address)
  · exact H

end

/-! ## All tokens -/

section
variable {config : Config} {pairsReserves : UniswapReservesData} {baseTokensPrices : PriceMap}
variable {prices : Known} {asset : AssetsApiDto}

/-- The price of an asset that has pairs. -/
def priceOfAsset (config : Config) (pairsReserves : UniswapReservesData)
    (baseTokensPrices : PriceMap) (asset : AssetsApiDto) : Option PriceDto :=
  match lookup (some baseTokensPrices) asset.address with
  | some basePrice => some basePrice
  | none => priceFor config (known (some baseTokensPrices)) .simple pairsReserves asset

/-- Where a liquid pair is found, the other token has a price. -/
theorem answerable_simple : Answerable config prices .simple pairsReserves asset ↔
    ∀ pair ∈ asset.pairs, (pairsReserves.get pair.address).isSome := by
  constructor
  · exact Answerable.reserves
  · intro h
    refine ⟨h, fun s hs => ?_⟩
    have husd := Side.liquid.usd_ne_nan (List.mem_filter.mp hs).2
    simp only [Side.usd] at husd
    simp only [Side.partnerPrice]
    cases hprice : prices s.partner with
    | none =>
      rw [hprice] at husd
      exact absurd rfl husd
    | some price => rfl

theorem succeeds_tokenPrice (H : Priced baseTokensPrices prices) :
    Succeeds (tokenPrice config pairsReserves baseTokensPrices asset) ↔
      (prices asset.address).isSome ∨
        ∀ pair ∈ asset.pairs, (pairsReserves.get pair.address).isSome := by
  rw [← H.isSome, known, Option.isSome_map, tokenPrice]
  cases hlookup : lookup (some baseTokensPrices) asset.address with
  | none =>
    rw [succeeds_getTokenPrice fun _ => rfl, answerable_simple]
    exact (or_iff_right Bool.false_ne_true).symm
  | some basePrice =>
    dsimp only
    rw [if_pos (H.addressed _ _ hlookup).symm]
    exact iff_of_true succeeds_ok (.inl rfl)

theorem tokenPrice_eq (H : Priced baseTokensPrices prices)
    (h : (prices asset.address).isSome ∨
      ∀ pair ∈ asset.pairs, (pairsReserves.get pair.address).isSome) :
    tokenPrice config pairsReserves baseTokensPrices asset =
      .ok (priceOfAsset config pairsReserves baseTokensPrices asset) := by
  rw [← H.isSome, known, Option.isSome_map] at h
  rw [tokenPrice, priceOfAsset]
  cases hlookup : lookup (some baseTokensPrices) asset.address with
  | none =>
    rw [hlookup] at h
    exact getTokenPrice_eq (fun _ => rfl)
      (answerable_simple.mpr (h.resolve_left Bool.false_ne_true))
  | some basePrice =>
    dsimp only
    rw [if_pos (H.addressed _ _ hlookup).symm]
    rfl

end

section
variable {config : Config} {pairsReserves : UniswapReservesData} {assets : List AssetsApiDto}
variable {baseAssetsMap : JsMap String AssetsApiDto} {baseTokensPrices : PriceMap} {prices : Known}

/-- The price of the wrapped coin is the first one. -/
theorem quoted_wrapped {wrappedAsset : AssetsApiDto}
    (hlisted : assets.find? (·.address = config.wrappedCoin) = some wrappedAsset)
    (h : Answerable config (fun _ => none) .base pairsReserves wrappedAsset) {price : PriceDto}
    (hprice : priceFor config (fun _ => none) .base pairsReserves wrappedAsset = some price) :
    Quoted (JsMap.set [] price.address (some price))
      (wrappedQuote config pairsReserves wrappedAsset) := by
  have hregular : Regular fun _ => none := fun _ _ h => nomatch h
  have haddress : price.address = config.wrappedCoin := by
    have hfound := List.find?_some hlisted
    rw [priceFor_address hprice]
    exact of_decide_eq_true hfound
  have hquote := priceFor_base hregular h
  rw [hprice, Option.map_some] at hquote
  refine ⟨?_, ?_, ?_⟩
  · rw [known_set, haddress, Option.map_some, hquote]
    rfl
  · intro address q hq
    rw [wrappedQuote, Function.update_apply] at hq
    split at hq
    · exact quote_regular hregular h hq
    · cases hq
  · intro address q hq
    rw [lookup_set] at hq
    split at hq
    · next heq =>
      cases hq
      exact heq
    · cases hq

theorem priceFor_eq_none {category : TokensCategories} {asset : AssetsApiDto} :
    priceFor config prices category pairsReserves asset = none ↔
      liquidSides config prices category pairsReserves asset = [] := by
  simp only [priceFor]
  split
  · next hnil => exact iff_of_true rfl hnil
  · next hne => exact iff_of_false (Option.some_ne_none _) hne

/-- The wrapped coin has a price when it is listed, what is read for it is there, and it has a
liquid pair. -/
theorem wrapped_eq_some {price : PriceDto} :
    getTokenPrice config (assets.find? (·.address = config.wrappedCoin)) pairsReserves .base none =
        .ok (some price) ↔
      ∃ wrappedAsset, assets.find? (·.address = config.wrappedCoin) = some wrappedAsset ∧
        Answerable config (fun _ => none) .base pairsReserves wrappedAsset ∧
        priceFor config (fun _ => none) .base pairsReserves wrappedAsset = some price := by
  cases assets.find? (·.address = config.wrappedCoin) with
  | none => exact ⟨fun h => (nomatch h), fun ⟨_, h, _⟩ => (nomatch h)⟩
  | some wrappedAsset =>
    have hmap : TokensCategories.base ≠ .base → (none : Option PriceMap).isSome :=
      fun h => absurd rfl h
    constructor
    · intro h
      have hanswer := (succeeds_getTokenPrice hmap).mp ⟨_, h⟩
      rw [getTokenPrice_eq hmap hanswer] at h
      exact ⟨wrappedAsset, rfl, hanswer, Except.ok.inj h⟩
    · rintro ⟨_, hasset, hanswer, hprice⟩
      cases hasset
      rw [getTokenPrice_eq hmap hanswer]
      exact congrArg Except.ok hprice

/-- The coins' prices, when they are found. -/
theorem getBaseTokensPrices_eq_ok
    (hkeyed : ∀ address asset, baseAssetsMap.get address = some asset → asset.address = address)
    {wrappedCoinPrice : PriceDto}
    (h : getBaseTokensPrices config assets pairsReserves baseAssetsMap =
      .ok (wrappedCoinPrice, baseTokensPrices)) :
    ∃ wrappedAsset, CoinsSufficient config pairsReserves baseAssetsMap assets wrappedAsset ∧
      Priced baseTokensPrices (quotes config pairsReserves baseAssetsMap wrappedAsset) := by
  obtain ⟨price, hprice, h⟩ := bind_eq_ok.mp h
  cases price with
  | none => cases h
  | some price =>
    obtain ⟨wrappedAsset, hlisted, hanswer, hsome⟩ := wrapped_eq_some.mp hprice
    obtain ⟨whiteListed, hwhiteListed, h⟩ := bind_eq_ok.mp h
    obtain ⟨stable, hstable, h⟩ := bind_eq_ok.mp h
    cases h
    have hquoted := quoted_wrapped hlisted hanswer hsome
    obtain ⟨hwhite, hquoted'⟩ := foldlM_whiteList hkeyed hquoted config.whiteListCoins
    have hquoted' := hquoted' _ hwhiteListed
    obtain ⟨hstables, hpriced⟩ := foldlM_stable hkeyed hquoted'.priced config.stableCoins
    refine ⟨wrappedAsset, ⟨hlisted, hanswer, ?_, ?_, ?_⟩, hpriced _ hstable⟩
    · intro hnil
      rw [priceFor_eq_none.mpr hnil] at hsome
      cases hsome
    · exact hwhite.mp ⟨_, hwhiteListed⟩
    · exact hstables.mp ⟨_, hstable⟩

/-- The coins' prices are found when what is read for them is there. -/
theorem CoinsSufficient.succeeds
    (hkeyed : ∀ address asset, baseAssetsMap.get address = some asset → asset.address = address)
    {wrappedAsset : AssetsApiDto}
    (H : CoinsSufficient config pairsReserves baseAssetsMap assets wrappedAsset) :
    Succeeds (getBaseTokensPrices config assets pairsReserves baseAssetsMap) := by
  have hsome : ∃ price, priceFor config (fun _ => none) .base pairsReserves wrappedAsset =
      some price :=
    Option.ne_none_iff_exists'.mp fun hnone => H.liquid (priceFor_eq_none.mp hnone)
  obtain ⟨price, hsome⟩ := hsome
  have hquoted := quoted_wrapped H.listed H.wrapped hsome
  obtain ⟨hwhite, hquoted'⟩ := foldlM_whiteList hkeyed hquoted config.whiteListCoins
  obtain ⟨whiteListed, hwhiteListed⟩ := hwhite.mpr H.whiteList
  have hpriced := (hquoted' _ hwhiteListed).priced
  obtain ⟨stable, hstable⟩ := (foldlM_stable hkeyed hpriced config.stableCoins).1.mpr H.stable
  rw [getBaseTokensPrices, wrapped_eq_some.mpr ⟨wrappedAsset, H.listed, H.wrapped, hsome⟩]
  dsimp only [ok_bind]
  rw [hwhiteListed, ok_bind, hstable]
  exact succeeds_ok

/-! ## Without the pairs that miss reserves -/

theorem dropMissing_eq_self {asset : AssetsApiDto}
    (h : ∀ pair ∈ asset.pairs, (pairsReserves.get pair.address).isSome) :
    dropMissing pairsReserves asset = asset := by
  rw [dropMissing, List.filter_eq_self.mpr h]

theorem sides_dropMissing (pairsReserves : UniswapReservesData) (asset : AssetsApiDto) :
    sides pairsReserves (dropMissing pairsReserves asset) = sides pairsReserves asset := by
  rw [sides, sides, dropMissing, List.filterMap_filter]
  apply List.filterMap_congr
  intro pair _
  cases pairsReserves.get pair.address with
  | none => rfl
  | some r => rfl

theorem priceOfAsset_dropMissing (asset : AssetsApiDto) :
    priceOfAsset config pairsReserves baseTokensPrices (dropMissing pairsReserves asset) =
      priceOfAsset config pairsReserves baseTokensPrices asset := by
  have hsides : ∀ prices : Known,
      liquidSides config prices .simple pairsReserves (dropMissing pairsReserves asset) =
        liquidSides config prices .simple pairsReserves asset := by
    intro prices
    rw [liquidSides, sides_dropMissing, liquidSides]
  simp only [priceOfAsset, priceFor, liquidity, hsides]
  rfl

/-- Coins whose pairs all have reserves lose none. -/
theorem foldlM_setPrice_dropMissing {category : TokensCategories} {coins : List String}
    (h : ∀ address ∈ coins, ∀ asset, baseAssetsMap.get address = some asset →
      ∀ pair ∈ asset.pairs, (pairsReserves.get pair.address).isSome) (m : PriceMap) :
    coins.foldlM (setPrice config pairsReserves
        (baseAssetsMap.map fun e => (e.1, dropMissing pairsReserves e.2)) category) m =
      coins.foldlM (setPrice config pairsReserves baseAssetsMap category) m := by
  apply foldlM_congr
  intro address haddress m
  rw [setPrice, setPrice, JsMap.get_map_values]
  cases hget : baseAssetsMap.get address with
  | none => rfl
  | some asset => rw [Option.map_some, dropMissing_eq_self (h address haddress asset hget)]

/-- The coins' prices are the same without the pairs that miss reserves: there are none. -/
theorem CoinsSufficient.getBaseTokensPrices_dropMissing {wrappedAsset : AssetsApiDto}
    (H : CoinsSufficient config pairsReserves baseAssetsMap assets wrappedAsset) :
    getBaseTokensPrices config (assets.map (dropMissing pairsReserves)) pairsReserves
        (baseAssetsMap.map fun e => (e.1, dropMissing pairsReserves e.2)) =
      getBaseTokensPrices config assets pairsReserves baseAssetsMap := by
  have hwrapped : (assets.map (dropMissing pairsReserves)).find? (·.address = config.wrappedCoin) =
      assets.find? (·.address = config.wrappedCoin) := by
    rw [List.find?_map]
    exact (congrArg (Option.map _) H.listed).trans
      ((congrArg some (dropMissing_eq_self H.wrapped.reserves)).trans H.listed.symm)
  have hwhiteList : ∀ address ∈ config.whiteListCoins, ∀ asset,
      baseAssetsMap.get address = some asset →
        ∀ pair ∈ asset.pairs, (pairsReserves.get pair.address).isSome := by
    intro address haddress asset hasset
    obtain ⟨before, after, hsplit⟩ := List.append_of_mem haddress
    exact (H.whiteList before address after hsplit asset hasset).reserves
  have hstable : ∀ address ∈ config.stableCoins, ∀ asset,
      baseAssetsMap.get address = some asset →
        ∀ pair ∈ asset.pairs, (pairsReserves.get pair.address).isSome := by
    intro address haddress asset hasset
    obtain ⟨before, after, hsplit⟩ := List.append_of_mem haddress
    exact (H.stable before address after hsplit asset hasset).reserves
  rw [getBaseTokensPrices, getBaseTokensPrices, hwrapped]
  simp only [foldlM_setPrice_dropMissing hwhiteList, foldlM_setPrice_dropMissing hstable]

/-- The prices of all assets that have pairs. -/
theorem mapM_tokenPrice (H : Priced baseTokensPrices prices) {l : List AssetsApiDto}
    (h : ∀ asset ∈ l, (prices asset.address).isSome ∨
      ∀ pair ∈ asset.pairs, (pairsReserves.get pair.address).isSome) :
    l.mapM (tokenPrice config pairsReserves baseTokensPrices) =
      .ok (l.map (priceOfAsset config pairsReserves baseTokensPrices)) :=
  mapM_eq_ok fun asset hasset => tokenPrice_eq H (h asset hasset)

/-- All prices, when the coins' prices are found. -/
theorem getTokensPricesFromReserves_eq {wrappedCoinPrice : PriceDto}
    (hbase : getBaseTokensPrices config assets pairsReserves baseAssetsMap =
      .ok (wrappedCoinPrice, baseTokensPrices)) (H : Priced baseTokensPrices prices)
    (h : ∀ asset ∈ assets, asset.pairs ≠ [] → (prices asset.address).isSome ∨
      ∀ pair ∈ asset.pairs, (pairsReserves.get pair.address).isSome) :
    getTokensPricesFromReserves config assets pairsReserves baseAssetsMap =
      .ok ((assets.filter (¬ ·.pairs.isEmpty)).filterMap
          (priceOfAsset config pairsReserves baseTokensPrices) ++
        [{ wrappedCoinPrice with
            address := zeroAddress
            chainId := config.chainId
            currencyId := config.currencyId }]) := by
  have hassets : ∀ asset ∈ assets.filter (¬ ·.pairs.isEmpty), (prices asset.address).isSome ∨
      ∀ pair ∈ asset.pairs, (pairsReserves.get pair.address).isSome := by
    intro asset hasset
    obtain ⟨hasset, hpairs⟩ := List.mem_filter.mp hasset
    exact h asset hasset fun hnil => of_decide_eq_true hpairs (List.isEmpty_iff.mpr hnil)
  rw [getTokensPricesFromReserves, hbase, ok_bind]
  dsimp only
  rw [mapM_tokenPrice H hassets, ok_bind, List.filterMap_append, List.filterMap_map]
  rfl

/-- All prices without the pairs that miss reserves: those of the assets that keep a pair. -/
theorem CoinsSufficient.getTokensPricesFromReserves_dropMissing {wrappedAsset : AssetsApiDto}
    (H : CoinsSufficient config pairsReserves baseAssetsMap assets wrappedAsset)
    {wrappedCoinPrice : PriceDto}
    (hbase : getBaseTokensPrices config assets pairsReserves baseAssetsMap =
      .ok (wrappedCoinPrice, baseTokensPrices)) (hpriced : Priced baseTokensPrices prices) :
    getTokensPricesFromReserves config (assets.map (dropMissing pairsReserves)) pairsReserves
        (baseAssetsMap.map fun e => (e.1, dropMissing pairsReserves e.2)) =
      .ok ((assets.filter fun asset => ¬ (dropMissing pairsReserves asset).pairs.isEmpty).filterMap
          (priceOfAsset config pairsReserves baseTokensPrices) ++
        [{ wrappedCoinPrice with
            address := zeroAddress
            chainId := config.chainId
            currencyId := config.currencyId }]) := by
  have hkept : ∀ asset ∈ assets.map (dropMissing pairsReserves), asset.pairs ≠ [] →
      (prices asset.address).isSome ∨
        ∀ pair ∈ asset.pairs, (pairsReserves.get pair.address).isSome := by
    intro asset hasset _
    obtain ⟨asset, -, rfl⟩ := List.mem_map.mp hasset
    exact .inr fun pair hpair => (List.mem_filter.mp hpair).2
  rw [getTokensPricesFromReserves_eq (H.getBaseTokensPrices_dropMissing.trans hbase) hpriced hkept,
    List.filter_map, List.filterMap_map]
  have hprice : priceOfAsset config pairsReserves baseTokensPrices ∘ dropMissing pairsReserves =
      priceOfAsset config pairsReserves baseTokensPrices := funext priceOfAsset_dropMissing
  rw [hprice]
  rfl

/-- An asset keeps a pair that has reserves. -/
theorem isEmpty_dropMissing {asset : AssetsApiDto} :
    (dropMissing pairsReserves asset).pairs.isEmpty ↔
      ¬ ∃ pair ∈ asset.pairs, (pairsReserves.get pair.address).isSome := by
  rw [List.isEmpty_iff, dropMissing, List.filter_eq_nil_iff]
  push Not
  rfl

theorem Sufficient.robust
    (hkeyed : ∀ address asset, baseAssetsMap.get address = some asset → asset.address = address)
    {wrappedAsset : AssetsApiDto}
    (H : Sufficient config pairsReserves baseAssetsMap assets wrappedAsset) :
    Robust config assets pairsReserves baseAssetsMap := by
  obtain ⟨⟨wrappedCoinPrice, baseTokensPrices⟩, hbase⟩ := H.toCoinsSufficient.succeeds hkeyed
  obtain ⟨wrappedAsset', hcoins, hpriced⟩ := getBaseTokensPrices_eq_ok hkeyed hbase
  cases hcoins.listed.symm.trans H.listed
  have hothers : ∀ asset ∈ assets, asset.pairs ≠ [] →
      (quotes config pairsReserves baseAssetsMap wrappedAsset asset.address).isSome ∨
        ∀ pair ∈ asset.pairs, (pairsReserves.get pair.address).isSome := by
    intro asset hasset _
    rcases H.others asset hasset with h | h
    · exact .inr h
    · exact .inl h.1
  refine ⟨_, getTokensPricesFromReserves_eq hbase hpriced hothers, ?_⟩
  rw [H.getTokensPricesFromReserves_dropMissing hbase hpriced]
  congr 3
  apply List.filter_congr
  intro asset hasset
  rcases H.others asset hasset with h | ⟨-, pair, hpair, hsome⟩
  · rw [dropMissing_eq_self h]
  · have hkept : ¬ (dropMissing pairsReserves asset).pairs.isEmpty := by
      rw [isEmpty_dropMissing]
      exact not_not.mpr ⟨pair, hpair, hsome⟩
    have hne : ¬ asset.pairs.isEmpty :=
      fun hnil => List.ne_nil_of_mem hpair (List.isEmpty_iff.mp hnil)
    rw [decide_eq_true hkept, decide_eq_true hne]

theorem Robust.sufficient
    (hkeyed : ∀ address asset, baseAssetsMap.get address = some asset → asset.address = address)
    (H : Robust config assets pairsReserves baseAssetsMap) :
    ∃ wrappedAsset, Sufficient config pairsReserves baseAssetsMap assets wrappedAsset := by
  obtain ⟨result, hresult, hdropped⟩ := H
  have hfirst := hresult
  obtain ⟨⟨wrappedCoinPrice, baseTokensPrices⟩, hbase, htokens⟩ := bind_eq_ok.mp hresult
  obtain ⟨tokensPrices, htokens, -⟩ := bind_eq_ok.mp htokens
  obtain ⟨wrappedAsset, hcoins, hpriced⟩ := getBaseTokensPrices_eq_ok hkeyed hbase
  have hothers : ∀ asset ∈ assets, asset.pairs ≠ [] →
      (quotes config pairsReserves baseAssetsMap wrappedAsset asset.address).isSome ∨
        ∀ pair ∈ asset.pairs, (pairsReserves.get pair.address).isSome := by
    intro asset hasset hpairs
    apply (succeeds_tokenPrice hpriced).mp
    apply succeeds_mapM.mp ⟨_, htokens⟩
    exact List.mem_filter.mpr ⟨hasset, decide_eq_true fun hnil => hpairs (List.isEmpty_iff.mp hnil)⟩
  refine ⟨wrappedAsset, hcoins, fun asset hasset => ?_⟩
  by_cases hpairs : asset.pairs = []
  · left
    rw [hpairs]
    exact List.forall_mem_nil _
  · rcases hothers asset hasset hpairs with hquote | hreserves
    · right
      refine ⟨hquote, ?_⟩
      -- without a pair, its price would be missing among the others
      rw [getTokensPricesFromReserves_eq hbase hpriced hothers] at hfirst
      rw [hcoins.getTokensPricesFromReserves_dropMissing hbase hpriced] at hdropped
      have hprices := List.append_cancel_right (Except.ok.inj (hfirst.trans hdropped.symm))
      have hkept := filter_of_filterMap_eq ?_ hprices asset hasset ?_ ?_
      · exact not_not.mp (isEmpty_dropMissing.not.mp (of_decide_eq_true hkept))
      · intro asset hkept
        apply decide_eq_true
        intro hnil
        apply of_decide_eq_true hkept
        rw [dropMissing, List.isEmpty_iff.mp hnil]
        rfl
      · exact decide_eq_true fun hnil => hpairs (List.isEmpty_iff.mp hnil)
      · rw [← hpriced.isSome, known, Option.isSome_map] at hquote
        obtain ⟨basePrice, hbasePrice⟩ := Option.isSome_iff_exists.mp hquote
        rw [priceOfAsset, hbasePrice]
        rfl
    · exact .inl hreserves

/-- All prices are found, and are those without the pairs that miss reserves, exactly when what is
read is there, and no coin with a quote loses all its pairs. -/
theorem robust_iff (config : Config) (assets : List AssetsApiDto)
    (pairsReserves : UniswapReservesData) (baseAssetsMap : BaseAssetsMap) :
    Robust config assets pairsReserves baseAssetsMap.map ↔
      ∃ wrappedAsset, Sufficient config pairsReserves baseAssetsMap.map assets wrappedAsset :=
  ⟨Robust.sufficient baseAssetsMap.keyed, fun ⟨_, H⟩ => H.robust baseAssetsMap.keyed⟩

end

/-- The wrapped coin has a liquid pair, and a token has one without reserves. -/
def coinAndToken : List AssetsApiDto :=
  [⟨"coin", 1, [⟨"pair", ⟨"usd", 1, some 0⟩, ⟨"coin", 0, some 0⟩⟩]⟩,
    ⟨"token", 1, [⟨"missing", ⟨"coin", 0, some 0⟩, ⟨"token", 1, some 0⟩⟩]⟩]

/-- A token's pair without reserves makes it throw. -/
theorem missing_not_robust : ¬ Robust exampleConfig coinAndToken (pairReserves 4) [] := by
  intro h
  obtain ⟨_, H⟩ := h.sufficient fun _ _ h => by cases h
  have htoken : (⟨"token", 1, [⟨"missing", ⟨"coin", 0, some 0⟩, ⟨"token", 1, some 0⟩⟩]⟩ :
      AssetsApiDto) ∈ coinAndToken := List.mem_cons_of_mem _ List.mem_cons_self
  rcases H.others _ htoken with h | ⟨-, pair, hpair, hsome⟩
  · exact absurd (h _ List.mem_cons_self) (by decide)
  · rw [List.mem_singleton.mp hpair] at hsome
    exact absurd hsome (by decide)

end LambdaPrices
end Jobs
end DefiBackend
