import DefiBackend.Integration.PriceContributions

/-! # What the adjustment of prices leaves

Whether an entry is after `adjustPrices` as it was before, or has the total of all its items.

* `Kind`: a class of entries, with what its loop body does to an item; each of the nine is one.
* `allOrNothing_iff`: an entry comes out whole when every item can be valued; a valuation that
  throws leaves it whole only if nothing it has written makes a difference. -/

namespace DefiBackend
namespace Integration
namespace PriceAdjustment
open Theory Pass

/-! ## Classes of entries -/

/-- A class of entries: what the loop over the items does with one, and what is said of an item:
that it can be valued, that a price is looked up for it, what it contributes, what of it is counted
before an exception, and that a valuation leaves it as it is, with prices and without. -/
structure Kind where
  Item : Type
  make : List Item → Items
  make_inj : ∀ l l', make l = make l' → l = l'
  adjust : Option Prices → Pass Counted Item
  WellFormed : Item → Prop
  NeedsPrices : Item → Prop
  contribution : Prices → Item → Counted
  reached : Prices → Item → Counted
  Settled : Prices → Item → Prop
  Untouched : Item → Prop
  values : ∀ prices item, (adjust (some prices)).Values item (WellFormed item)
    (contribution prices item) (reached prices item) (Settled prices item)
  stops : ∀ item, NeedsPrices item → (adjust none item).threw = true ∧ (adjust none item).added = 0
  untouched_iff : ∀ item, (adjust none item).object = item ↔ Untouched item
  idle : ∀ item, ¬ NeedsPrices item → ∀ prices, adjust prices item = ⟨item, 0, false⟩

theorem adjustPool_idle {item : LiquidityPoolFeature} (h : ¬ (item.tokens ≠ [] ∨ item.rewards ≠ []))
    (prices : Option Prices) : adjustPool prices item = ⟨item, 0, false⟩ := by
  obtain ⟨tokens, rewards⟩ := item
  obtain ⟨ht, hr⟩ := not_or.mp h
  cases not_not.mp ht
  cases not_not.mp hr
  simp [adjustPool, seq, onField, forEach, skip]

/-- No price is looked up for a pool without tokens and rewards. -/
def lpKind : Kind where
  Item := LiquidityPoolFeature
  make := .lp
  make_inj _ _ h := by cases h; rfl
  adjust := adjustPool
  WellFormed := LiquidityPoolFeature.WellFormed
  NeedsPrices item := item.tokens ≠ [] ∨ item.rewards ≠ []
  contribution prices item := toTotal (item.contribution prices)
  reached prices item := toTotal (item.reached prices)
  Settled := LiquidityPoolFeature.Settled
  Untouched _ := True
  values := adjustPool_values
  stops item h := by rw [adjustPool_stopsAt h]; exact ⟨rfl, rfl⟩
  untouched_iff item := by
    refine iff_of_true ?_ trivial
    by_cases h : item.tokens ≠ [] ∨ item.rewards ≠ []
    · rw [adjustPool_stopsAt h]
    · rw [adjustPool_idle h]
  idle item h := adjustPool_idle h

/-- A class whose loop body looks a price up before anything else. -/
def Kind.pricing {Item : Type} (make : List Item → Items)
    (make_inj : ∀ l l', make l = make l' → l = l') {adjust : Option Prices → Pass Counted Item}
    {WellFormed : Item → Prop} {contribution reached : Prices → Item → Counted}
    {Settled : Prices → Item → Prop}
    (values : ∀ prices item, (adjust (some prices)).Values item (WellFormed item)
      (contribution prices item) (reached prices item) (Settled prices item))
    (stops : (adjust none).Stops) : Kind where
  Item := Item
  make := make
  make_inj := make_inj
  adjust := adjust
  WellFormed := WellFormed
  NeedsPrices _ := True
  contribution := contribution
  reached := reached
  Settled := Settled
  Untouched _ := True
  values := values
  stops item _ := by rw [stops item]; exact ⟨rfl, rfl⟩
  untouched_iff item := by rw [stops item]; exact iff_of_true rfl trivial
  idle _ h := absurd trivial h

def claimableKind : Kind :=
  .pricing .claimable (fun _ _ h => by cases h; rfl) adjustClaimable_values adjustClaimable_stops

def stakingKind : Kind :=
  .pricing .staking (fun _ _ h => by cases h; rfl) adjustStaking_values adjustStaking_stops

def lendingKind : Kind :=
  .pricing .lending (fun _ _ h => by cases h; rfl) adjustLending_values adjustLending_stops

def leverageFarmingKind : Kind :=
  .pricing .leverageFarming (fun _ _ h => by cases h; rfl) adjustLeverageFarming_values
    adjustLeverageFarming_stops

/-- The value of a locked token may be reset before a price is looked up. -/
def lockedKind : Kind where
  Item := LockedToken
  make := .locked
  make_inj _ _ h := by cases h; rfl
  adjust := adjustLocked
  WellFormed := LockedToken.WellFormed
  NeedsPrices _ := True
  contribution prices item := toTotal (item.contribution prices)
  reached _ _ := 0
  Settled := LockedToken.Settled
  Untouched := LockedToken.Reset
  values := adjustLocked_values
  stops item _ := ⟨(adjustLocked_none item).1, (adjustLocked_none item).2.1⟩
  untouched_iff item := (adjustLocked_none item).2.2
  idle _ h := absurd trivial h

def mintKind : Kind :=
  .pricing .mint (fun _ _ h => by cases h; rfl) adjustMint_values adjustMint_stops

def shortFarmKind : Kind :=
  .pricing .shortFarm (fun _ _ h => by cases h; rfl) adjustShortFarm_values adjustShortFarm_stops

def airdropKind : Kind :=
  .pricing .airdrop (fun _ _ h => by cases h; rfl) adjustAirdrop_values adjustAirdrop_stops

def Items.kind : Items → Kind
  | lp _ => lpKind
  | claimable _ => claimableKind
  | staking _ => stakingKind
  | lending _ => lendingKind
  | leverageFarming _ => leverageFarmingKind
  | locked _ => lockedKind
  | mint _ => mintKind
  | shortFarm _ => shortFarmKind
  | airdrop _ => airdropKind

def Items.list : (items : Items) → List items.kind.Item
  | lp items | claimable items | staking items | lending items | leverageFarming items
  | locked items | mint items | shortFarm items | airdrop items => items

theorem Items.make_list (items : Items) : items.kind.make items.list = items := by
  cases items <;> rfl

/-- The valuation is the loop of the class. -/
theorem Items.adjust_eq (prices : Option Prices) (items : Items) :
    items.adjust prices =
      ⟨items.kind.make ((items.kind.adjust prices).forEach items.list).object,
        ((items.kind.adjust prices).forEach items.list).added,
        ((items.kind.adjust prices).forEach items.list).threw⟩ := by
  cases items <;> rfl

/-! ## Entries before and after -/

/-- The contribution of all items to the total, with these prices and the own prices of the tokens
that have none of them. -/
def Items.contribution (prices : Prices) : Items → JsNumber
  | lp items => (items.map (LiquidityPoolFeature.contribution prices)).sum
  | claimable items => (items.map (ClaimableToken.worth prices)).sum
  | staking items => (items.map fun item => (StakingPosition.contribution prices item).1).sum
  | lending items => (items.map (LendingPosition.contribution prices)).sum
  | leverageFarming items => (items.map (LeverageFarmingPosition.contribution prices)).sum
  | locked items => (items.map (LockedToken.contribution prices)).sum
  | mint items => (items.map (MintPosition.contribution prices)).sum
  | shortFarm items => (items.map (ShortFarmPosition.contribution prices)).sum
  | airdrop items => (items.map (AirdropPosition.contribution prices)).sum

def Items.WellFormed (items : Items) : Prop := ∀ item ∈ items.list, items.kind.WellFormed item

/-- The entry is as it was, or has the total of all its items. -/
def AllOrNothing (prices : Option Prices) (before after : BaseData) : Prop :=
  after = before ∨
    before.items.WellFormed ∧ after.total = .number (before.items.contribution (prices.getD []))

/-- The addresses of the entries of a chain. -/
def requested (data : List BaseData) (chain : ChainId) : List Address :=
  unique ((data.filter (·.chain = chain)).flatMap (·.items.collected))

/-- The prices of the last response for a chain. -/
def pricesFor (getTokenPricesFetch : PriceService) (data : List BaseData) (chain : ChainId) :
    Option Prices :=
  (JsMap.lastWith PriceResponse.chain ((unique (data.map (·.chain))).filterMap fun c =>
    getTokenPricesFetch (requested data c) c) chain).map (·.prices)

section
variable (kind : Kind) (prices : Option Prices) (item : kind.Item)

/-- The item can be valued, and there are prices if one is looked up. -/
def Kind.Valuable : Prop :=
  kind.WellFormed item ∧ (prices.isSome ∨ ¬ kind.NeedsPrices item)

/-- The item has the prices and values that a valuation gives it. -/
def Kind.Kept : Prop :=
  match prices with
  | some prices => kind.Settled prices item
  | none => kind.Untouched item

/-- What is counted of an item at which the valuation throws. -/
def Kind.counted : Counted :=
  match prices with
  | some prices => kind.reached prices item
  | none => 0

end

/-- Every item can be valued. -/
def Items.Complete (prices : Option Prices) (items : Items) : Prop :=
  ∀ item ∈ items.list, items.kind.Valuable prices item

def Items.isStaking : Items → Bool
  | staking _ => true
  | _ => false

/-- The entry has a total, and for staking a locked value. -/
def BaseData.Has (baseData : BaseData) (counted : Counted) : Prop :=
  baseData.total = .number counted.1 ∧
    (baseData.items.isStaking → baseData.locked = .number counted.2)

/-- Some item cannot be valued; the items before it had their prices and values, so had that item as
far as it is reached, and the total of the entry was theirs. -/
def BaseData.Stalled (prices : Option Prices) (baseData : BaseData) : Prop :=
  ∃ done item rest, baseData.items.list = done ++ item :: rest ∧
    (∀ i ∈ done, baseData.items.kind.Valuable prices i ∧ baseData.items.kind.Kept prices i) ∧
    ¬ baseData.items.kind.Valuable prices item ∧ baseData.items.kind.Kept prices item ∧
    baseData.Has ((done.map (baseData.items.kind.contribution (prices.getD []))).sum +
      baseData.items.kind.counted prices item)

/-- The items come to nothing at the own prices of their tokens. -/
def Items.CancelOut (items : Items) : Prop := items.WellFormed ∧ items.contribution [] = 0

/-- The valuation leaves the entry whole. -/
def BaseData.Settles (prices : Option Prices) (baseData : BaseData) : Prop :=
  baseData.items.Complete prices ∨ baseData.Stalled prices ∨
    prices = none ∧ baseData.items.CancelOut

/-! ## What a valuation does -/

section
variable (kind : Kind) {prices : Option Prices} {item : kind.Item}

/-- Without prices a valuation goes through only where it does nothing. -/
theorem Kind.done_iff : (kind.adjust prices item).threw = false ↔ kind.Valuable prices item := by
  unfold Kind.Valuable
  cases prices with
  | some prices => simp [(kind.values prices item).threw_iff]
  | none =>
    by_cases hneeds : kind.NeedsPrices item
    · simp [(kind.stops item hneeds).1, hneeds]
    · have hwf : kind.WellFormed item :=
        (kind.values [] item).threw_iff.mp (by rw [kind.idle item hneeds])
      simp [kind.idle item hneeds, hneeds, hwf]

theorem Kind.kept_iff : (kind.adjust prices item).object = item ↔ kind.Kept prices item := by
  cases prices with
  | some prices => exact (kind.values prices item).object_iff
  | none => exact kind.untouched_iff item

/-- An item that can be valued contributes the same whether or not there are prices. -/
theorem Kind.added_of_valuable (h : kind.Valuable prices item) :
    (kind.adjust prices item).added = kind.contribution (prices.getD []) item := by
  cases prices with
  | some prices => exact (kind.values prices item).added_eq h.1
  | none =>
    have hidle := kind.idle item (h.2.resolve_left nofun)
    rw [Option.getD_none, ← (kind.values [] item).added_eq h.1, hidle, hidle]

theorem Kind.added_of_not_valuable (h : ¬ kind.Valuable prices item) :
    (kind.adjust prices item).added = kind.counted prices item := by
  cases prices with
  | some prices => exact (kind.values prices item).reached_eq fun hwf => h ⟨hwf, .inl rfl⟩
  | none =>
    by_cases hneeds : kind.NeedsPrices item
    · exact (kind.stops item hneeds).2
    · rw [kind.idle item hneeds]
      rfl

/-- Nothing is added without prices. -/
theorem Kind.added_none : (kind.adjust none item).added = 0 := by
  by_cases hneeds : kind.NeedsPrices item
  · exact (kind.stops item hneeds).2
  · rw [kind.idle item hneeds]

end

theorem sum_added_fst (l : List Counted) : l.sum.1 = (l.map Prod.fst).sum := by
  induction l with
  | nil => rfl
  | cons a l ih => rw [List.sum_cons, List.map_cons, List.sum_cons, Prod.fst_add, ih]

/-- The contributions of the items of a class. -/
theorem Items.sum_contribution (prices : Prices) (items : Items) :
    (items.list.map (items.kind.contribution prices)).sum.1 = items.contribution prices := by
  rw [sum_added_fst, List.map_map]
  cases items <;> rfl

theorem BaseData.adjust_fst (prices : Option Prices) (baseData : BaseData) :
    (baseData.adjust prices).1 =
      { baseData with
        total := .number (baseData.items.adjust prices).added.1
        locked := if baseData.items.isStaking then .number (baseData.items.adjust prices).added.2
          else baseData.locked
        items := (baseData.items.adjust prices).object } := by
  obtain ⟨chain, total, locked, items⟩ := baseData
  cases items <;> rfl

/-- The entry is as it was when it had the total and its items had their values. -/
theorem BaseData.adjust_eq_self {prices : Option Prices} {baseData : BaseData} :
    (baseData.adjust prices).1 = baseData ↔
      baseData.Has ((baseData.items.kind.adjust prices).forEach baseData.items.list).added ∧
        ((baseData.items.kind.adjust prices).forEach baseData.items.list).object =
          baseData.items.list := by
  rw [adjust_fst, Items.adjust_eq]
  obtain ⟨chain, total, locked, items⟩ := baseData
  simp only [BaseData.mk.injEq, true_and, Has]
  constructor
  · rintro ⟨htotal, hlocked, hitems⟩
    refine ⟨⟨htotal.symm, fun hs => ?_⟩, items.kind.make_inj _ _ (hitems.trans items.make_list.symm)⟩
    rw [if_pos hs] at hlocked
    exact hlocked.symm
  · rintro ⟨⟨htotal, hlocked⟩, hitems⟩
    refine ⟨htotal.symm, ?_, by rw [hitems, items.make_list]⟩
    split
    · rename_i hs
      exact (hlocked hs).symm
    · rfl

/-- When all items can be valued, the total is that of all items. -/
theorem total_of_complete {prices : Option Prices} {baseData : BaseData}
    (h : baseData.items.Complete prices) : AllOrNothing prices baseData (baseData.adjust prices).1 := by
  refine .inr ⟨fun item hi => (h item hi).1, ?_⟩
  have hadded : baseData.items.list.map (fun item => (baseData.items.kind.adjust prices item).added) =
      baseData.items.list.map (baseData.items.kind.contribution (prices.getD [])) :=
    List.map_congr_left fun item hi => Kind.added_of_valuable _ (h item hi)
  rw [BaseData.adjust_fst, Items.adjust_eq,
    forEach_done fun item hi => (Kind.done_iff _).mpr (h item hi), hadded]
  exact congrArg Field.number (Items.sum_contribution _ _)

/-- A valuation that throws leaves the entry as it was only if what it has written was there. -/
theorem unchanged_iff_stalled {prices : Option Prices} {baseData : BaseData}
    (h : ¬ baseData.items.Complete prices) :
    (baseData.adjust prices).1 = baseData ↔ baseData.Stalled prices := by
  have hstop : ∀ {done item rest}, (∀ i ∈ done, baseData.items.kind.Valuable prices i) →
      ¬ baseData.items.kind.Valuable prices item →
      (baseData.items.kind.adjust prices).forEach (done ++ item :: rest) =
        ⟨done.map (fun i => (baseData.items.kind.adjust prices i).object) ++
            (baseData.items.kind.adjust prices item).object :: rest,
          (done.map (baseData.items.kind.contribution (prices.getD []))).sum +
            baseData.items.kind.counted prices item, true⟩ := by
    intro done item rest hdone hitem
    rw [forEach_stopped (fun i hi => (Kind.done_iff _).mpr (hdone i hi))
      (Bool.eq_true_of_not_eq_false fun hf => hitem ((Kind.done_iff _).mp hf)),
      Kind.added_of_not_valuable _ hitem,
      List.map_congr_left fun i hi => Kind.added_of_valuable _ (hdone i hi)]
  rw [BaseData.adjust_eq_self]
  constructor
  · rintro ⟨hhas, hobject⟩
    have hthrew : ∃ item ∈ baseData.items.list,
        (baseData.items.kind.adjust prices item).threw = true := by
      unfold Items.Complete at h
      push Not at h
      obtain ⟨item, hi, hitem⟩ := h
      exact ⟨item, hi, Bool.eq_true_of_not_eq_false fun hf => hitem ((Kind.done_iff _).mp hf)⟩
    obtain ⟨done, item, rest, hlist, hdone, hthrew⟩ := exists_stop hthrew
    have hvaluable := fun i hi => (Kind.done_iff _).mp (hdone i hi)
    have hitem : ¬ baseData.items.kind.Valuable prices item := fun hv => by
      rw [(Kind.done_iff _).mpr hv] at hthrew
      cases hthrew
    rw [hlist, hstop hvaluable hitem] at hhas hobject
    obtain ⟨hmap, hsame⟩ := List.append_inj hobject (by rw [List.length_map])
    refine ⟨done, item, rest, hlist, fun i hi => ⟨hvaluable i hi, ?_⟩, hitem,
      (Kind.kept_iff _).mp (List.cons.inj hsame).1, hhas⟩
    exact (Kind.kept_iff _).mp (List.map_inj_left.mp (hmap.trans (List.map_id done).symm) i hi)
  · rintro ⟨done, item, rest, hlist, hdone, hitem, hkept, hhas⟩
    rw [hlist, hstop (fun i hi => (hdone i hi).1) hitem]
    refine ⟨hhas, ?_⟩
    have hmap : (done.map fun i => (baseData.items.kind.adjust prices i).object) = done :=
      (List.map_inj_left.mpr fun i hi => (Kind.kept_iff _).mpr (hdone i hi).2).trans
        (List.map_id done)
    rw [(Kind.kept_iff _).mpr hkept, hmap]

theorem total_without_prices (baseData : BaseData) :
    (baseData.adjust none).1.total = .number 0 := by
  have hadded : ∀ l : List baseData.items.kind.Item,
      ((baseData.items.kind.adjust none).forEach l).added = 0 := by
    intro l
    induction l with
    | nil => rfl
    | cons item l ih =>
      unfold forEach
      split
      · exact Kind.added_none _
      · change _ + _ = _
        rw [Kind.added_none, ih, add_zero]
  rw [BaseData.adjust_fst, Items.adjust_eq]
  change Field.number ((baseData.items.kind.adjust none).forEach baseData.items.list).added.1 = _
  rw [hadded]
  rfl

/-- An entry comes out whole exactly when its valuation goes through, or stalls where it changes
nothing, or has no prices for items that come to nothing. -/
theorem BaseData.allOrNothing_iff (prices : Option Prices) (baseData : BaseData) :
    AllOrNothing prices baseData (baseData.adjust prices).1 ↔ baseData.Settles prices := by
  by_cases hcomplete : baseData.items.Complete prices
  · exact iff_of_true (total_of_complete hcomplete) (.inl hcomplete)
  · unfold AllOrNothing BaseData.Settles
    rw [unchanged_iff_stalled hcomplete, or_iff_right hcomplete]
    refine or_congr_right ?_
    cases prices with
    | none =>
      rw [total_without_prices, Field.number.injEq, eq_comm]
      exact (and_iff_right rfl).symm
    | some prices =>
      refine iff_of_false (fun h => hcomplete fun item hi => ⟨h.1 item hi, .inl rfl⟩) ?_
      exact fun h => nomatch h.1

/-! ## The prices of a chain -/

theorem collectAssets_fst (data : List BaseData) (state : ChainAssets × List String) :
    (data.foldl collectAssets state).1 =
      data.foldl (fun m baseData => m.set baseData.chain
        (baseData.items.collected.foldl addToSet ((m.get baseData.chain).getD []))) state.1 := by
  induction data generalizing state with
  | nil => rfl
  | cons baseData data ih => rw [List.foldl_cons, List.foldl_cons, ih, collectAssets]

/-- The addresses under a chain are those of its entries. -/
theorem collected_graph (data : List BaseData) :
    (data.foldl collectAssets ([], [])).1 =
      (unique (data.map (·.chain))).map fun chain => (chain, requested data chain) := by
  have hkeys : JsMap.keys (data.foldl collectAssets ([], [])).1 = unique (data.map (·.chain)) := by
    rw [collectAssets_fst]
    exact JsMap.foldl_update_keys BaseData.chain
      (fun known baseData => baseData.items.collected.foldl addToSet (known.getD [])) data []
  have hfold : ∀ (l : List BaseData) (known : Option (List Address)),
      (l.foldl (fun known baseData =>
        some (baseData.items.collected.foldl addToSet (known.getD []))) known).getD [] =
        (l.flatMap (·.items.collected)).foldl addToSet (known.getD []) := by
    intro l
    induction l with
    | nil => exact fun _ => rfl
    | cons baseData l ih =>
      intro known
      rw [List.foldl_cons, ih, List.flatMap_cons, List.foldl_append, Option.getD_some]
  rw [← hkeys]
  refine JsMap.eq_graph (hkeys ▸ nodup_unique _) fun chain hchain => ?_
  obtain ⟨addresses, haddresses⟩ := JsMap.mem_keys.mp hchain
  rw [haddresses]
  rw [collectAssets_fst, JsMap.foldl_update_get BaseData.chain
    (fun known baseData => baseData.items.collected.foldl addToSet (known.getD []))] at haddresses
  have hget := hfold (data.filter (·.chain = chain)) none
  rw [Option.getD_none] at hget
  rw [requested, unique, ← hget]
  exact congrArg some (congrArg (·.getD []) haddresses).symm

theorem fetched_get (getTokenPricesFetch : PriceService) (data : List BaseData) (chain : ChainId) :
    (fetched getTokenPricesFetch data).get chain = pricesFor getTokenPricesFetch data chain := by
  rw [fetched, chainAssetPrices, collected_graph, List.filterMap_map, JsMap.get_ofEntries_map]
  rfl

/-- `adjustPrices` keeps every entry whole exactly when each of them settles with the prices of its
chain. -/
theorem adjustPrices_allOrNothing_iff (getTokenPricesFetch : PriceService) (data : List BaseData)
    (errors : List String) :
    List.Forall₂
        (fun before after =>
          AllOrNothing (pricesFor getTokenPricesFetch data before.chain) before after)
        data (adjustPrices getTokenPricesFetch data errors).1 ↔
      ∀ baseData ∈ data,
        baseData.Settles (pricesFor getTokenPricesFetch data baseData.chain) := by
  change List.Forall₂ _ data ((data.map _).map Prod.fst) ↔ _
  rw [List.map_map, List.forall₂_map_right_iff, List.forall₂_same]
  simp only [fetched_get]
  exact forall₂_congr fun baseData _ => baseData.allOrNothing_iff _

/-! ## A rejected request -/

/-- A pool of one token, with a price of its own. -/
def pricedPool : BaseData where
  chain := 1
  total := .undefined
  locked := .undefined
  items := .lp [
    { tokens := [
        { address := "0x6b175474e89094c44da98b954eedeac495271d0f", price := .number 3,
          balance := .number 2, value := .null }]
      rewards := [] }]

/-- The total is set to zero and nothing is valued. -/
theorem pricedPool_not_allOrNothing :
    ¬ List.Forall₂
      (fun before after =>
        AllOrNothing (pricesFor (fun _ _ => none) [pricedPool] before.chain) before after)
      [pricedPool] (adjustPrices (fun _ _ => none) [pricedPool] []).1 := by
  intro h
  cases h with
  | cons h _ =>
    rcases h with h | ⟨-, htotal⟩
    · cases congrArg BaseData.total h
    · exact absurd htotal (by decide +kernel)

end PriceAdjustment
end Integration
end DefiBackend
