import DefiBackend.Assets.SourcePriceRuns

/-! # Saves one after the other

Calls of `saveAssetPrices` none of which starts before the last one has ended, of any sources, a
call with prices of one or of several of them.

* The clock is read when a call starts and when it makes the new lists. A call is dated by the first
  reading, so its items are written to last until the time to live after it.
* A missing price, `null` and zero are all one empty price, `0`: all that is asked of a price is
  whether it counts as false.
* `step_valid_iff`: which calls keep the lists in order. An empty price leaves the list of its asset
  as it was, and prolongs it with what has expired in it. -/

namespace DefiBackend
namespace Assets
namespace SequentialSaves
open Theory

/-! ## The cache between calls -/

/-- The cache, and the time up to which the clock has been read. -/
structure PriceCache where
  sources : Store PriceMapKey (Item (List SourceAssetPrice))
  averages : Store PriceMapKey (Item AvgPrice)
  now : Nat

def emptyCache (now : Nat) : PriceCache := ⟨Store.empty, Store.empty, now⟩

/-- `createPriceMap`. -/
def createPriceMap (prices : List AssetPrice) : JsMap PriceMapKey AssetPrice :=
  .ofEntries (prices.map fun price => (getPriceMapKey price, price))

/-- The lists that a call makes of the cached ones, with the clock read as `now` at its start and as
`stamp` here. -/
def updatedPrices (ttl : Nat) (c : PriceCache) (now stamp : Nat) (prices : List AssetPrice)
    (key : PriceMapKey) : List SourceAssetPrice :=
  updatePrices (((c.sources key).map Item.value).getD []) ((createPriceMap prices).get key)
    (now - ttl) stamp

def saveAssetPrices (ttl : Nat) (c : PriceCache) (now stamp : Nat) (prices : List AssetPrice) :
    PriceCache :=
  let keys := prices.map getPriceMapKey
  let updated := updatedPrices ttl c now stamp prices
  { sources := c.sources.mset (sourceItems keys updated (now + ttl))
    averages := c.averages.mset (avgItems keys updated (now + ttl))
    now := stamp }

inductive Action
  | save (now stamp : Nat) (prices : List AssetPrice)
  | expireSources (now : Nat) (key : PriceMapKey)
  | expireAverage (now : Nat) (key : PriceMapKey)

/-- A call starts after all readings of the clock by earlier ones. Items disappear when their time
is over, if they do. -/
def step (ttl : Nat) (c : PriceCache) : Action → Option PriceCache
  | .save now stamp prices =>
    if c.now < now ∧ now ≤ stamp then some (saveAssetPrices ttl c now stamp prices) else none
  | .expireSources now key =>
    match c.sources key with
    | some item =>
      if c.now ≤ now ∧ item.expiresAt ≤ now then
        some { c with sources := c.sources.erase key, now := now }
      else none
    | none => none
  | .expireAverage now key =>
    match c.averages key with
    | some item =>
      if c.now ≤ now ∧ item.expiresAt ≤ now then
        some { c with averages := c.averages.erase key, now := now }
      else none
    | none => none

/-! ## The law -/

/-- Not older than the time to live. -/
def Fresh (ttl now : Nat) (p : SourceAssetPrice) : Prop := now ≤ p.timestamp + ttl

instance : DecidablePred (Fresh ttl now) := fun _ => inferInstanceAs (Decidable (_ ≤ _))

/-- The time of the call that wrote an item. -/
def savedAt (ttl : Nat) (item : Item β) : Nat := item.expiresAt - ttl

/-- The prices of a list that had not expired when it was written. -/
def freshPrices (ttl : Nat) (item : Item (List SourceAssetPrice)) : List SourceAssetPrice :=
  item.value.filter (Fresh ttl (savedAt ttl item))

/-- The lists have one price for each source, none of which had expired when the list was written.
An average written by the same call as the list is that of its prices, and there is one until its
time is over unless it counts as false. -/
structure Valid (ttl : Nat) (c : PriceCache) : Prop where
  oneEach : ∀ {key item}, c.sources key = some item →
    (item.value.map SourceAssetPrice.sourceId).Nodup
  fresh : ∀ {key item}, c.sources key = some item → ∀ p ∈ item.value, Fresh ttl (savedAt ttl item) p
  average : ∀ {key item avg}, c.sources key = some item → c.averages key = some avg →
    avg.expiresAt = item.expiresAt → avg.value.price = mean (freshPrices ttl item)
  averaged : ∀ {key item}, c.sources key = some item → c.now < item.expiresAt →
    mean (freshPrices ttl item) ≠ 0 →
      ∃ avg, c.averages key = some avg ∧ avg.expiresAt = item.expiresAt

/-- No empty price comes for an asset with a price that has expired. -/
def Meets (ttl : Nat) (c : PriceCache) : Action → Prop
  | .save now _ prices => ∀ key price, (createPriceMap prices).get key = some price →
      price.price = 0 → ∀ item, c.sources key = some item → ∀ p ∈ item.value, Fresh ttl now p
  | _ => True

/-! ## The lists of a call -/

variable {ttl now stamp : Nat} {c c' : PriceCache} {prices : List AssetPrice} {key : PriceMapKey}

theorem exists_createPriceMap_get (h : key ∈ prices.map getPriceMapKey) :
    ∃ price, (createPriceMap prices).get key = some price := by
  obtain ⟨price, hprice, rfl⟩ := List.mem_map.mp h
  obtain ⟨last, hlast⟩ := JsMap.exists_lastWith getPriceMapKey hprice
  exact ⟨last, (JsMap.get_ofEntries_self ..).trans hlast⟩

theorem mem_keys_of_createPriceMap_get {price : AssetPrice}
    (h : (createPriceMap prices).get key = some price) : key ∈ prices.map getPriceMapKey := by
  rw [createPriceMap, JsMap.get_ofEntries_self] at h
  obtain ⟨hkey, hmem⟩ := JsMap.lastWith_eq_some h
  exact List.mem_map.mpr ⟨price, hmem, hkey⟩

theorem updatePrices_empty {list : List SourceAssetPrice} {price : AssetPrice} {expiredAt : Nat}
    (h : price.price = 0) : updatePrices list (some price) expiredAt stamp = list := if_pos h

theorem updatePrices_of_ne {list : List SourceAssetPrice} {price : AssetPrice} {expiredAt : Nat}
    (h : price.price ≠ 0) : updatePrices list (some price) expiredAt stamp =
      list.filter (fun p => p.sourceId ≠ price.sourceId ∧ p.timestamp ≥ expiredAt) ++
        [⟨price.sourceId, price.price, stamp⟩] := if_neg h

/-- A list with a new price has one for each source, as the one before. -/
theorem nodup_updatePrices {list : List SourceAssetPrice} {price : AssetPrice} {expiredAt : Nat}
    (h : (list.map SourceAssetPrice.sourceId).Nodup) :
    ((updatePrices list (some price) expiredAt stamp).map SourceAssetPrice.sourceId).Nodup := by
  by_cases hprice : price.price = 0
  · rwa [updatePrices_empty hprice]
  · rw [updatePrices_of_ne hprice, List.map_append, List.map_singleton, List.nodup_append]
    refine ⟨h.sublist (List.filter_sublist.map _), List.nodup_singleton _, ?_⟩
    intro source hsource source' hsource' heq
    obtain ⟨p, hp, rfl⟩ := List.mem_map.mp hsource
    have hne := (of_decide_eq_true (List.mem_filter.mp hp).2).1
    exact hne (heq.trans (List.mem_singleton.mp hsource'))

/-- A list with a new price has none that has expired. -/
theorem fresh_updatePrices {list : List SourceAssetPrice} {price : AssetPrice} (hnow : now ≤ stamp)
    (hempty : price.price = 0 → ∀ p ∈ list, Fresh ttl now p) :
    ∀ p ∈ updatePrices list (some price) (now - ttl) stamp, Fresh ttl now p := by
  intro p hp
  by_cases hprice : price.price = 0
  · rw [updatePrices_empty hprice] at hp
    exact hempty hprice p hp
  · rw [updatePrices_of_ne hprice] at hp
    rcases List.mem_append.mp hp with hp | hp
    · have hexpired := (of_decide_eq_true (List.mem_filter.mp hp).2).2
      exact Nat.le_add_of_sub_le hexpired
    · rw [List.mem_singleton.mp hp]
      exact Nat.le_add_right_of_le hnow

/-- What a call writes for an asset, if it meets the condition. -/
theorem updatedPrices_valid (H : Valid ttl c) (hnow : now ≤ stamp)
    (hmeets : Meets ttl c (.save now stamp prices)) (hkey : key ∈ prices.map getPriceMapKey) :
    ((updatedPrices ttl c now stamp prices key).map SourceAssetPrice.sourceId).Nodup ∧
      ∀ p ∈ updatedPrices ttl c now stamp prices key, Fresh ttl now p := by
  obtain ⟨price, hprice⟩ := exists_createPriceMap_get hkey
  rw [updatedPrices, hprice]
  cases hitem : c.sources key with
  | none => exact ⟨nodup_updatePrices List.nodup_nil, fresh_updatePrices hnow nofun⟩
  | some item =>
    exact ⟨nodup_updatePrices (H.oneEach hitem),
      fresh_updatePrices hnow fun hempty => hmeets key price hprice hempty item hitem⟩

/-! ## One step -/

/-- Items last no longer than those of a call at the present time. -/
structure Inv (ttl : Nat) (c : PriceCache) : Prop extends Valid ttl c where
  sources_le : ∀ {key item}, c.sources key = some item → item.expiresAt ≤ c.now + ttl
  averages_le : ∀ {key avg}, c.averages key = some avg → avg.expiresAt ≤ c.now + ttl

theorem Inv.of_empty (ttl now : Nat) : Inv ttl (emptyCache now) where
  oneEach := nofun
  fresh := nofun
  average := nofun
  averaged := nofun
  sources_le := nofun
  averages_le := nofun

theorem freshPrices_of_fresh {list : List SourceAssetPrice} (h : ∀ p ∈ list, Fresh ttl now p) :
    freshPrices ttl ⟨list, now + ttl⟩ = list := by
  refine List.filter_eq_self.mpr fun p hp => decide_eq_true ?_
  rw [savedAt, Nat.add_sub_cancel]
  exact h p hp

/-- A call that brings no empty price for an asset with a price that has expired. -/
theorem Inv.save (H : Inv ttl c) (hlt : c.now < now) (hle : now ≤ stamp)
    (hmeets : Meets ttl c (.save now stamp prices)) :
    Inv ttl (saveAssetPrices ttl c now stamp prices) := by
  have hlists {key : PriceMapKey} (hkey : key ∈ prices.map getPriceMapKey) :=
    updatedPrices_valid H.toValid hle hmeets hkey
  have hsources (key : PriceMapKey) := mset_sourceItems c.sources (prices.map getPriceMapKey)
    (updatedPrices ttl c now stamp prices) (now + ttl) key
  have haverages (key : PriceMapKey) := mset_avgItems c.averages (prices.map getPriceMapKey)
    (updatedPrices ttl c now stamp prices) (now + ttl) key
  have hsavedAt (list : List SourceAssetPrice) : savedAt ttl ⟨list, now + ttl⟩ = now :=
    Nat.add_sub_cancel ..
  constructor
  case sources_le =>
    intro key item hitem
    change item.expiresAt ≤ stamp + ttl
    rcases hsources key with ⟨-, -, hnew⟩ | ⟨-, hold⟩
    · cases Option.some.inj (hnew.symm.trans hitem)
      exact Nat.add_le_add_right hle ttl
    · have := H.sources_le (hold.symm.trans hitem)
      omega
  case averages_le =>
    intro key avg havg
    change avg.expiresAt ≤ stamp + ttl
    rcases haverages key with ⟨-, -, -, hnew⟩ | ⟨-, hold⟩
    · cases Option.some.inj (hnew.symm.trans havg)
      exact Nat.add_le_add_right hle ttl
    · have := H.averages_le (hold.symm.trans havg)
      omega
  constructor
  case oneEach =>
    intro key item hitem
    rcases hsources key with ⟨hkey, -, hnew⟩ | ⟨-, hold⟩
    · cases Option.some.inj (hnew.symm.trans hitem)
      exact (hlists hkey).1
    · exact H.oneEach (hold.symm.trans hitem)
  case fresh =>
    intro key item hitem p hp
    rcases hsources key with ⟨hkey, -, hnew⟩ | ⟨-, hold⟩
    · cases Option.some.inj (hnew.symm.trans hitem)
      rw [hsavedAt]
      exact (hlists hkey).2 p hp
    · exact H.fresh (hold.symm.trans hitem) p hp
  case average =>
    intro key item avg hitem havg hsame
    rcases hsources key with ⟨hkey, hne, hnew⟩ | ⟨hnot, hold⟩
    · cases Option.some.inj (hnew.symm.trans hitem)
      rw [freshPrices_of_fresh (hlists hkey).2]
      rcases haverages key with ⟨-, -, -, hnewAvg⟩ | ⟨-, holdAvg⟩
      · cases Option.some.inj (hnewAvg.symm.trans havg)
        rfl
      · -- an average of an earlier call does not last as long
        have := H.averages_le (holdAvg.symm.trans havg)
        change avg.expiresAt = now + ttl at hsame
        omega
    · rcases haverages key with ⟨hkey, hne, -⟩ | ⟨-, holdAvg⟩
      · exact absurd ⟨hkey, hne⟩ hnot
      · exact H.average (hold.symm.trans hitem) (holdAvg.symm.trans havg) hsame
  case averaged =>
    intro key item hitem hlive hmean
    rcases hsources key with ⟨hkey, hne, hnew⟩ | ⟨hnot, hold⟩
    · cases Option.some.inj (hnew.symm.trans hitem)
      rw [freshPrices_of_fresh (hlists hkey).2] at hmean
      rcases haverages key with ⟨-, -, -, hnewAvg⟩ | ⟨hnotAvg, -⟩
      · exact ⟨_, hnewAvg, rfl⟩
      · exact absurd ⟨hkey, hne, hmean⟩ hnotAvg
    · have hlive' : c.now < item.expiresAt := (hlt.trans_le hle).trans hlive
      obtain ⟨avg, havg, hsame⟩ := H.averaged (hold.symm.trans hitem) hlive' hmean
      rcases haverages key with ⟨hkey, hne, -⟩ | ⟨-, holdAvg⟩
      · exact absurd ⟨hkey, hne⟩ hnot
      · exact ⟨avg, holdAvg.trans havg, hsame⟩

theorem Inv.expireSources (H : Inv ttl c) (hle : c.now ≤ now) :
    Inv ttl { c with sources := c.sources.erase key, now := now } where
  oneEach h := H.oneEach (Store.of_erase h)
  fresh h := H.fresh (Store.of_erase h)
  average h := H.average (Store.of_erase h)
  averaged h hlive := H.averaged (Store.of_erase h) (lt_of_le_of_lt hle hlive)
  sources_le h := (H.sources_le (Store.of_erase h)).trans (Nat.add_le_add_right hle ttl)
  averages_le h := (H.averages_le h).trans (Nat.add_le_add_right hle ttl)

/-- An average whose time is over is not that of a list that is still to last. -/
theorem Inv.expireAverage (H : Inv ttl c) (hle : c.now ≤ now) {old : Item AvgPrice}
    (hold : c.averages key = some old) (hexpired : old.expiresAt ≤ now) :
    Inv ttl { c with averages := c.averages.erase key, now := now } where
  oneEach := H.oneEach
  fresh := H.fresh
  average h havg := H.average h (Store.of_erase havg)
  averaged {key' item} h hlive hmean := by
    change now < item.expiresAt at hlive
    obtain ⟨avg, havg, hsame⟩ := H.averaged h (lt_of_le_of_lt hle hlive) hmean
    refine ⟨avg, (Store.erase_of_ne fun hkey => ?_).trans havg, hsame⟩
    subst hkey
    cases Option.some.inj (hold.symm.trans havg)
    omega
  sources_le h := (H.sources_le h).trans (Nat.add_le_add_right hle ttl)
  averages_le h := (H.averages_le (Store.of_erase h)).trans (Nat.add_le_add_right hle ttl)

/-- What a step does. -/
theorem step_cases {a : Action} (h : step ttl c a = some c') :
    (∃ now stamp prices, a = .save now stamp prices ∧ c.now < now ∧ now ≤ stamp ∧
      c' = saveAssetPrices ttl c now stamp prices) ∨
    (∃ now key, a = .expireSources now key ∧ c.now ≤ now ∧
      c' = { c with sources := c.sources.erase key, now := now }) ∨
    (∃ now key old, a = .expireAverage now key ∧ c.now ≤ now ∧ c.averages key = some old ∧
      old.expiresAt ≤ now ∧ c' = { c with averages := c.averages.erase key, now := now }) := by
  cases a with
  | save now stamp prices =>
    simp only [step] at h
    split at h
    next hguard =>
      exact .inl ⟨now, stamp, prices, rfl, hguard.1, hguard.2, (Option.some.inj h).symm⟩
    · cases h
  | expireSources now key =>
    simp only [step] at h
    split at h
    next item hitem =>
      split at h
      next hguard => exact .inr (.inl ⟨now, key, rfl, hguard.1, (Option.some.inj h).symm⟩)
      · cases h
    · cases h
  | expireAverage now key =>
    simp only [step] at h
    split at h
    next item hitem =>
      split at h
      next hguard =>
        exact .inr (.inr
          ⟨now, key, item, rfl, hguard.1, hitem, hguard.2, (Option.some.inj h).symm⟩)
      · cases h
    · cases h

theorem Inv.step {a : Action} (H : Inv ttl c) (hmeets : Meets ttl c a)
    (h : step ttl c a = some c') : Inv ttl c' := by
  obtain ⟨now, stamp, prices, rfl, hlt, hle, rfl⟩ | ⟨now, key, rfl, hle, rfl⟩ |
    ⟨now, key, old, rfl, hle, hold, hexpired, rfl⟩ := step_cases h
  · exact H.save hlt hle hmeets
  · exact H.expireSources hle
  · exact H.expireAverage hle hold hexpired

/-- A list with a price that has expired is written again for an empty price. -/
theorem meets_of_valid {a : Action} (h : SequentialSaves.step ttl c a = some c')
    (hvalid : Valid ttl c') : Meets ttl c a := by
  obtain ⟨now, stamp, prices, rfl, -, -, rfl⟩ | ⟨now, key, rfl, -, -⟩ |
    ⟨now, key, old, rfl, -, -, -, -⟩ := step_cases h
  case inr.inl => trivial
  case inr.inr => trivial
  intro key price hprice hempty item hitem p hp
  have hupdated : updatedPrices ttl c now stamp prices key = item.value := by
    rw [updatedPrices, hprice, updatePrices_empty hempty, hitem]
    rfl
  rcases mset_sourceItems c.sources (prices.map getPriceMapKey)
    (updatedPrices ttl c now stamp prices) (now + ttl) key with ⟨-, -, hnew⟩ | ⟨hnot, -⟩
  · have hfresh := hvalid.fresh hnew p (hupdated ▸ hp)
    rwa [savedAt, Nat.add_sub_cancel] at hfresh
  · refine absurd ⟨mem_keys_of_createPriceMap_get hprice, ?_⟩ hnot
    rw [hupdated]
    exact List.ne_nil_of_mem hp

/-! ## Runs -/

/-- From an empty cache, all states that a run reaches are in order if and only if none of its calls
brings an empty price for an asset with a price that has expired. -/
theorem reaches_valid_iff {start : Nat} {as : List Action} {t : PriceCache}
    (hrun : run (step ttl) (emptyCache start) as = some t) :
    (∀ pre u, pre <+: as → run (step ttl) (emptyCache start) pre = some u → Valid ttl u) ↔
      RunsUnder (step ttl) (Meets ttl) (emptyCache start) as t :=
  (runsUnder_iff (fun H : Inv ttl _ => H.toValid) Inv.step (fun _ => meets_of_valid)
    (Inv.of_empty ttl start) hrun).symm

/-! ## An empty price -/

/-- A price of the asset. -/
def priceOf (sourceId : Nat) (price : ℚ) : List AssetPrice := [⟨sourceId, 1, "0xA", price⟩]

/-- Two sources have prices, within the hour of which the second one has none. -/
def inTime : List Action :=
  [.save 1 1 (priceOf 1 2), .save 3000000 3000000 (priceOf 2 4),
    .save 3500000 3500001 (priceOf 2 0)]

/-- It has none later, too, when the price of the first has expired. -/
def tooLate : List Action := inTime ++ [.save 6000000 6000000 (priceOf 2 0)]

theorem priceOf_get {sourceId : Nat} {price : ℚ} {p : AssetPrice}
    (h : (createPriceMap (priceOf sourceId price)).get key = some p) :
    key = assetKey ∧ p.price = price := by
  have hlower : lowerCase "0xA" = "0xa" := by decide
  rw [createPriceMap, JsMap.get_ofEntries_self] at h
  obtain ⟨hkey, hmem⟩ := JsMap.lastWith_eq_some h
  cases List.mem_singleton.mp hmem
  exact ⟨by rw [← hkey, getPriceMapKey, hlower]; rfl, rfl⟩

theorem meets_price {sourceId : Nat} {price : ℚ} (h : price ≠ 0) :
    Meets ttl c (.save now stamp (priceOf sourceId price)) :=
  fun _ _ hget hempty => absurd ((priceOf_get hget).2.symm.trans hempty) h

theorem meets_empty {sourceId : Nat} {item : Item (List SourceAssetPrice)}
    (hitem : c.sources assetKey = some item) (h : ∀ p ∈ item.value, Fresh ttl now p) :
    Meets ttl c (.save now stamp (priceOf sourceId 0)) := by
  intro key price hget _ item' hitem'
  rw [(priceOf_get hget).1, hitem] at hitem'
  cases hitem'
  exact h

theorem inTime_valid : ∃ t, run (step 3600000) (emptyCache 0) inTime = some t ∧
    ∀ pre u, pre <+: inTime → run (step 3600000) (emptyCache 0) pre = some u → Valid 3600000 u := by
  have hruns : ∃ t, RunsUnder (step 3600000) (Meets 3600000) (emptyCache 0) inTime t ∧
      run (step 3600000) (emptyCache 0) inTime = some t := by
    refine ⟨_, .cons (meets_price (by decide +kernel)) rfl <|
      .cons (meets_price (by decide +kernel)) rfl <| .cons (meets_empty rfl ?_) rfl .nil, rfl⟩
    decide +kernel
  obtain ⟨t, hunder, hrun⟩ := hruns
  exact ⟨t, hrun, (reaches_valid_iff hrun).mpr hunder⟩

theorem tooLate_not_valid : ∃ t, run (step 3600000) (emptyCache 0) tooLate = some t ∧
    ¬ Valid 3600000 t := by
  refine ⟨_, rfl, fun H => ?_⟩
  -- the price of the first source stands in the list that the last call has written
  have hfresh := @Valid.fresh _ _ H assetKey _ rfl ⟨1, 2, 1⟩ (by decide +kernel)
  exact absurd hfresh (by decide +kernel)

end SequentialSaves
end Assets
end DefiBackend
