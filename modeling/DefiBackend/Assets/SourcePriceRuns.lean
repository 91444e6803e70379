import DefiBackend.Assets.SourcePrices

/-! # Runs of the jobs of price sources

What a call writes is computed from what it has read, so a price that another call has written in
the meantime is lost, and the average may be that of a list that is no longer there. In runs without
such writes every price is kept, and the averages are those of the lists
(`pricesKept_of_undisturbed`). -/

namespace DefiBackend
namespace Assets
open Theory

variable {ttl t₀ : Nat} {s s' : State}

/-! ## One step -/

theorem mem_sourceItems {keys : List PriceMapKey} {updated : PriceMapKey → List SourceAssetPrice}
    {expiresAt : Nat} {key : PriceMapKey} {item : Item (List SourceAssetPrice)} :
    (key, item) ∈ sourceItems keys updated expiresAt ↔
      key ∈ keys ∧ updated key ≠ [] ∧ item = ⟨updated key, expiresAt⟩ := by
  simp only [sourceItems, List.mem_map, List.mem_filter, decide_eq_true_eq, Prod.mk.injEq,
    gt_iff_lt, List.length_pos_iff]
  constructor
  · rintro ⟨key', ⟨hkey, hne⟩, rfl, rfl⟩
    exact ⟨hkey, hne, rfl⟩
  · rintro ⟨hkey, hne, rfl⟩
    exact ⟨key, ⟨hkey, hne⟩, rfl, rfl⟩

theorem calculateAveragePrice_eq_some {prices : List SourceAssetPrice} {price : ℚ} :
    calculateAveragePrice prices = some price ↔ prices ≠ [] ∧ price = mean prices := by
  unfold calculateAveragePrice
  by_cases h : prices = []
  · simp [h]
  · simp [h, eq_comm]

theorem mem_avgItems {keys : List PriceMapKey} {updated : PriceMapKey → List SourceAssetPrice}
    {expiresAt : Nat} {key : PriceMapKey} {item : Item AvgPrice} :
    (key, item) ∈ avgItems keys updated expiresAt ↔
      key ∈ keys ∧ updated key ≠ [] ∧ mean (updated key) ≠ 0 ∧
        item = ⟨⟨mean (updated key), none⟩, expiresAt⟩ := by
  rw [avgItems, List.mem_filterMap]
  constructor
  · rintro ⟨key', hkey, h⟩
    cases havg : calculateAveragePrice (updated key') with
    | none => simp [havg] at h
    | some price =>
      obtain ⟨hne, rfl⟩ := calculateAveragePrice_eq_some.mp havg
      by_cases hmean : mean (updated key') = 0
      · simp [havg, hmean] at h
      · simp only [havg, ne_eq, hmean, not_false_eq_true, if_true, Option.some.injEq,
          Prod.mk.injEq] at h
        obtain ⟨rfl, rfl⟩ := h
        exact ⟨hkey, hne, hmean, rfl⟩
  · rintro ⟨hkey, hne, hmean, rfl⟩
    have havg := calculateAveragePrice_eq_some.mpr ⟨hne, rfl⟩
    exact ⟨key, hkey, by simp only [havg, ne_eq, hmean, not_false_eq_true, if_true]⟩

/-- What stands under a key after the lists have been written. -/
theorem mset_sourceItems (st : Store PriceMapKey (Item (List SourceAssetPrice)))
    (keys : List PriceMapKey) (updated : PriceMapKey → List SourceAssetPrice) (expiresAt : Nat)
    (key : PriceMapKey) :
    (key ∈ keys ∧ updated key ≠ [] ∧
      st.mset (sourceItems keys updated expiresAt) key = some ⟨updated key, expiresAt⟩) ∨
    (¬ (key ∈ keys ∧ updated key ≠ []) ∧
      st.mset (sourceItems keys updated expiresAt) key = st key) := by
  by_cases h : key ∈ keys ∧ updated key ≠ []
  · obtain ⟨item, hitem, hmem⟩ := Store.mset_of_mem st (mem_sourceItems.mpr ⟨h.1, h.2, rfl⟩)
    obtain ⟨-, -, rfl⟩ := mem_sourceItems.mp hmem
    exact .inl ⟨h.1, h.2, hitem⟩
  · refine .inr ⟨h, Store.mset_of_notMem ?_⟩
    rintro ⟨key', item⟩ hmem rfl
    obtain ⟨hkey, hne, -⟩ := mem_sourceItems.mp hmem
    exact h ⟨hkey, hne⟩

/-- What stands under a key after the averages have been written. -/
theorem mset_avgItems (st : Store PriceMapKey (Item AvgPrice))
    (keys : List PriceMapKey) (updated : PriceMapKey → List SourceAssetPrice) (expiresAt : Nat)
    (key : PriceMapKey) :
    (key ∈ keys ∧ updated key ≠ [] ∧ mean (updated key) ≠ 0 ∧
      st.mset (avgItems keys updated expiresAt) key =
        some ⟨⟨mean (updated key), none⟩, expiresAt⟩) ∨
    (¬ (key ∈ keys ∧ updated key ≠ [] ∧ mean (updated key) ≠ 0) ∧
      st.mset (avgItems keys updated expiresAt) key = st key) := by
  by_cases h : key ∈ keys ∧ updated key ≠ [] ∧ mean (updated key) ≠ 0
  · obtain ⟨item, hitem, hmem⟩ :=
      Store.mset_of_mem st (mem_avgItems.mpr ⟨h.1, h.2.1, h.2.2, rfl⟩)
    obtain ⟨-, -, -, rfl⟩ := mem_avgItems.mp hmem
    exact .inl ⟨h.1, h.2.1, h.2.2, hitem⟩
  · refine .inr ⟨h, Store.mset_of_notMem ?_⟩
    rintro ⟨key', item⟩ hmem rfl
    obtain ⟨hkey, hne, hmean, -⟩ := mem_avgItems.mp hmem
    exact h ⟨hkey, hne, hmean⟩

/-- The new list has the new price, and is not empty when the old one is not. -/
theorem mem_updatePrices_self {prices : List SourceAssetPrice} {price : AssetPrice}
    {expiredAt now : Nat} (h : price.price ≠ 0) :
    ⟨price.sourceId, price.price, now⟩ ∈ updatePrices prices (some price) expiredAt now := by
  simp [updatePrices, h]

/-- The new list has the prices of the other sources, unless they have expired. -/
theorem mem_updatePrices_of_mem {prices : List SourceAssetPrice} {price : Option AssetPrice}
    {expiredAt now : Nat} {p : SourceAssetPrice} (h : p ∈ prices)
    (hsource : ∀ q, price = some q → p.sourceId ≠ q.sourceId) (hfresh : expiredAt ≤ p.timestamp) :
    p ∈ updatePrices prices price expiredAt now := by
  cases price with
  | none => exact h
  | some q =>
    rw [updatePrices]
    split
    · exact h
    · refine List.mem_append_left _ (List.mem_filter.mpr ⟨h, ?_⟩)
      exact decide_eq_true ⟨hsource q rfl, hfresh⟩

theorem updatePrices_ne_nil {prices : List SourceAssetPrice} {price : Option AssetPrice}
    {expiredAt now : Nat} (h : prices ≠ []) : updatePrices prices price expiredAt now ≠ [] := by
  cases price with
  | none => exact h
  | some q =>
    rw [updatePrices]
    split
    · exact h
    · simp

theorem SourceJob.priceMap_get {job : SourceJob} {key : PriceMapKey} {price : AssetPrice}
    (h : job.priceMap.get key = some price) : key ∈ job.keys ∧ price.sourceId = job.sourceId := by
  rw [SourceJob.priceMap, JsMap.get_ofEntries_self] at h
  obtain ⟨hkey, hmem⟩ := JsMap.lastWith_eq_some h
  exact ⟨List.mem_map.mpr ⟨price, hmem, hkey⟩, job.source_eq price hmem⟩

/-! ## What runs keep -/

/-- All calls are at their end. -/
def Completed (s : State) : Prop :=
  ∀ source call, s.calls source = some call → call.stage = .done

/-- The lists have the prices of all calls that had one that is not empty, and the averages of the
calls' assets are those of the lists. -/
structure PricesKept (s : State) : Prop where
  kept : ∀ source call, s.calls source = some call → ∀ key price,
    call.job.priceMap.get key = some price → price.price ≠ 0 →
      ∃ list, s.cached key = some list ∧ ∃ p ∈ list, p.sourceId = source ∧ p.price = price.price
  average : ∀ source call, s.calls source = some call → ∀ key ∈ call.job.keys, ∀ list,
    s.cached key = some list → list ≠ [] →
      ∃ item, s.averages key = some item ∧ item.value.price = mean list

/-- A call has written a list and not yet its average. -/
def Pending (s : State) (source : Nat) (key : PriceMapKey) (list : List SourceAssetPrice) : Prop :=
  ∃ job updated, s.calls source = some ⟨job, .averaging updated⟩ ∧ key ∈ job.keys ∧
    updated key = list

/-- The condition on the two writes of a call. It writes lists when those it has read are still the
cached ones, or none are. It writes averages that are not zero when its lists are still the cached
ones, or another call has written them and not yet their averages. -/
def Undisturbed (s : State) : Action → Prop
  | .writeSources source => ∀ job cached updated,
      s.calls source = some ⟨job, .writing cached updated⟩ → ∀ key ∈ job.keys,
        s.cached key = none ∨ s.cached key = cached key
  | .writeAverages source => ∀ job updated,
      s.calls source = some ⟨job, .averaging updated⟩ → ∀ key ∈ job.keys, updated key ≠ [] →
        mean (updated key) ≠ 0 ∧
          (s.cached key = some (updated key) ∨
            ∃ other list, other ≠ source ∧ Pending s other key list ∧ s.cached key = some list)
  | _ => True

/-- A call has written its lists. -/
def Stage.Wrote : Stage → Prop
  | .averaging _ | .done => True
  | _ => False

/-- A list has the price of a source, that will not expire until the time to live after `t₀`. -/
structure Holds (ttl t₀ : Nat) (item : Item (List SourceAssetPrice)) (source : Nat) (price : ℚ) :
    Prop where
  expiresAt : t₀ + ttl ≤ item.expiresAt
  mem : ∃ p ∈ item.value, p.sourceId = source ∧ p.price = price ∧ t₀ ≤ p.timestamp

/-- The average of a list is stored. -/
def Averaged (ttl t₀ : Nat) (s : State) (key : PriceMapKey) (list : List SourceAssetPrice) : Prop :=
  ∃ item, s.averages key = some item ∧ t₀ + ttl ≤ item.expiresAt ∧ item.value.price = mean list

/-- The invariant of a run that starts at `t₀`, as long as the time to live has not passed. -/
structure Inv (ttl t₀ : Nat) (s : State) : Prop where
  start_le : t₀ ≤ s.now
  source : ∀ {source call}, s.calls source = some call → call.job.sourceId = source
  reading : ∀ {source job expiredAt}, s.calls source = some ⟨job, .reading expiredAt⟩ →
    expiredAt ≤ t₀
  writing : ∀ {source job cached updated}, s.calls source = some ⟨job, .writing cached updated⟩ →
    ∃ expiredAt now, expiredAt ≤ t₀ ∧ t₀ ≤ now ∧ updated = job.updatedPrices cached expiredAt now
  wrote : ∀ {source call}, s.calls source = some call → call.stage.Wrote → ∀ {key price},
    call.job.priceMap.get key = some price → price.price ≠ 0 →
      ∃ item, s.sources key = some item ∧ Holds ttl t₀ item source price.price
  average : ∀ {source call}, s.calls source = some call → call.stage.Wrote →
    ∀ {key list}, key ∈ call.job.keys → s.cached key = some list → list ≠ [] →
      Averaged ttl t₀ s key list ∨ ∃ other, Pending s other key list

theorem Inv.of_start (hcalls : s.calls = Store.empty) : Inv ttl s.now s where
  start_le := Nat.le_refl _
  source h := by rw [hcalls] at h; cases h
  reading h := by rw [hcalls] at h; cases h
  writing h := by rw [hcalls] at h; cases h
  wrote h := by rw [hcalls] at h; cases h
  average h := by rw [hcalls] at h; cases h

/-! ## What each step preserves -/

theorem Pending.frame {other : Nat} {key : PriceMapKey} {list : List SourceAssetPrice}
    (h : Pending s other key list) (hcalls : s'.calls other = s.calls other) :
    Pending s' other key list := by
  obtain ⟨job, updated, hcall, hkey, hlist⟩ := h
  exact ⟨job, updated, hcalls.trans hcall, hkey, hlist⟩

/-- A call that starts, or that has read, has not written anything. -/
theorem Inv.of_call (H : Inv ttl t₀ s) {source : Nat} {call : Call}
    (hold : ∀ old, s.calls source = some old → ¬ old.stage.Wrote)
    (hjob : call.job.sourceId = source) (hnew : ¬ call.stage.Wrote)
    (hreading : ∀ expiredAt, call.stage = .reading expiredAt → expiredAt ≤ t₀)
    (hwriting : ∀ cached updated, call.stage = .writing cached updated → ∃ expiredAt now,
      expiredAt ≤ t₀ ∧ t₀ ≤ now ∧ updated = call.job.updatedPrices cached expiredAt now) :
    Inv ttl t₀ { s with calls := s.calls.set source call } where
  start_le := H.start_le
  source h := by
    rcases Store.of_set h with ⟨rfl, rfl⟩ | ⟨-, h⟩
    · exact hjob
    · exact H.source h
  reading h := by
    rcases Store.of_set h with ⟨rfl, rfl⟩ | ⟨-, h⟩
    · exact hreading _ rfl
    · exact H.reading h
  writing h := by
    rcases Store.of_set h with ⟨rfl, rfl⟩ | ⟨-, h⟩
    · exact hwriting _ _ rfl
    · exact H.writing h
  wrote h hwrote := by
    rcases Store.of_set h with ⟨rfl, rfl⟩ | ⟨-, h⟩
    · exact absurd hwrote hnew
    · exact H.wrote h hwrote
  average h hwrote := by
    rcases Store.of_set h with ⟨rfl, rfl⟩ | ⟨-, h⟩
    · exact absurd hwrote hnew
    · intro key list hkey hlist hne
      refine (H.average h hwrote hkey hlist hne).imp_right fun ⟨other, hpending⟩ => ⟨other, ?_⟩
      refine hpending.frame (Store.set_of_ne fun hother => ?_)
      obtain ⟨job, updated, hcall, -⟩ := hpending
      subst hother
      exact hold _ hcall trivial

theorem Inv.start (H : Inv ttl t₀ s) (hlive : s.now < t₀ + ttl) {job : SourceJob}
    (hnone : s.calls job.sourceId = none) :
    Inv ttl t₀ { s with calls := s.calls.set job.sourceId ⟨job, .reading (s.now - ttl)⟩ } := by
  refine H.of_call (fun old h => ?_) rfl id (fun expiredAt h => ?_) (fun cached updated h => ?_)
  · rw [hnone] at h
    cases h
  · cases h
    omega
  · cases h

theorem Inv.read (H : Inv ttl t₀ s) {source : Nat} {job : SourceJob} {expiredAt : Nat}
    (hcall : s.calls source = some ⟨job, .reading expiredAt⟩) :
    Inv ttl t₀ { s with
      calls := s.calls.set source
        ⟨job, .writing s.cached (job.updatedPrices s.cached expiredAt s.now)⟩ } := by
  have hsource : job.sourceId = source := H.source hcall
  refine H.of_call (fun old h => ?_) hsource id (fun _ h => ?_) (fun cached updated h => ?_)
  · rw [hcall] at h
    cases h
    exact id
  · cases h
  · cases h
    exact ⟨expiredAt, s.now, H.reading hcall, H.start_le, rfl⟩

/-- The write of the lists: each list that is written has the prices that the cached one has, as
this is the one that the call has read. -/
theorem Inv.writeSources (H : Inv ttl t₀ s) {source : Nat} {job : SourceJob}
    {cached : PriceMapKey → Option (List SourceAssetPrice)}
    {updated : PriceMapKey → List SourceAssetPrice}
    (hcall : s.calls source = some ⟨job, .writing cached updated⟩)
    (hsame : ∀ key ∈ job.keys, s.cached key = none ∨ s.cached key = cached key) :
    Inv ttl t₀ { s with
      sources := s.sources.mset (sourceItems job.keys updated (s.now + ttl))
      calls := s.calls.set source ⟨job, .averaging updated⟩ } := by
  obtain ⟨expiredAt, now, hexpired, hnow, rfl⟩ := H.writing hcall
  have hsource : job.sourceId = source := H.source hcall
  have hlive : t₀ + ttl ≤ s.now + ttl := Nat.add_le_add_right H.start_le ttl
  have hitem := mset_sourceItems s.sources job.keys (job.updatedPrices cached expiredAt now)
    (s.now + ttl)
  constructor
  case start_le => exact H.start_le
  case source =>
    intro src call h
    rcases Store.of_set h with ⟨rfl, rfl⟩ | ⟨-, h⟩
    · exact hsource
    · exact H.source h
  case reading =>
    intro src job' expiredAt' h
    rcases Store.of_set h with ⟨-, h⟩ | ⟨-, h⟩
    · cases h
    · exact H.reading h
  case writing =>
    intro src job' cached' updated' h
    rcases Store.of_set h with ⟨-, h⟩ | ⟨-, h⟩
    · cases h
    · exact H.writing h
  case wrote =>
    intro src call h hwrote key price hprice hne
    rcases Store.of_set h with ⟨rfl, rfl⟩ | ⟨hsrc, h⟩
    · obtain ⟨hkey, hid⟩ := SourceJob.priceMap_get hprice
      have hmem : ⟨price.sourceId, price.price, now⟩ ∈
          job.updatedPrices cached expiredAt now key := by
        rw [SourceJob.updatedPrices, hprice]
        exact mem_updatePrices_self hne
      rcases hitem key with ⟨-, -, hnew⟩ | ⟨hnot, -⟩
      · exact ⟨_, hnew, hlive, _, hmem, hid.trans hsource, rfl, hnow⟩
      · exact absurd ⟨hkey, List.ne_nil_of_mem hmem⟩ hnot
    · obtain ⟨item, hget, hexpires, p, hp, hpsource, hpprice, hfresh⟩ :=
        H.wrote h hwrote hprice hne
      rcases hitem key with ⟨hkey, -, hnew⟩ | ⟨-, hold⟩
      · -- the list that the call has read has the price, which is not of its source
        have hcached : cached key = some item.value := by
          rcases hsame key hkey with hs | hs
          · simp [State.cached, hget] at hs
          · rw [← hs, State.cached, hget]
            rfl
        have hmem : p ∈ job.updatedPrices cached expiredAt now key := by
          rw [SourceJob.updatedPrices, hcached]
          refine mem_updatePrices_of_mem hp (fun q hq hpq => hsrc ?_) (Nat.le_trans hexpired hfresh)
          rw [← hpsource, hpq, (SourceJob.priceMap_get hq).2, hsource]
        exact ⟨_, hnew, hlive, p, hmem, hpsource, hpprice, hfresh⟩
      · exact ⟨item, hold.trans hget, hexpires, p, hp, hpsource, hpprice, hfresh⟩
  case average =>
    intro src call h hwrote key list hkey hcached hne
    change Option.map Item.value (Store.mset _ _ key) = some list at hcached
    rcases hitem key with ⟨hkey', -, hnew⟩ | ⟨hnot, hold⟩
    · rw [hnew] at hcached
      exact .inr ⟨source, job, _, Store.set_self, hkey', Option.some.inj hcached⟩
    · rw [hold, ← State.cached] at hcached
      rcases Store.of_set h with ⟨rfl, rfl⟩ | ⟨hsrc, h⟩
      · refine absurd ⟨hkey, ?_⟩ hnot
        rcases hsame key hkey with hs | hs
        · rw [hs] at hcached
          cases hcached
        · rw [SourceJob.updatedPrices, ← hs, hcached]
          exact updatePrices_ne_nil hne
      · refine (H.average h hwrote hkey hcached hne).imp_right fun ⟨other, hpending⟩ => ⟨other, ?_⟩
        refine hpending.frame (Store.set_of_ne fun hother => ?_)
        obtain ⟨job', updated', hcall', -⟩ := hpending
        rw [hother, hcall] at hcall'
        cases hcall'

/-- The write of the averages: each average that is written is that of the cached list, or else the
call that has written this list is still to write its average. -/
theorem Inv.writeAverages (H : Inv ttl t₀ s) {source : Nat} {job : SourceJob}
    {updated : PriceMapKey → List SourceAssetPrice}
    (hcall : s.calls source = some ⟨job, .averaging updated⟩)
    (hcurrent : ∀ key ∈ job.keys, updated key ≠ [] → mean (updated key) ≠ 0 ∧
      (s.cached key = some (updated key) ∨
        ∃ other list, other ≠ source ∧ Pending s other key list ∧ s.cached key = some list)) :
    Inv ttl t₀ { s with
      averages := s.averages.mset (avgItems job.keys updated (s.now + ttl))
      calls := s.calls.set source ⟨job, .done⟩ } := by
  have hsource : job.sourceId = source := H.source hcall
  have hlive : t₀ + ttl ≤ s.now + ttl := Nat.add_le_add_right H.start_le ttl
  have hitem := mset_avgItems s.averages job.keys updated (s.now + ttl)
  constructor
  case start_le => exact H.start_le
  case source =>
    intro src call h
    rcases Store.of_set h with ⟨rfl, rfl⟩ | ⟨-, h⟩
    · exact hsource
    · exact H.source h
  case reading =>
    intro src job' expiredAt' h
    rcases Store.of_set h with ⟨-, h⟩ | ⟨-, h⟩
    · cases h
    · exact H.reading h
  case writing =>
    intro src job' cached' updated' h
    rcases Store.of_set h with ⟨-, h⟩ | ⟨-, h⟩
    · cases h
    · exact H.writing h
  case wrote =>
    intro src call h hwrote key price hprice hne
    rcases Store.of_set h with ⟨rfl, rfl⟩ | ⟨-, h⟩
    · exact H.wrote hcall trivial hprice hne
    · exact H.wrote h hwrote hprice hne
  case average =>
    intro src call h hwrote key list hkey hcached hne
    have hold : Averaged ttl t₀ s key list ∨ ∃ other, Pending s other key list := by
      rcases Store.of_set h with ⟨rfl, rfl⟩ | ⟨-, h⟩
      · exact H.average hcall trivial hkey hcached hne
      · exact H.average h hwrote hkey hcached hne
    have hframe {other} (h : Pending s other key list) (hother : other ≠ source) :
        ∃ other, Pending { s with
          averages := s.averages.mset (avgItems job.keys updated (s.now + ttl))
          calls := s.calls.set source ⟨job, .done⟩ } other key list :=
      ⟨other, h.frame (Store.set_of_ne hother)⟩
    change s.cached key = some list at hcached
    rcases hitem key with ⟨hkey', hne', -, hnew⟩ | ⟨hnot, hsame⟩
    · obtain ⟨-, hlist | ⟨other, list', hother, hpending, hlist⟩⟩ := hcurrent key hkey' hne'
      · rw [hcached] at hlist
        exact .inl ⟨_, hnew, hlive, congrArg mean (Option.some.inj hlist).symm⟩
      · rw [hcached] at hlist
        cases hlist
        exact .inr (hframe hpending hother)
    · rcases hold with ⟨item, hget, hexpires, hmean⟩ | ⟨other, hpending⟩
      · exact .inl ⟨item, hsame.trans hget, hexpires, hmean⟩
      · refine .inr (hframe hpending fun hother => hnot ?_)
        -- the call itself is to write the average of the list, so it does
        obtain ⟨job', updated', hcall', hkey', rfl⟩ := hpending
        rw [hother, hcall] at hcall'
        cases hcall'
        exact ⟨hkey', hne, (hcurrent key hkey' hne).1⟩

theorem Inv.tick (H : Inv ttl t₀ s) (duration : Nat) :
    Inv ttl t₀ { s with now := s.now + duration } where
  start_le := Nat.le_trans H.start_le (Nat.le_add_right ..)
  source := H.source
  reading := H.reading
  writing := H.writing
  wrote := H.wrote
  average := H.average

/-- A list that disappears is not one that has been written in the run. -/
theorem Inv.expireSources (H : Inv ttl t₀ s) (hlive : s.now < t₀ + ttl) {key : PriceMapKey}
    {item : Item (List SourceAssetPrice)} (hitem : s.sources key = some item)
    (hexpired : item.expiresAt ≤ s.now) :
    Inv ttl t₀ { s with sources := s.sources.erase key } where
  start_le := H.start_le
  source := H.source
  reading := H.reading
  writing := H.writing
  wrote h hwrote := by
    intro key' price hprice hne
    obtain ⟨item', hget, hholds⟩ := H.wrote h hwrote hprice hne
    refine ⟨item', ?_, hholds⟩
    refine (Store.erase_of_ne fun hkey => ?_).trans hget
    subst hkey
    rw [hitem] at hget
    cases hget
    exact absurd hholds.expiresAt (by omega)
  average h hwrote := by
    intro key' list hkey hcached hne
    obtain ⟨item', hget, hlist⟩ := Option.map_eq_some_iff.mp hcached
    have hcached' : s.cached key' = some list :=
      Option.map_eq_some_iff.mpr ⟨item', Store.of_erase hget, hlist⟩
    exact H.average h hwrote hkey hcached' hne

/-- An average that disappears is not one that has been written in the run. -/
theorem Inv.expireAverage (H : Inv ttl t₀ s) (hlive : s.now < t₀ + ttl) {key : PriceMapKey}
    {item : Item AvgPrice} (hitem : s.averages key = some item) (hexpired : item.expiresAt ≤ s.now) :
    Inv ttl t₀ { s with averages := s.averages.erase key } where
  start_le := H.start_le
  source := H.source
  reading := H.reading
  writing := H.writing
  wrote := H.wrote
  average h hwrote := by
    intro key' list hkey hcached hne
    rcases H.average h hwrote hkey hcached hne with ⟨item', hget, hexpires, hmean⟩ | hpending
    · refine .inl ⟨item', (Store.erase_of_ne fun hkey => ?_).trans hget, hexpires, hmean⟩
      subst hkey
      rw [hitem] at hget
      cases hget
      omega
    · exact .inr hpending

/-- What a step does. -/
theorem step_cases {a : Action} (h : step ttl s a = some s') :
    (∃ job, a = .start job ∧ s.calls job.sourceId = none ∧
      s' = { s with calls := s.calls.set job.sourceId ⟨job, .reading (s.now - ttl)⟩ }) ∨
    (∃ source job expiredAt, a = .read source ∧
      s.calls source = some ⟨job, .reading expiredAt⟩ ∧
      s' = { s with
        calls := s.calls.set source
          ⟨job, .writing s.cached (job.updatedPrices s.cached expiredAt s.now)⟩ }) ∨
    (∃ source job cached updated, a = .writeSources source ∧
      s.calls source = some ⟨job, .writing cached updated⟩ ∧
      s' = { s with
        sources := s.sources.mset (sourceItems job.keys updated (s.now + ttl))
        calls := s.calls.set source ⟨job, .averaging updated⟩ }) ∨
    (∃ source job updated, a = .writeAverages source ∧
      s.calls source = some ⟨job, .averaging updated⟩ ∧
      s' = { s with
        averages := s.averages.mset (avgItems job.keys updated (s.now + ttl))
        calls := s.calls.set source ⟨job, .done⟩ }) ∨
    (∃ duration, a = .tick duration ∧ s' = { s with now := s.now + duration }) ∨
    (∃ key item, a = .expireSources key ∧ s.sources key = some item ∧ item.expiresAt ≤ s.now ∧
      s' = { s with sources := s.sources.erase key }) ∨
    (∃ key item, a = .expireAverage key ∧ s.averages key = some item ∧ item.expiresAt ≤ s.now ∧
      s' = { s with averages := s.averages.erase key }) := by
  cases a with
  | start job =>
    simp only [step] at h
    split at h
    · cases h
    next hnone => exact .inl ⟨job, rfl, hnone, (Option.some.inj h).symm⟩
  | read source =>
    simp only [step] at h
    split at h
    next job expiredAt hcall =>
      exact .inr (.inl ⟨source, job, expiredAt, rfl, hcall, (Option.some.inj h).symm⟩)
    · cases h
  | writeSources source =>
    simp only [step] at h
    split at h
    next job cached updated hcall =>
      exact .inr (.inr (.inl
        ⟨source, job, cached, updated, rfl, hcall, (Option.some.inj h).symm⟩))
    · cases h
  | writeAverages source =>
    simp only [step] at h
    split at h
    next job updated hcall =>
      exact .inr (.inr (.inr (.inl
        ⟨source, job, updated, rfl, hcall, (Option.some.inj h).symm⟩)))
    · cases h
  | tick duration =>
    exact .inr (.inr (.inr (.inr (.inl ⟨duration, rfl, (Option.some.inj h).symm⟩))))
  | expireSources key =>
    simp only [step] at h
    split at h
    next item hitem =>
      split at h
      next hexpired =>
        exact .inr (.inr (.inr (.inr (.inr (.inl
          ⟨key, item, rfl, hitem, hexpired, (Option.some.inj h).symm⟩)))))
      · cases h
    · cases h
  | expireAverage key =>
    simp only [step] at h
    split at h
    next item hitem =>
      split at h
      next hexpired =>
        exact .inr (.inr (.inr (.inr (.inr (.inr
          ⟨key, item, rfl, hitem, hexpired, (Option.some.inj h).symm⟩)))))
      · cases h
    · cases h

theorem step_now {a : Action} (h : step ttl s a = some s') : s.now ≤ s'.now := by
  obtain ⟨_, -, -, rfl⟩ | ⟨_, _, _, -, -, rfl⟩ | ⟨_, _, _, _, -, -, rfl⟩ | ⟨_, _, _, -, -, rfl⟩ |
    ⟨duration, -, rfl⟩ | ⟨_, _, -, -, -, rfl⟩ | ⟨_, _, -, -, -, rfl⟩ := step_cases h
  case inr.inr.inr.inr.inl => exact Nat.le_add_right ..
  all_goals exact Nat.le_refl _

/-- What an undisturbed step preserves. -/
theorem Inv.step {a : Action} (H : Inv ttl t₀ s) (hlive : s.now < t₀ + ttl) (hC : Undisturbed s a)
    (h : step ttl s a = some s') : Inv ttl t₀ s' := by
  obtain ⟨job, rfl, hnone, rfl⟩ | ⟨source, job, expiredAt, rfl, hcall, rfl⟩ |
    ⟨source, job, cached, updated, rfl, hcall, rfl⟩ | ⟨source, job, updated, rfl, hcall, rfl⟩ |
    ⟨duration, rfl, rfl⟩ | ⟨key, item, rfl, hitem, hexpired, rfl⟩ |
    ⟨key, item, rfl, hitem, hexpired, rfl⟩ := step_cases h
  · exact H.start hlive hnone
  · exact H.read hcall
  · exact H.writeSources hcall (hC job cached updated hcall)
  · exact H.writeAverages hcall (hC job updated hcall)
  · exact H.tick duration
  · exact H.expireSources hlive hitem hexpired
  · exact H.expireAverage hlive hitem hexpired

/-! ## Runs -/

/-- At the end of all calls, no average is missing. -/
theorem Inv.kept_of_completed (H : Inv ttl t₀ s) (hdone : Completed s) : PricesKept s where
  kept source call hcall key price hprice hne := by
    have hwrote : call.stage.Wrote := by
      rw [hdone source call hcall]
      trivial
    obtain ⟨item, hitem, hholds⟩ := H.wrote hcall hwrote hprice hne
    obtain ⟨p, hp, hsource, hpprice, -⟩ := hholds.mem
    exact ⟨item.value, by rw [State.cached, hitem]; rfl, p, hp, hsource, hpprice⟩
  average source call hcall key hkey list hlist hne := by
    have hwrote : call.stage.Wrote := by
      rw [hdone source call hcall]
      trivial
    rcases H.average hcall hwrote hkey hlist hne with ⟨item, hitem, -, hmean⟩ | ⟨other, hpending⟩
    · exact ⟨item, hitem, hmean⟩
    · obtain ⟨job, updated, hother, -⟩ := hpending
      cases hdone other _ hother

/-- At the end of an undisturbed run of any number of calls, whatever was in the cache at its
start, no price is lost and the averages are those of the lists, until the time to live is over. -/
theorem pricesKept_of_undisturbed {as : List Action} {t : State} (hcalls : s.calls = Store.empty)
    (hrun : RunsUnder (step ttl) Undisturbed s as t) (hdone : Completed t)
    (hlive : t.now < s.now + ttl) : PricesKept t := by
  have hinv : s.now ≤ t.now ∧ (t.now < s.now + ttl → Inv ttl s.now t) := by
    refine hrun.invariant (I := fun u => s.now ≤ u.now ∧ (u.now < s.now + ttl → Inv ttl s.now u))
      ?_ ⟨Nat.le_refl _, fun _ => .of_start hcalls⟩
    rintro u a u' ⟨hle, hinv⟩ hC hstep
    have hnow := step_now hstep
    refine ⟨Nat.le_trans hle hnow, fun hlive => ?_⟩
    have hlive' : u.now < s.now + ttl := Nat.lt_of_le_of_lt hnow hlive
    exact (hinv hlive').step hlive' hC hstep
  exact (hinv.2 hlive).kept_of_completed hdone

/-! ## Two sources of one asset -/

def assetKey : PriceMapKey := ⟨1, "0xa"⟩

/-- A source with a price of the asset. -/
def singlePrice (sourceId : Nat) (price : ℚ) : SourceJob where
  sourceId := sourceId
  prices := [⟨sourceId, 1, "0xA", price⟩]
  source_eq := by
    intro p hp
    cases List.mem_singleton.mp hp
    rfl

def emptyState : State := ⟨Store.empty, Store.empty, Store.empty, 0⟩

/-- The second call starts after the first has come to its end. -/
def serialCalls : List Action :=
  [.start (singlePrice 1 2), .read 1, .writeSources 1, .writeAverages 1,
    .start (singlePrice 2 4), .read 2, .writeSources 2, .writeAverages 2]

theorem undisturbed_writeSources {source : Nat} {job : SourceJob}
    {cached : PriceMapKey → Option (List SourceAssetPrice)}
    {updated : PriceMapKey → List SourceAssetPrice}
    (hcall : s.calls source = some ⟨job, .writing cached updated⟩)
    (hsame : ∀ key ∈ job.keys, s.cached key = none ∨ s.cached key = cached key) :
    Undisturbed s (.writeSources source) := by
  intro job' cached' updated' hcall'
  rw [hcall] at hcall'
  cases hcall'
  exact hsame

theorem undisturbed_writeAverages {source : Nat} {job : SourceJob}
    {updated : PriceMapKey → List SourceAssetPrice}
    (hcall : s.calls source = some ⟨job, .averaging updated⟩)
    (hcurrent : ∀ key ∈ job.keys, mean (updated key) ≠ 0 ∧ s.cached key = some (updated key)) :
    Undisturbed s (.writeAverages source) := by
  intro job' updated' hcall' key hkey _
  rw [hcall] at hcall'
  cases hcall'
  exact ⟨(hcurrent key hkey).1, .inl (hcurrent key hkey).2⟩

theorem singlePrice_keys {sourceId : Nat} {price : ℚ} {P : PriceMapKey → Prop} (h : P assetKey) :
    ∀ key ∈ (singlePrice sourceId price).keys, P key := by
  have hlower : lowerCase "0xA" = "0xa" := by decide
  intro key hmem
  rw [List.mem_singleton.mp hmem, getPriceMapKey, hlower]
  exact h

/-- The calls of the sources 1 and 2 are at their end. -/
theorem completed_of_two {job job' : SourceJob} (h : s.calls 1 = some ⟨job, .done⟩)
    (h' : s.calls 2 = some ⟨job', .done⟩)
    (hnone : ∀ source, source ≠ 1 → source ≠ 2 → s.calls source = none) : Completed s := by
  intro source call hcall
  by_cases h1 : source = 1
  · rw [h1, h] at hcall
    cases hcall
    rfl
  by_cases h2 : source = 2
  · rw [h2, h'] at hcall
    cases hcall
    rfl
  rw [hnone source h1 h2] at hcall
  cases hcall

theorem serialCalls_pricesKept : ∃ t, run (step 3600000) emptyState serialCalls = some t ∧
    Completed t ∧ PricesKept t := by
  have hrun : ∃ t, RunsUnder (step 3600000) Undisturbed emptyState serialCalls t ∧
      run (step 3600000) emptyState serialCalls = some t := by
    refine ⟨_, .cons trivial rfl <| .cons trivial rfl <| .cons ?_ rfl <| .cons ?_ rfl <|
      .cons trivial rfl <| .cons trivial rfl <| .cons ?_ rfl <| .cons ?_ rfl .nil, rfl⟩
    · exact undisturbed_writeSources rfl (singlePrice_keys (.inl rfl))
    · exact undisturbed_writeAverages rfl (singlePrice_keys ⟨by decide +kernel, rfl⟩)
    · exact undisturbed_writeSources rfl (singlePrice_keys (.inr rfl))
    · exact undisturbed_writeAverages rfl (singlePrice_keys ⟨by decide +kernel, rfl⟩)
  obtain ⟨t, hunder, ht⟩ := hrun
  have hdone : Completed t := by
    cases ht
    refine completed_of_two rfl rfl fun source h1 h2 => ?_
    simp only [Store.set_of_ne h1, Store.set_of_ne h2, emptyState, Store.empty_apply, singlePrice]
  have hlive : t.now < emptyState.now + 3600000 := by
    cases ht
    decide
  exact ⟨t, ht, hdone, pricesKept_of_undisturbed rfl hunder hdone hlive⟩

/-- Both calls read before either writes. -/
def racingCalls : List Action :=
  [.start (singlePrice 1 2), .start (singlePrice 2 4), .read 1, .read 2, .writeSources 1,
    .writeSources 2, .writeAverages 1, .writeAverages 2]

/-- The second call writes the list without the price of the first. -/
theorem racingCalls_not_pricesKept : ∃ t, run (step 3600000) emptyState racingCalls = some t ∧
    Completed t ∧ t.now < emptyState.now + 3600000 ∧ ¬ PricesKept t := by
  refine ⟨_, rfl, ?_, by decide, fun H => ?_⟩
  · refine completed_of_two rfl rfl fun source h1 h2 => ?_
    simp only [Store.set_of_ne h1, Store.set_of_ne h2, emptyState, Store.empty_apply, singlePrice]
  · obtain ⟨list, hlist, p, hp, hsource, -⟩ := H.kept 1 ⟨singlePrice 1 2, .done⟩ rfl assetKey
      ⟨1, 1, "0xA", 2⟩ (by decide) (by decide)
    -- the cached list has the price of the second source only
    have hwritten : some [⟨2, 4, 0⟩] = some list := hlist
    cases hwritten
    cases List.mem_singleton.mp hp
    exact absurd hsource (by decide)

end Assets
end DefiBackend
