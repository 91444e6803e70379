import DefiBackend.Price.CurrentPrices
import DefiBackend.Theory.Fallible
import Mathlib.Data.List.Induction
import Mathlib.Data.List.Nodup

/-! # Coherence of current prices

A price that has been set is read back as long as updates of one price do not overlap with each
other or with fetches of it, do not fail after their first write, and keep to the currency in which
the database has the price of an asset.

* `Undisturbed`: the condition on a step;
* `Inv`: the invariant of the runs that meet it, with one lemma for each action;
* `coherent_of_run`: all responses of such runs are coherent. -/

namespace DefiBackend
namespace Price
open Theory

/-- The keys an update writes to, from its first write to its last. -/
def Update.touched (u : Update) : List PriceKey :=
  match u.stage with
  | .caching => []
  | .setting sets => sets.map Prod.fst
  | _ => u.requests.map PriceRequestCurrentDto.key

/-- The keys under which the cache may hold a request instead of a price because of an update. -/
def Update.dirtied (u : Update) : List PriceKey :=
  match u.stage with
  | .caching => []
  | .setting sets => sets.map Prod.fst
  | _ => (u.requests.filter PriceRequestCurrentDto.notEmpty).map PriceRequestCurrentDto.key

/-- The addresses a fetch has missed and is still to write. -/
def FetchStage.missed : FetchStage → List Address
  | .reading => []
  | .querying _ notCached _ | .writingRows _ notCached => notCached
  | .writingUnknown unknown => unknown

namespace World
variable (s : World)

def Touched (key : PriceKey) : Prop := ∃ n u, s.updates n = some u ∧ key ∈ u.touched

def Dirtied (key : PriceKey) : Prop := ∃ n u, s.updates n = some u ∧ key ∈ u.dirtied

def Missed (key : PriceKey) : Prop :=
  ∃ n f, s.fetches n = some f ∧ ∃ address ∈ f.stage.missed, f.key address = key

end World

/-- Requests for one asset ask for one price. -/
def Consistent (requests : List PriceRequestCurrentDto) : Prop :=
  ∀ dto ∈ requests, ∀ dto' ∈ requests, dto.address = dto'.address → dto.chainId = dto'.chainId →
    dto.price = dto'.price ∧ dto.currencyId = dto'.currencyId

/-- The condition on a step: no update starts to write a price that another update is writing or
that a fetch has missed and is still to write; it finds the prices in the currency in which it sets
them; it does not fail when it has written over a price; and no fetch reads a price that an update
is writing. -/
def Undisturbed (s : World) : Action → Prop
  | .updateCached n => ∀ u, s.updates n = some u → Consistent u.requests ∧
      ∀ dto ∈ u.requests, ¬ s.Touched dto.key ∧ ¬ s.Missed dto.key
  | .updateSaved n => ∀ requests assets, s.updates n = some ⟨requests, .saving assets⟩ →
      ∀ asset ∈ assets, ∀ row, s.db.prices asset.id = some row →
      ∀ dto ∈ requests, isOf dto asset → row.currencyId = dto.currencyId
  | .updateFailed n => ∀ u, s.updates n = some u → ∀ key ∈ u.dirtied, s.lastSet key = none
  | .fetchRead n => ∀ f, s.fetches n = some f →
      ∀ address ∈ f.addresses, ¬ s.Touched (f.key address)
  | _ => True

/-! ## The invariant -/

/-- What is known about an update, by its stage. -/
def UpdateOk (s : World) (u : Update) : Prop :=
  match u.stage with
  | .caching => True
  | .finding => Consistent u.requests
  | .adding found => Consistent u.requests ∧ found.Sublist s.db.assets ∧
      ∀ asset ∈ found, ∃ dto ∈ u.requests, isOf dto asset
  | .saving assets => Consistent u.requests ∧ (assets.Pairwise fun a b => a.id < b.id) ∧
      (∀ asset ∈ assets, ∃ dto ∈ u.requests, isOf dto asset) ∧
      ∀ dto ∈ u.requests, ∃ asset ∈ assets, isOf dto asset
  | .completing prices rows => Consistent u.requests ∧
      (∀ dto ∈ u.requests, ∃ value, (dto.key, value) ∈ finalSets prices rows) ∧
      ∀ p ∈ finalSets prices rows, ∃ dto ∈ u.requests, dto.key = p.1 ∧ dto.price = some p.2
  | .setting sets => ∀ p ∈ sets, s.lastSet p.1 = some p.2

/-- What is known about a fetch: it has found all that was known, and the rows it has found are for
addresses it has missed. -/
def FetchOk (f : Fetch) : Prop :=
  match f.stage with
  | .querying cached _ known => ∀ address ∈ f.addresses, ∀ value, known address = some value →
      .price address (some value) ∈ cached ∧
      ∀ entry ∈ cached, entry.address = address → entry = .price address (some value)
  | .writingRows rows notCached => ∀ row ∈ rows, row.1 ∈ notCached
  | _ => True

structure Inv (s : World) : Prop where
  addressed : ∀ {text entry}, s.cache text = some entry →
    ∃ chain currency, text = (PriceKey.mk chain currency entry.address).text
  kept : ∀ {key value}, s.lastSet key = some value →
    s.Dirtied key ∨ s.cache key.text = some (.price key.address (some value))
  updates : ∀ {n u}, s.updates n = some u → UpdateOk s u
  apart : ∀ {n n' u u' key}, s.updates n = some u → s.updates n' = some u' → key ∈ u.touched →
    key ∈ u'.touched → n = n'
  missed : ∀ {key}, s.Missed key → s.lastSet key = none ∧ ¬ s.Touched key
  fetches : ∀ {n f}, s.fetches n = some f → FetchOk f
  responses : ∀ response ∈ s.responses, response.Coherent

variable {s s' : World}

theorem Inv.init {db : Database} : Inv (World.init db) where
  addressed h := nomatch h
  kept h := nomatch h
  updates h := nomatch h
  apart h := nomatch h
  missed := by
    rintro key ⟨n, f, h, -⟩
    exact nomatch h
  fetches h := nomatch h
  responses _ h := nomatch h

/-! ## Responses -/

theorem mapRowsToCurrentPrices_append (rows : List CacheEntry) (row : CacheEntry) :
    mapRowsToCurrentPrices (rows ++ [row]) =
      Function.update (mapRowsToCurrentPrices rows) row.address (some row.value) := by
  simp [mapRowsToCurrentPrices]

/-- The last row for an address counts. -/
theorem mapRowsToCurrentPrices_eq {rows cached : List CacheEntry} {entry : CacheEntry}
    (hmem : entry ∈ cached) (hone : ∀ e ∈ cached, e.address = entry.address → e = entry) :
    mapRowsToCurrentPrices (rows ++ cached) entry.address = some entry.value := by
  induction cached using List.reverseRecOn with
  | nil => exact nomatch hmem
  | append_singleton cached last ih =>
    rw [← List.append_assoc, mapRowsToCurrentPrices_append]
    by_cases hlast : last.address = entry.address
    · obtain rfl := hone last (List.mem_append_right _ (List.mem_singleton_self _)) hlast
      exact Function.update_self ..
    · have hmem : entry ∈ cached := by
        obtain h | h := List.mem_append.mp hmem
        · exact h
        · exact absurd (congrArg CacheEntry.address (List.mem_singleton.mp h)).symm hlast
      rw [Function.update_of_ne (Ne.symm hlast)]
      exact ih hmem fun e he => hone e (List.mem_append_left _ he)

/-- A fetch that has found all that was known answers coherently, whatever rows it finds. -/
theorem coherent_of_fetchOk {f : Fetch} {addresses : List Address}
    (h : FetchOk { f with stage := .querying cached addresses known }) (rows : List CacheEntry) :
    FetchResponse.Coherent ⟨f, known, mapRowsToCurrentPrices (rows ++ cached)⟩ := by
  intro address haddress value hvalue
  obtain ⟨hmem, hone⟩ := h address haddress value hvalue
  exact mapRowsToCurrentPrices_eq hmem hone

/-! ## What changes of the state keep -/

theorem UpdateOk.mono {u : Update} (h : UpdateOk s u) (hdb : s.db.assets.Sublist s'.db.assets)
    (hlast : ∀ key ∈ u.touched, s'.lastSet key = s.lastSet key) : UpdateOk s' u := by
  obtain ⟨requests, stage⟩ := u
  cases stage with
  | adding found => exact ⟨h.1, h.2.1.trans hdb, h.2.2⟩
  | setting sets => exact fun p hp => (hlast p.1 (List.mem_map_of_mem hp)).trans (h p hp)
  | _ => exact h

theorem World.of_setUpdate {o : Option Update} (h : (s.setUpdate n o).updates m = some v) :
    m = n ∧ o = some v ∨ m ≠ n ∧ s.updates m = some v := by
  by_cases hmn : m = n
  · subst hmn
    exact .inl ⟨rfl, by simpa [World.setUpdate] using h⟩
  · exact .inr ⟨hmn, by simpa [World.setUpdate, hmn] using h⟩

theorem World.of_setFetch {o : Option Fetch} (h : (s.setFetch n o).fetches m = some f) :
    m = n ∧ o = some f ∨ m ≠ n ∧ s.fetches m = some f := by
  by_cases hmn : m = n
  · subst hmn
    exact .inl ⟨rfl, by simpa [World.setFetch] using h⟩
  · exact .inr ⟨hmn, by simpa [World.setFetch, hmn] using h⟩

/-- The database may get new assets and new prices at any time. -/
theorem Inv.setDb (h : Inv s) {db : Database} (hdb : s.db.assets.Sublist db.assets) :
    Inv { s with db } where
  addressed := h.addressed
  kept := h.kept
  updates hu := (h.updates hu).mono hdb fun _ _ => rfl
  apart := h.apart
  missed := h.missed
  fetches := h.fetches
  responses := h.responses

/-- What is written to the cache is the price that was set last, or written under a key for which
none was set, or that is dirty. -/
theorem Inv.mset (h : Inv s) {entries : List (String × CacheEntry)}
    (hentries : ∀ e ∈ entries, ∃ key : PriceKey, e.1 = key.text ∧ e.2.address = key.address ∧
      ∀ value, s.lastSet key = some value →
        s.Dirtied key ∨ e.2 = .price key.address (some value)) :
    Inv { s with cache := s.cache.mset entries } where
  addressed {text entry} hcache := by
    obtain hmem | hcache := Store.of_mset hcache
    · obtain ⟨⟨chain, currency, address⟩, htext, haddress, -⟩ := hentries _ hmem
      exact ⟨chain, currency, by rw [haddress]; exact htext⟩
    · exact h.addressed hcache
  kept {key value} hlast := by
    obtain hdirty | hcache := h.kept hlast
    · exact .inl hdirty
    · by_cases hkey : ∃ e ∈ entries, e.1 = key.text
      · obtain ⟨⟨_, v⟩, he, rfl⟩ := hkey
        obtain ⟨v', hv', hmem⟩ := Store.mset_of_mem s.cache he
        obtain ⟨key', htext, -, hentry⟩ := hentries _ hmem
        obtain rfl := PriceKey.text_inj.mp htext
        obtain hdirty | rfl := hentry value hlast
        · exact .inl hdirty
        · exact .inr hv'
      · exact .inr ((Store.mset_of_notMem fun e he heq => hkey ⟨e, he, heq⟩).trans hcache)
  updates := h.updates
  apart := h.apart
  missed := h.missed
  fetches := h.fetches
  responses := h.responses

/-- An update goes on. The keys it touches are no others than before, or are free; of a key that it
no longer dirties, the price is in the cache. -/
theorem Inv.setUpdate (h : Inv s) {o : Option Update} (hok : ∀ u', o = some u' → UpdateOk s u')
    (htouched : ∀ u', o = some u' → ∀ key ∈ u'.touched,
      (∃ u, s.updates n = some u ∧ key ∈ u.touched) ∨ ¬ s.Touched key ∧ ¬ s.Missed key)
    (hdirtied : ∀ u, s.updates n = some u → ∀ key ∈ u.dirtied,
      (∃ u', o = some u' ∧ key ∈ u'.dirtied) ∨ ∀ value, s.lastSet key = some value →
        s.cache key.text = some (.price key.address (some value))) :
    Inv (s.setUpdate n o) where
  addressed := h.addressed
  kept {key value} hlast := by
    obtain ⟨m, u, hm, hkey⟩ | hcache := h.kept (show s.lastSet key = some value from hlast)
    · by_cases hmn : m = n
      · subst hmn
        obtain ⟨u', rfl, hkey'⟩ | hcache := hdirtied u hm key hkey
        · exact .inl ⟨m, u', Function.update_self .., hkey'⟩
        · exact .inr (hcache value hlast)
      · exact .inl ⟨m, u, (Function.update_of_ne hmn ..).trans hm, hkey⟩
    · exact .inr hcache
  updates {m v} hm := by
    obtain ⟨rfl, ho⟩ | ⟨-, hm⟩ := World.of_setUpdate hm
    · exact (hok v ho).mono (List.Sublist.refl _) fun _ _ => rfl
    · exact (h.updates hm).mono (List.Sublist.refl _) fun _ _ => rfl
  apart {m m' v v' key} hm hm' hkey hkey' := by
    -- a key that `n` touches is touched by no other update
    have hother : ∀ {k w w'}, o = some w → key ∈ w.touched → k ≠ n → s.updates k = some w' →
        key ∈ w'.touched → False := by
      intro k w w' ho hw hkn hk hw'
      obtain ⟨u, hu, hukey⟩ | ⟨hfree, -⟩ := htouched w ho key hw
      · exact hkn (h.apart hk hu hw' hukey)
      · exact hfree ⟨k, w', hk, hw'⟩
    obtain ⟨hmn, ho⟩ | ⟨hmn, hm⟩ := World.of_setUpdate hm
    · obtain ⟨hmn', -⟩ | ⟨hmn', hm'⟩ := World.of_setUpdate hm'
      · exact hmn.trans hmn'.symm
      · exact (hother ho hkey hmn' hm' hkey').elim
    · obtain ⟨-, ho'⟩ | ⟨-, hm'⟩ := World.of_setUpdate hm'
      · exact (hother ho' hkey' hmn hm hkey).elim
      · exact h.apart hm hm' hkey hkey'
  missed {key} hmissed := by
    obtain ⟨hlast, hnot⟩ := h.missed (show s.Missed key from hmissed)
    refine ⟨hlast, ?_⟩
    rintro ⟨m, v, hm, hkey⟩
    obtain ⟨rfl, ho⟩ | ⟨-, hm⟩ := World.of_setUpdate hm
    · obtain ⟨u, hu, hukey⟩ | ⟨-, hfree⟩ := htouched v ho key hkey
      · exact hnot ⟨m, u, hu, hukey⟩
      · exact hfree hmissed
    · exact hnot ⟨m, v, hm, hkey⟩
  fetches := h.fetches
  responses := h.responses

/-- A fetch goes on. The addresses it misses are no others than before, or have no price. -/
theorem Inv.setFetch (h : Inv s) {o : Option Fetch} (hok : ∀ f, o = some f → FetchOk f)
    (hmissed : ∀ f, o = some f → ∀ address ∈ f.stage.missed,
      s.Missed (f.key address) ∨ s.lastSet (f.key address) = none ∧ ¬ s.Touched (f.key address)) :
    Inv (s.setFetch n o) where
  addressed := h.addressed
  kept := h.kept
  updates hu := (h.updates hu).mono (List.Sublist.refl _) fun _ _ => rfl
  apart := h.apart
  missed := by
    rintro key ⟨m, f, hm, address, haddress, rfl⟩
    obtain ⟨rfl, ho⟩ | ⟨-, hm⟩ := World.of_setFetch hm
    · exact (hmissed f ho address haddress).elim h.missed id
    · exact h.missed ⟨m, f, hm, address, haddress, rfl⟩
  fetches {m f} hm := by
    obtain ⟨rfl, ho⟩ | ⟨-, hm⟩ := World.of_setFetch hm
    · exact hok f ho
    · exact h.fetches hm
  responses := h.responses

theorem Inv.respond (h : Inv s) (hresponse : response.Coherent) : Inv (s.respond response) where
  addressed := h.addressed
  kept := h.kept
  updates hu := (h.updates hu).mono (List.Sublist.refl _) fun _ _ => rfl
  apart := h.apart
  missed := h.missed
  fetches := h.fetches
  responses r hr := by
    obtain hr | hr := List.mem_append.mp hr
    · exact h.responses r hr
    · exact List.mem_singleton.mp hr ▸ hresponse

/-! ## Updates -/

theorem isOf_iff {dto : PriceRequestCurrentDto} {asset : Asset} :
    isOf dto asset ↔ dto.address = asset.address ∧ dto.chainId = asset.chainId := by
  simp [isOf]

theorem Consistent.eq_of_isOf {requests : List PriceRequestCurrentDto} (H : Consistent requests)
    (hdto : dto ∈ requests) (hdto' : dto' ∈ requests) (h : isOf dto asset) (h' : isOf dto' asset) :
    dto.key = dto'.key ∧ dto.price = dto'.price := by
  obtain ⟨haddress, hchain⟩ := isOf_iff.mp h
  obtain ⟨haddress', hchain'⟩ := isOf_iff.mp h'
  obtain ⟨hprice, hcurrency⟩ := H dto hdto dto' hdto' (haddress.trans haddress'.symm)
    (hchain.trans hchain'.symm)
  simp [PriceRequestCurrentDto.key, haddress, haddress', hchain, hchain', hcurrency, hprice]

theorem Consistent.price_eq {requests : List PriceRequestCurrentDto} (H : Consistent requests)
    (hdto : dto ∈ requests) (hdto' : dto' ∈ requests) (h : dto.key = dto'.key) :
    dto.price = dto'.price := by
  simp only [PriceRequestCurrentDto.key, PriceKey.mk.injEq] at h
  exact (H dto hdto dto' hdto' h.2.2 h.1).1

theorem recordSet_of_notMem {requests : List PriceRequestCurrentDto}
    (h : ∀ dto ∈ requests, dto.key ≠ key) : recordSet lastSet requests key = lastSet key := by
  induction requests using List.reverseRecOn with
  | nil => rfl
  | append_singleton requests dto ih =>
    obtain ⟨hrequests, hdto⟩ := List.forall_mem_append.mp h
    rw [recordSet, List.foldl_append, List.foldl_cons, List.foldl_nil,
      Function.update_of_ne (hdto dto (List.mem_singleton_self _)).symm]
    exact ih hrequests

/-- The record of a price that all requests for it agree on. -/
theorem recordSet_of_mem {requests : List PriceRequestCurrentDto} (hdto : dto ∈ requests)
    (h : ∀ dto' ∈ requests, dto'.key = dto.key → dto'.price = dto.price) :
    recordSet lastSet requests dto.key = dto.price := by
  induction requests using List.reverseRecOn with
  | nil => exact nomatch hdto
  | append_singleton requests last ih =>
    obtain ⟨hrequests, hlast⟩ := List.forall_mem_append.mp h
    rw [recordSet, List.foldl_append, List.foldl_cons, List.foldl_nil]
    by_cases hkey : last.key = dto.key
    · rw [hkey, Function.update_self]
      exact hlast last (List.mem_singleton_self _) hkey
    · rw [Function.update_of_ne (Ne.symm hkey)]
      obtain hdto | hdto := List.mem_append.mp hdto
      · exact ih hdto hrequests
      · exact absurd (List.mem_singleton.mp hdto ▸ rfl) hkey

theorem mem_newAssets {requests : List PriceRequestCurrentDto} {n : Nat} :
    (∀ asset ∈ newAssets requests n, ∃ dto ∈ requests, isOf dto asset) ∧
      ∀ dto ∈ requests, ∃ asset ∈ newAssets requests n, isOf dto asset := by
  induction requests generalizing n with
  | nil => exact ⟨fun _ h => (nomatch h), fun _ h => nomatch h⟩
  | cons dto requests ih =>
    obtain ⟨hassets, hrequests⟩ := @ih (n + 1)
    have hfirst : isOf dto ⟨n, dto.chainId, dto.address⟩ := isOf_iff.mpr ⟨rfl, rfl⟩
    refine ⟨List.forall_mem_cons.mpr ⟨⟨dto, List.mem_cons_self .., hfirst⟩, fun asset ha => ?_⟩,
      List.forall_mem_cons.mpr ⟨⟨_, List.mem_cons_self .., hfirst⟩, fun dto' hdto' => ?_⟩⟩
    · obtain ⟨dto', hdto', h⟩ := hassets asset ha
      exact ⟨dto', List.mem_cons_of_mem _ hdto', h⟩
    · obtain ⟨asset, ha, h⟩ := hrequests dto' hdto'
      exact ⟨asset, List.mem_cons_of_mem _ ha, h⟩

/-- The price that is associated with an asset. -/
theorem associated_spec {prices : List AssociatedAssetPrice}
    (h : getAssociatedAssetsPrices assets requests = some prices) (hprice : price ∈ prices) :
    ∃ asset ∈ assets, ∃ dto ∈ requests, isOf dto asset ∧ price.assetId = asset.id ∧
      price.address = asset.address ∧ price.chainId = asset.chainId ∧
      price.currencyId = dto.currencyId ∧ price.value = dto.price := by
  obtain ⟨asset, hasset, hassociated⟩ := (mem_of_mapM h).2 price hprice
  obtain ⟨dto, hdto, rfl⟩ := Option.map_eq_some_iff.mp hassociated
  have hof : isOf dto asset := List.find?_some (p := (isOf · asset)) hdto
  exact ⟨asset, hasset, dto, List.mem_of_find?_eq_some hdto, hof, rfl, rfl, rfl, rfl, rfl⟩

theorem eq_of_id {assets : List Asset} (hids : assets.Pairwise fun a b => a.id < b.id)
    (ha : a ∈ assets) (hb : b ∈ assets) (h : a.id = b.id) : a = b :=
  List.inj_on_of_nodup_map (List.pairwise_map.mpr (hids.imp Nat.ne_of_lt)) ha hb h

theorem find_assetId {prices : List AssociatedAssetPrice} {n : Nat}
    (h : prices.find? (·.assetId = n) = some price) : price ∈ prices ∧ price.assetId = n :=
  ⟨List.mem_of_find?_eq_some h, by simpa using List.find?_some h⟩

theorem exists_find_assetId {prices : List AssociatedAssetPrice} (h : price ∈ prices) :
    ∃ price', prices.find? (·.assetId = price.assetId) = some price' :=
  Option.isSome_iff_exists.mp (List.find?_isSome.mpr ⟨price, h, by simp⟩)

/-- A saved price, under the address and chain of an associated price for its asset, has the key
and the price of a request for the asset. -/
theorem saved_spec {db : Database} (hids : assets.Pairwise fun a b => a.id < b.id)
    (hcurrency : ∀ asset ∈ assets, ∀ row, db.prices asset.id = some row →
      ∀ dto ∈ requests, isOf dto asset → row.currencyId = dto.currencyId)
    (hprices : getAssociatedAssetsPrices assets requests = some prices)
    (hprice : price ∈ prices) (hprice' : price' ∈ prices) (hid : price'.assetId = price.assetId)
    (hvalue : price.value = some value) :
    ∃ asset ∈ assets, ∃ dto ∈ requests, isOf dto asset ∧ asset.id = price.assetId ∧
      dto.price = some value ∧
      dto.key = ⟨price'.chainId, (db.savedRow price value).currencyId, price'.address⟩ := by
  obtain ⟨asset, ha, dto, hdto, hof, hassetId, -, -, hcurrencyId, hdtoPrice⟩ :=
    associated_spec hprices hprice
  obtain ⟨asset', ha', -, -, -, hassetId', haddress', hchain', -, -⟩ :=
    associated_spec hprices hprice'
  obtain rfl : asset' = asset :=
    eq_of_id hids ha' ha (hassetId'.symm.trans (hid.trans hassetId))
  have hrow : (db.savedRow price value).currencyId = dto.currencyId := by
    rw [Database.savedRow]
    cases hdb : db.prices price.assetId with
    | none => exact hcurrencyId
    | some row => exact hcurrency asset' ha row (hassetId ▸ hdb) dto hdto hof
  obtain ⟨haddress, hchain⟩ := isOf_iff.mp hof
  refine ⟨asset', ha, dto, hdto, hof, hassetId.symm, hdtoPrice.symm.trans hvalue, ?_⟩
  rw [PriceRequestCurrentDto.key, hrow, hchain', haddress', haddress, hchain]

/-- The last writes of an update set what its requests ask for. -/
theorem finalSets_spec {db : Database} {assets : List Asset}
    (hok : UpdateOk s ⟨requests, .saving assets⟩)
    (hcurrency : ∀ asset ∈ assets, ∀ row, db.prices asset.id = some row →
      ∀ dto ∈ requests, isOf dto asset → row.currencyId = dto.currencyId)
    (hprices : getAssociatedAssetsPrices assets requests = some prices)
    (hrows : db.savedRows prices = some rows) :
    (∀ dto ∈ requests, ∃ value, (dto.key, value) ∈ finalSets prices rows) ∧
      ∀ p ∈ finalSets prices rows, ∃ dto ∈ requests, dto.key = p.1 ∧ dto.price = some p.2 := by
  obtain ⟨hconsistent, hids, hassets, hrequests⟩ := hok
  constructor
  · intro dto hdto
    obtain ⟨asset, hasset, hof⟩ := hrequests dto hdto
    obtain ⟨price, hprice, hassociated⟩ := (mem_of_mapM hprices).1 asset hasset
    obtain ⟨saved, hsaved, hvalue⟩ := (mem_of_mapM hrows).1 price hprice
    obtain ⟨value, hprice'', rfl⟩ := Option.map_eq_some_iff.mp hvalue
    have hassetId : price.assetId = asset.id := by
      obtain ⟨_, -, rfl⟩ := Option.map_eq_some_iff.mp hassociated
      rfl
    obtain ⟨price', hfind⟩ := exists_find_assetId hprice
    obtain ⟨hprice', hid⟩ := find_assetId hfind
    obtain ⟨asset', hasset', dto', hdto', hof', hassetId', -, hkey⟩ :=
      saved_spec hids hcurrency hprices hprice hprice' hid hprice''
    obtain rfl := eq_of_id hids hasset' hasset (hassetId'.trans hassetId)
    refine ⟨(db.savedRow price value).value, List.mem_filterMap.mpr ⟨_, hsaved, ?_⟩⟩
    rw [hfind, (hconsistent.eq_of_isOf hdto hdto' hof hof').1, hkey]
    rfl
  · rintro ⟨key, value⟩ hp
    obtain ⟨saved, hsaved, hset⟩ := List.mem_filterMap.mp hp
    obtain ⟨price', hfind, heq⟩ := Option.map_eq_some_iff.mp hset
    obtain ⟨price, hprice, hvalue⟩ := (mem_of_mapM hrows).2 saved hsaved
    obtain ⟨value', hprice'', rfl⟩ := Option.map_eq_some_iff.mp hvalue
    obtain ⟨rfl, rfl⟩ := Prod.mk.inj heq
    obtain ⟨hprice', hid⟩ := find_assetId hfind
    obtain ⟨-, -, dto, hdto, -, -, hdtoPrice, hkey⟩ :=
      saved_spec hids hcurrency hprices hprice hprice' hid hprice''
    refine ⟨dto, hdto, hkey, hdtoPrice.trans ?_⟩
    rw [Database.savedRow]
    cases db.prices price.assetId <;> rfl

/-- An update completes: its prices are recorded, and its keys stay dirty until they are
written. -/
theorem Inv.complete (h : Inv s) (hu : s.updates n = some ⟨requests, .completing prices rows⟩) :
    Inv ({ s with lastSet := recordSet s.lastSet requests }.setUpdate n
      (some ⟨requests, .setting (finalSets prices rows)⟩)) := by
  obtain ⟨hconsistent, hcovers, hsets⟩ := h.updates hu
  have hrequest : ∀ {dto}, dto ∈ requests → ∃ u, s.updates n = some u ∧ dto.key ∈ u.touched :=
    fun hdto => ⟨_, hu, List.mem_map_of_mem hdto⟩
  have htouched : ∀ {key}, key ∈ (finalSets prices rows).map Prod.fst →
      ∃ u, s.updates n = some u ∧ key ∈ u.touched := by
    intro key hkey
    obtain ⟨p, hp, rfl⟩ := List.mem_map.mp hkey
    obtain ⟨dto, hdto, hkey, -⟩ := hsets p hp
    exact hkey ▸ hrequest hdto
  exact {
    addressed := h.addressed
    kept {key value} hlast := by
      by_cases hkey : ∃ dto ∈ requests, dto.key = key
      · obtain ⟨dto, hdto, rfl⟩ := hkey
        obtain ⟨value, hvalue⟩ := hcovers dto hdto
        exact .inl ⟨n, _, Function.update_self .., List.mem_map_of_mem hvalue⟩
      · have hnot : ∀ dto ∈ requests, dto.key ≠ key := fun dto hdto h => hkey ⟨dto, hdto, h⟩
        have hlast : recordSet s.lastSet requests key = some value := hlast
        rw [recordSet_of_notMem hnot] at hlast
        obtain ⟨m, u, hm, hdirty⟩ | hcache := h.kept hlast
        · by_cases hmn : m = n
          · subst hmn
            obtain rfl := Option.some.inj (hu.symm.trans hm)
            obtain ⟨dto, hdto, rfl⟩ := List.mem_map.mp hdirty
            exact absurd rfl (hnot dto (List.mem_of_mem_filter hdto))
          · exact .inl ⟨m, u, (Function.update_of_ne hmn ..).trans hm, hdirty⟩
        · exact .inr hcache
    updates {m v} hm := by
      obtain ⟨rfl, hv⟩ | ⟨hmn, hm⟩ := World.of_setUpdate hm
      · obtain rfl := Option.some.inj hv
        intro p hp
        obtain ⟨dto, hdto, hkey, hprice⟩ := hsets p hp
        refine hkey ▸ Eq.trans (recordSet_of_mem hdto fun dto' hdto' hkey' => ?_) hprice
        exact hconsistent.price_eq hdto' hdto hkey'
      · refine (h.updates hm).mono (List.Sublist.refl _) fun key hkey => recordSet_of_notMem ?_
        rintro dto hdto rfl
        obtain ⟨u, hu, hukey⟩ := hrequest hdto
        exact hmn (h.apart hm hu hkey hukey)
    apart {m m' v v' key} hm hm' hkey hkey' := by
      have hold : ∀ {k w}, ({ s with lastSet := recordSet s.lastSet requests }.setUpdate n
          (some ⟨requests, .setting (finalSets prices rows)⟩)).updates k = some w →
          key ∈ w.touched → ∃ w', s.updates k = some w' ∧ key ∈ w'.touched := by
        intro k w hk hw
        obtain ⟨rfl, hw'⟩ | ⟨-, hk⟩ := World.of_setUpdate hk
        · obtain rfl := Option.some.inj hw'
          exact htouched hw
        · exact ⟨w, hk, hw⟩
      obtain ⟨w, hw, hwkey⟩ := hold hm hkey
      obtain ⟨w', hw', hwkey'⟩ := hold hm' hkey'
      exact h.apart hw hw' hwkey hwkey'
    missed {key} hmissed := by
      obtain ⟨hlast, hnot⟩ := h.missed (show s.Missed key from hmissed)
      refine ⟨Eq.trans (recordSet_of_notMem fun dto hdto hkey => ?_) hlast, ?_⟩
      · obtain ⟨u, hu, hukey⟩ := hrequest hdto
        exact hnot ⟨n, u, hu, hkey ▸ hukey⟩
      · rintro ⟨m, v, hm, hkey⟩
        obtain ⟨rfl, hv⟩ | ⟨-, hm⟩ := World.of_setUpdate hm
        · obtain rfl := Option.some.inj hv
          obtain ⟨u, hu, hukey⟩ := htouched hkey
          exact hnot ⟨m, u, hu, hukey⟩
        · exact hnot ⟨m, v, hm, hkey⟩
    fetches := h.fetches
    responses := h.responses }

/-! ## Steps -/

theorem Inv.updateCached (h : Inv s) (hu : s.updates n = some ⟨requests, .caching⟩)
    (hC : Undisturbed s (.updateCached n)) :
    Inv ({ s with cache := s.cache.mset (requestEntries requests) }.setUpdate n
      (some ⟨requests, .finding⟩)) := by
  obtain ⟨hconsistent, hfree⟩ := hC _ hu
  have hset : Inv (s.setUpdate n (some ⟨requests, .finding⟩)) := by
    refine h.setUpdate ?_ ?_ ?_
    · rintro _ ⟨⟩
      exact hconsistent
    · rintro _ ⟨⟩ key hkey
      obtain ⟨dto, hdto, rfl⟩ := List.mem_map.mp hkey
      exact .inr (hfree dto hdto)
    · intro u hu' key hkey
      obtain rfl := Option.some.inj (hu.symm.trans hu')
      exact nomatch hkey
  refine hset.mset fun e he => ?_
  obtain ⟨dto, hdto, rfl⟩ := List.mem_map.mp he
  refine ⟨dto.key, rfl, rfl, fun _ _ => .inl ⟨n, _, Function.update_self .., ?_⟩⟩
  exact List.mem_map_of_mem hdto

/-- An update goes on, touching and dirtying what it did. -/
theorem Inv.advance (h : Inv s) (hu : s.updates n = some u) (hok : UpdateOk s u')
    (htouched : u'.touched = u.touched) (hdirtied : u'.dirtied = u.dirtied) :
    Inv (s.setUpdate n (some u')) := by
  refine h.setUpdate ?_ ?_ ?_
  · rintro _ ⟨⟩
    exact hok
  · rintro _ ⟨⟩ key hkey
    exact .inl ⟨u, hu, htouched ▸ hkey⟩
  · intro v hv key hkey
    obtain rfl := Option.some.inj (hu.symm.trans hv)
    exact .inl ⟨u', rfl, hdirtied ▸ hkey⟩

theorem Inv.updateFound (h : Inv s) (hu : s.updates n = some ⟨requests, .finding⟩) :
    Inv (s.setUpdate n (some ⟨requests,
      if dtoForMissingAssets requests (s.db.findAssets requests) = [] then
        .saving (s.db.findAssets requests)
      else .adding (s.db.findAssets requests)⟩)) := by
  have hfound : ∀ asset ∈ s.db.findAssets requests, ∃ dto ∈ requests, isOf dto asset :=
    fun asset hasset => List.any_eq_true.mp (List.mem_filter.mp hasset).2
  have hsublist : (s.db.findAssets requests).Sublist s.db.assets := List.filter_sublist
  have hconsistent : Consistent requests := h.updates hu
  split
  · rename_i hmissing
    refine h.advance hu ⟨hconsistent, s.db.ordered.sublist hsublist, hfound, fun dto hdto => ?_⟩
      rfl rfl
    have hany := List.filter_eq_nil_iff.mp hmissing dto hdto
    exact List.any_eq_true.mp (by simpa using hany)
  · exact h.advance hu ⟨hconsistent, hsublist, hfound⟩ rfl rfl

theorem Inv.updateAdded (h : Inv s) (hu : s.updates n = some ⟨requests, .adding found⟩) :
    Inv ({ s with db := s.db.savePriceAssets (dtoForMissingAssets requests found) }.setUpdate n
      (some ⟨requests, .saving (found ++
        newAssets (dtoForMissingAssets requests found) s.db.nextId)⟩)) := by
  obtain ⟨hconsistent, hsublist, hfound⟩ := h.updates hu
  obtain ⟨hassets, hrequests⟩ :=
    @mem_newAssets (dtoForMissingAssets requests found) s.db.nextId
  have hdb : Inv { s with db := s.db.savePriceAssets (dtoForMissingAssets requests found) } :=
    h.setDb (List.sublist_append_left ..)
  have hordered := List.pairwise_append.mpr ⟨s.db.ordered.sublist hsublist,
    ordered_newAssets (dtoForMissingAssets requests found) s.db.nextId, fun a ha b hb =>
      (s.db.bounded a (hsublist.subset ha)).trans_le (le_id_of_mem_newAssets hb).1⟩
  have hof : ∀ asset ∈ found ++ newAssets (dtoForMissingAssets requests found) s.db.nextId,
      ∃ dto ∈ requests, isOf dto asset := by
    refine List.forall_mem_append.mpr ⟨hfound, fun asset hasset => ?_⟩
    obtain ⟨dto, hdto, hof⟩ := hassets asset hasset
    exact ⟨dto, List.mem_of_mem_filter hdto, hof⟩
  have hall : ∀ dto ∈ requests,
      ∃ asset ∈ found ++ newAssets (dtoForMissingAssets requests found) s.db.nextId,
        isOf dto asset := by
    intro dto hdto
    by_cases hany : found.any (isOf dto)
    · obtain ⟨asset, hasset, hof⟩ := List.any_eq_true.mp hany
      exact ⟨asset, List.mem_append_left _ hasset, hof⟩
    · obtain ⟨asset, hasset, hof⟩ :=
        hrequests dto (List.mem_filter.mpr ⟨hdto, by simpa using hany⟩)
      exact ⟨asset, List.mem_append_right _ hasset, hof⟩
  exact hdb.advance hu (show UpdateOk _ ⟨requests, .saving _⟩ from
    ⟨hconsistent, hordered, hof, hall⟩) rfl rfl

theorem Inv.updateSaved (h : Inv s) (hu : s.updates n = some ⟨requests, .saving assets⟩)
    (hC : Undisturbed s (.updateSaved n))
    (hprices : getAssociatedAssetsPrices assets requests = some prices)
    (hrows : s.db.savedRows prices = some rows) :
    Inv ({ s with db := s.db.savePrices rows }.setUpdate n
      (some ⟨requests, .completing prices rows⟩)) := by
  have hok := h.updates hu
  have hdb : Inv { s with db := s.db.savePrices rows } := h.setDb (List.Sublist.refl _)
  have hsets := finalSets_spec hok (hC requests assets hu) hprices hrows
  exact hdb.advance hu (show UpdateOk _ ⟨requests, .completing prices rows⟩ from ⟨hok.1, hsets⟩)
    rfl rfl

theorem Inv.setLanded {key : PriceKey} (h : Inv s) (hu : s.updates n = some ⟨requests, .setting sets⟩)
    (hp : sets[place]? = some (key, value)) :
    Inv ({ s with cache := s.cache.set key.text (.price key.address (some value)) }.setUpdate n
      (some ⟨requests, .setting (sets.eraseIdx place)⟩)) := by
  have hlast : s.lastSet key = some value := h.updates hu (key, value) (List.mem_of_getElem? hp)
  have hcache : Inv { s with
      cache := s.cache.mset [(key.text, .price key.address (some value))] } := by
    refine h.mset fun e he => ?_
    obtain rfl := List.mem_singleton.mp he
    refine ⟨key, rfl, rfl, fun value' hvalue' => .inr ?_⟩
    rw [Option.some.inj (hlast.symm.trans hvalue')]
  refine hcache.setUpdate ?_ ?_ ?_
  · rintro _ ⟨⟩ p hp
    exact h.updates hu p (List.mem_of_mem_eraseIdx hp)
  · rintro _ ⟨⟩ key' hkey'
    obtain ⟨p, hp, rfl⟩ := List.mem_map.mp hkey'
    exact .inl ⟨_, hu, List.mem_map_of_mem (List.mem_of_mem_eraseIdx hp)⟩
  · intro v hv key' hkey'
    obtain rfl := Option.some.inj (hu.symm.trans hv)
    by_cases hkey : key' = key
    · subst hkey
      refine .inr fun value' hvalue' => ?_
      rw [Option.some.inj (hvalue'.symm.trans hlast)]
      exact Store.set_self
    · refine .inl ⟨_, rfl, ?_⟩
      obtain ⟨p, hmem, rfl⟩ := List.mem_map.mp hkey'
      obtain ⟨i, hi⟩ := List.mem_iff_getElem?.mp hmem
      have hne : i ≠ place := by
        rintro rfl
        exact hkey (congrArg Prod.fst (Option.some.inj (hi.symm.trans hp)))
      exact List.mem_map_of_mem (List.mem_eraseIdx_iff_getElem?.mpr ⟨i, hne, hi⟩)

/-! ## Fetches -/

theorem Update.touched_of_dirtied {u : Update} (h : key ∈ u.dirtied) : key ∈ u.touched := by
  obtain ⟨requests, stage⟩ := u
  cases stage with
  | caching => exact h
  | setting sets => exact h
  | _ =>
    obtain ⟨dto, hdto, rfl⟩ := List.mem_map.mp h
    exact List.mem_map_of_mem (List.mem_of_mem_filter hdto)

/-- A price that is not being written is read as it was set. -/
theorem Inv.cache_eq (h : Inv s) {key : PriceKey} (hfree : ¬ s.Touched key)
    (hlast : s.lastSet key = some value) :
    s.cache key.text = some (.price key.address (some value)) := by
  obtain ⟨n, u, hu, hkey⟩ | hcache := h.kept hlast
  · exact absurd ⟨n, u, hu, Update.touched_of_dirtied hkey⟩ hfree
  · exact hcache

/-- Reading the cache finds the prices that were set, and under other addresses nothing that could
be taken for them. -/
theorem Inv.fetchRead (h : Inv s) {addresses : List Address}
    (hfree : ∀ address ∈ addresses, ¬ s.Touched ⟨chain, currency, address⟩)
    (list : List Address) :
    FetchOk ⟨chain, currency, addresses, .querying
      (addresses.filterMap fun address => s.cache (PriceKey.mk chain currency address).text) list
      fun address => s.lastSet ⟨chain, currency, address⟩⟩ := by
  intro address haddress value hvalue
  have hcache := h.cache_eq (hfree address haddress) hvalue
  refine ⟨List.mem_filterMap.mpr ⟨address, haddress, hcache⟩, ?_⟩
  rintro entry hentry rfl
  obtain ⟨address', -, hcache'⟩ := List.mem_filterMap.mp hentry
  obtain ⟨chain', currency', htext⟩ := h.addressed hcache'
  obtain rfl : address' = entry.address := congrArg PriceKey.address (PriceKey.text_inj.mp htext)
  exact Option.some.inj (hcache'.symm.trans hcache)

theorem Inv.not_set_of_notCached (h : Inv s) {addresses : List Address}
    (hfree : ∀ address ∈ addresses, ¬ s.Touched ⟨chain, currency, address⟩)
    (haddress : address ∈ notCached addresses
      (addresses.filterMap fun address => s.cache (PriceKey.mk chain currency address).text)) :
    s.lastSet ⟨chain, currency, address⟩ = none := by
  obtain ⟨hmem, hall⟩ := List.mem_filter.mp haddress
  cases hlast : s.lastSet ⟨chain, currency, address⟩ with
  | none => rfl
  | some value =>
    have hcache := h.cache_eq (hfree address hmem) hlast
    have hne := List.all_eq_true.mp hall _ (List.mem_filterMap.mpr ⟨address, hmem, hcache⟩)
    simp [CacheEntry.address] at hne

theorem mem_of_mem_getCurrentPrices {db : Database} (h : row ∈ db.getCurrentPrices addresses chain) :
    row.1 ∈ addresses := by
  obtain ⟨asset, -, hrow⟩ := List.mem_filterMap.mp h
  split at hrow
  · rename_i hasset
    split at hrow
    · split at hrow
      · obtain rfl := Option.some.inj hrow
        exact hasset.1
      · exact nomatch hrow
    · exact nomatch hrow
  · exact nomatch hrow

/-- A fetch writes only under keys it has missed. -/
theorem Inv.msetMissed (h : Inv s) (hf : s.fetches n = some f) {entries : List (String × CacheEntry)}
    (hentries : ∀ e ∈ entries, ∃ address ∈ f.stage.missed, e.1 = (f.key address).text ∧
      e.2.address = address) :
    Inv { s with cache := s.cache.mset entries } := by
  refine h.mset fun e he => ?_
  obtain ⟨address, haddress, htext, hentry⟩ := hentries e he
  refine ⟨f.key address, htext, hentry, fun value hvalue => ?_⟩
  have hnone := (h.missed ⟨n, f, hf, address, haddress, rfl⟩).1
  exact absurd (hnone.symm.trans hvalue) (nofun)

theorem Inv.endFetch (h : Inv s) : Inv (s.setFetch n none) :=
  h.setFetch (fun _ h => nomatch h) fun _ h => nomatch h

theorem Inv.fetchStarted (h : Inv s) :
    Inv (s.setFetch n (some ⟨chain, currency, addresses, .reading⟩)) := by
  refine h.setFetch ?_ ?_
  · rintro _ ⟨⟩
    trivial
  · rintro _ ⟨⟩ address haddress
    cases haddress

/-- A fetch asks the database for what it has missed, which has not been set and is not being
written. -/
theorem Inv.fetchMissed (h : Inv s) {addresses : List Address}
    (hfree : ∀ address ∈ addresses, ¬ s.Touched ⟨chain, currency, address⟩) :
    Inv (s.setFetch n (some ⟨chain, currency, addresses, .querying
      (addresses.filterMap fun address => s.cache (PriceKey.mk chain currency address).text)
      (notCached addresses
        (addresses.filterMap fun address => s.cache (PriceKey.mk chain currency address).text))
      fun address => s.lastSet ⟨chain, currency, address⟩⟩)) := by
  refine h.setFetch ?_ ?_
  · rintro _ ⟨⟩
    exact h.fetchRead hfree _
  · rintro _ ⟨⟩ address haddress
    exact .inr ⟨h.not_set_of_notCached hfree haddress,
      hfree address (List.mem_of_mem_filter haddress)⟩

/-- The rows of a fetch are for addresses that it has missed before. -/
theorem Inv.fetchRows (h : Inv s)
    (hf : s.fetches n = some ⟨chain, currency, addresses, .querying cached list known⟩) :
    Inv (s.setFetch n (some ⟨chain, currency, addresses,
      .writingRows (s.db.getCurrentPrices list chain) list⟩)) := by
  refine h.setFetch ?_ ?_
  · rintro _ ⟨⟩ row hrow
    exact mem_of_mem_getCurrentPrices hrow
  · rintro _ ⟨⟩ address haddress
    exact .inl ⟨n, _, hf, address, haddress, rfl⟩

theorem Inv.rowsWritten (h : Inv s)
    (hf : s.fetches n = some ⟨chain, currency, addresses, .writingRows rows list⟩) :
    Inv { s with cache := s.cache.mset (rows.map fun row =>
      ((PriceKey.mk chain currency row.1).text, .price row.1 (some row.2))) } := by
  refine h.msetMissed hf fun e he => ?_
  obtain ⟨row, hrow, rfl⟩ := List.mem_map.mp he
  exact ⟨row.1, h.fetches hf row hrow, rfl, rfl⟩

/-- What is unknown to the database is left of what a fetch has missed. -/
theorem Inv.unknownLeft (h : Inv s) {p : Address → Bool}
    (hf : s.fetches n = some ⟨chain, currency, addresses, .writingRows rows list⟩) :
    Inv (s.setFetch n (some ⟨chain, currency, addresses, .writingUnknown (list.filter p)⟩)) := by
  refine h.setFetch ?_ ?_
  · rintro _ ⟨⟩
    trivial
  · rintro _ ⟨⟩ address haddress
    exact .inl ⟨n, _, hf, address, List.mem_of_mem_filter haddress, rfl⟩

/-! ## Runs -/

theorem Inv.updateStarted (h : Inv s) (hu : s.updates n = none) :
    Inv (s.setUpdate n (some ⟨requests, .caching⟩)) := by
  refine h.setUpdate ?_ ?_ fun u hu' => ?_
  · rintro _ ⟨⟩
    trivial
  · rintro _ ⟨⟩ key hkey
    cases hkey
  · cases hu.symm.trans hu'

theorem Inv.updateFailed (h : Inv s)
    (hfree : ∀ u, s.updates n = some u → ∀ key ∈ u.dirtied, s.lastSet key = none) :
    Inv (s.setUpdate n none) := by
  refine h.setUpdate (fun _ h => by cases h) (fun _ h => by cases h) fun u hu key hkey => ?_
  refine .inr fun value hvalue => ?_
  cases (hfree u hu key hkey).symm.trans hvalue

theorem Inv.step (h : Inv s) (hC : Undisturbed s a) (hs : step s a = some s') : Inv s' := by
  cases a with
  | update n requests =>
    simp only [Price.step] at hs
    split at hs
    · rename_i hu
      obtain rfl := Option.some.inj hs
      exact h.updateStarted hu
    · cases hs
  | updateCached n =>
    simp only [Price.step] at hs
    split at hs
    · rename_i hu
      obtain rfl := Option.some.inj hs
      exact h.updateCached hu hC
    · cases hs
  | updateFound n =>
    simp only [Price.step] at hs
    split at hs
    · rename_i hu
      split at hs
      · cases hs
      · obtain rfl := Option.some.inj hs
        exact h.updateFound hu
    · cases hs
  | updateAdded n =>
    simp only [Price.step] at hs
    split at hs
    · rename_i hu
      obtain rfl := Option.some.inj hs
      exact h.updateAdded hu
    · cases hs
  | updateSaved n =>
    simp only [Price.step] at hs
    split at hs
    · rename_i hu
      split at hs
      · cases hs
      · rename_i hprices
        split at hs
        · cases hs
        · rename_i hrows
          obtain rfl := Option.some.inj hs
          exact h.updateSaved hu hC hprices hrows
    · cases hs
  | updateCompleted n =>
    simp only [Price.step] at hs
    split at hs
    · rename_i hu
      obtain rfl := Option.some.inj hs
      exact h.complete hu
    · cases hs
  | setLanded n place =>
    simp only [Price.step] at hs
    split at hs
    · rename_i hu
      split at hs
      · cases hs
      · rename_i hp
        obtain rfl := Option.some.inj hs
        exact h.setLanded hu hp
    · cases hs
  | updateFailed n =>
    simp only [Price.step] at hs
    split at hs
    · cases hs
    · cases hs
    · obtain rfl := Option.some.inj hs
      exact h.updateFailed hC
  | fetch n chain currency addresses =>
    simp only [Price.step] at hs
    split at hs
    · obtain rfl := Option.some.inj hs
      exact h.fetchStarted
    · cases hs
  | fetchRead n =>
    simp only [Price.step] at hs
    split at hs
    · rename_i chain currency addresses hf
      have hfree := hC _ hf
      split at hs
      · obtain rfl := Option.some.inj hs
        exact h.endFetch.respond (coherent_of_fetchOk (h.fetchRead hfree []) [])
      · obtain rfl := Option.some.inj hs
        exact h.fetchMissed hfree
    · cases hs
  | fetchRows n =>
    simp only [Price.step] at hs
    split at hs
    · rename_i hf
      obtain rfl := Option.some.inj hs
      exact (h.fetchRows hf).respond (coherent_of_fetchOk (h.fetches hf) _)
    · cases hs
  | rowsLanded n =>
    simp only [Price.step] at hs
    split at hs
    · rename_i hf
      split at hs
      · obtain rfl := Option.some.inj hs
        exact (h.rowsWritten hf).endFetch
      · obtain rfl := Option.some.inj hs
        exact (h.rowsWritten hf).unknownLeft hf
    · cases hs
  | unknownLanded n =>
    simp only [Price.step] at hs
    split at hs
    · rename_i hf
      obtain rfl := Option.some.inj hs
      refine (h.msetMissed hf fun e he => ?_).endFetch
      obtain ⟨address, haddress, rfl⟩ := List.mem_map.mp he
      exact ⟨address, haddress, rfl, rfl⟩
    · cases hs
  | fetchFailed n =>
    simp only [Price.step] at hs
    split at hs
    · obtain rfl := Option.some.inj hs
      exact h.endFetch
    · cases hs
  | tick =>
    obtain rfl := Option.some.inj hs
    exact h.setDb (List.Sublist.refl _)

/-- In every run whose steps are undisturbed, in any interleaving, all responses are coherent. -/
theorem coherent_of_run {db : Database} {as : List Action}
    (H : RunsUnder step Undisturbed (World.init db) as s) :
    ∀ response ∈ s.responses, response.Coherent :=
  (H.invariant (I := Inv) Inv.step Inv.init).responses

/-! ## A price that is set and fetched -/

def sampleAddress : Address := "0xf5d669627376ebd411e34b98f19c868c8aba5ada"

/-- A request for the price in dollars, on the first chain. -/
def sampleRequest (price : ℚ) : PriceRequestCurrentDto := ⟨sampleAddress, some price, 1, 1, none⟩

def emptyDb : Database := ⟨[], fun _ => none, 1, 0, .nil, fun _ h => nomatch h⟩

/-- An update of the price of an asset that is not in the database yet, up to its last write. -/
def setPrice (price : ℚ) : List Action :=
  [.update 0 [sampleRequest price], .updateCached 0, .updateFound 0, .updateAdded 0,
    .updateSaved 0, .updateCompleted 0, .setLanded 0 0]

/-- A fetch of the price in dollars. -/
def fetchPrice : List Action := [.fetch 1 1 1 [sampleAddress], .fetchRead 1]

/-- A price is fetched as it was set, with nothing in between. -/
theorem coherent_of_run_setPrice :
    ∃ s, run step (World.init emptyDb) (setPrice 100 ++ fetchPrice) = some s ∧
      (∃ response ∈ s.responses, response.prices sampleAddress = some (.number 100)) ∧
      ∀ response ∈ s.responses, response.Coherent := by
  have H : ∃ s, RunsUnder step Undisturbed (World.init emptyDb) (setPrice 100 ++ fetchPrice) s ∧
      ∃ response ∈ s.responses, response.prices sampleAddress = some (.number 100) := by
    refine ⟨_, .cons trivial rfl (.cons ?_ rfl (.cons trivial rfl (.cons trivial rfl (.cons ?_ rfl
      (.cons trivial rfl (.cons trivial rfl (.cons trivial rfl (.cons ?_ rfl .nil)))))))), _,
      List.mem_singleton_self _, rfl⟩
    · rintro _ ⟨⟩
      refine ⟨fun dto hdto dto' hdto' _ _ => ?_, fun dto hdto => ⟨?_, ?_⟩⟩
      · rw [List.mem_singleton.mp hdto, List.mem_singleton.mp hdto']
        exact ⟨rfl, rfl⟩
      · rintro ⟨m, u, hm, hkey⟩
        obtain ⟨-, ⟨⟩⟩ | ⟨-, hm⟩ := World.of_setUpdate hm
        · exact nomatch hkey
        · exact nomatch hm
      · rintro ⟨m, f, hm, -⟩
        exact nomatch hm
    · rintro _ _ ⟨⟩ asset - row hrow
      exact nomatch hrow
    · rintro _ ⟨⟩ address - ⟨m, u, hm, hkey⟩
      by_cases hm0 : m = 0
      · subst hm0
        obtain ⟨⟩ := hm
        exact nomatch hkey
      · simp [World.setFetch, World.setUpdate, World.init, hm0] at hm
  obtain ⟨s, H, hs⟩ := H
  exact ⟨s, H.run_eq, hs, coherent_of_run H⟩

/-- While the next update is under way, the price is undefined. -/
theorem setPrice_not_coherent :
    ∃ s, run step (World.init emptyDb)
        (setPrice 100 ++ [.update 2 [sampleRequest 101], .updateCached 2] ++ fetchPrice) = some s ∧
      ∃ response ∈ s.responses, response.prices sampleAddress = some .undefined ∧
        ¬ response.Coherent := by
  refine ⟨_, rfl, _, List.mem_singleton_self _, rfl, fun h => ?_⟩
  have hvalue := h sampleAddress (List.mem_singleton_self _) 100 rfl
  exact absurd hvalue (by decide)

end Price
end DefiBackend
