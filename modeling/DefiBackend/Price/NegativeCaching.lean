import DefiBackend.Price.TimedPrices

/-! # Addresses without a price

The four requests of the price service that read lists of prices, over the cache of these lists and
the table. A request reads the cache address by address, asks the table for the addresses that it
has not found, answers, and goes on with the update of the cache; an address that is not in the
cache after that gets the empty list.

* `step`: requests as a system. Any number of them are in flight, every awaited operation is one
  step that may come at any time or fail, entries expire and the table changes at any time;
* `noQueryOfCovered_of_run`: no covered address is asked for in runs that find no empty list for
  one.

The state keeps records that the code does not: the addresses that completed requests have covered
and whose entries have not expired since, and what the table has been asked for. -/

namespace DefiBackend
namespace Price
namespace NegativeCaching
open Theory TimedPrices

inductive Request
  | getCurrentPrices (query : PriceQuery)
  | getHistoricalPrices (query : PriceQuery) (timestamps : List ℤ)
  | getPricesInBatches (chain currency : Nat) (assets : List TokenPriceRequest)
  | getRangePrices (query : PriceQuery)

namespace Request

/-- What a request asks `getAssetPricesByAddressesChainAndCurrency` for. -/
def query : Request → PriceQuery
  | getCurrentPrices query | getHistoricalPrices query _ | getRangePrices query => query
  | getPricesInBatches chain currency assets =>
    ⟨chain, currency, assets.map TokenPriceRequest.address⟩

def addresses (request : Request) : List Address := request.query.addresses

def key (request : Request) (address : Address) : PriceKey :=
  ⟨request.query.chain, request.query.currency, address⟩

end Request

/-- How far a request is: before the cache has been read for some of its addresses; with some of the
parallel writes to come, of which one may have failed; before the loop that ends the update comes
to some addresses; and before it writes the empty list for an address. -/
inductive Stage
  | reading (left : List Address) (cached : List AssetPrices) (notCached : List Address)
  | storing (sets : List AssetPrices) (failed : Bool)
  | checking (left : List Address)
  | emptying (address : Address) (left : List Address)

/-- A request in flight, with the keys that were covered when it was made. -/
structure Call where
  request : Request
  promised : PriceKey → Bool
  stage : Stage

/-- A key that the table has been asked for. -/
structure TableQuery where
  key : PriceKey
  promised : Bool
  deriving DecidableEq

structure World where
  cache : PriceCache
  db : Database
  calls : Nat → Option Call
  covered : PriceKey → Bool
  queries : List TableQuery

inductive Action
  | requested (n : Nat) (request : Request)
  | read (n : Nat)
  | answeredFromCache (n : Nat)
  | answered (n : Nat)
  | setLanded (n : Nat) (place : Nat)
  | setFailed (n : Nat) (place : Nat)
  | stored (n : Nat)
  | checked (n : Nat)
  | emptied (n : Nat)
  | completed (n : Nat)
  | failed (n : Nat)
  | expired (key : PriceKey)
  | tablesChanged (db : Database)

/-- A promise ends with the entry. -/
def Call.forget (call : Call) (key : PriceKey) : Call :=
  { call with promised := Function.update call.promised key false }

namespace World
variable (s : World)

/-- An empty cache, and no requests. -/
def init (db : Database) : World := ⟨.empty, db, fun _ => none, fun _ => false, []⟩

def setCall (n : Nat) (call : Option Call) : World :=
  { s with calls := Function.update s.calls n call }

def setCache (key : PriceKey) (list : List TimestampPrice) : World :=
  { s with cache := s.cache.set (cacheKey key) list }

/-- A request completes: its keys are covered, if there are entries for them. -/
def cover (request : Request) : World :=
  { s with covered := fun key => s.covered key ||
      (request.addresses.any fun address => request.key address = key) &&
        (s.cache (cacheKey key)).isSome }

def expire (key : PriceKey) : World :=
  { s with
    cache := s.cache.erase (cacheKey key)
    covered := Function.update s.covered key false
    calls := fun n => (s.calls n).map (·.forget key) }

def record (queries : List TableQuery) : World := { s with queries := s.queries ++ queries }

end World

/-- One step. -/
def step (s : World) : Action → Option World
  | .requested n request =>
    match s.calls n with
    | none => some (s.setCall n (some ⟨request, s.covered, .reading request.addresses [] []⟩))
    | some _ => none
  | .read n =>
    match s.calls n with
    | some ⟨request, promised, .reading (address :: left) cached notCached⟩ =>
      let cachedPrices := (s.cache (cacheKey (request.key address))).getD []
      if cachedPrices ≠ [] then
        some (s.setCall n (some
          ⟨request, promised, .reading left (cached ++ [⟨address, cachedPrices⟩]) notCached⟩))
      else
        some (s.setCall n (some
          ⟨request, promised, .reading left cached (notCached ++ [address])⟩))
    | _ => none
  | .answeredFromCache n =>
    match s.calls n with
    | some ⟨request, _, .reading [] _ []⟩ => some ((s.cover request).setCall n none)
    | _ => none
  | .answered n =>
    match s.calls n with
    | some ⟨request, promised, .reading [] _ (address :: notCached)⟩ =>
      let rows := getCurrentPricesByAddressesChainAndCurrency s.db (address :: notCached)
        request.query.chain request.query.currency
      some ((s.record ((address :: notCached).map fun address =>
          ⟨request.key address, promised (request.key address)⟩)).setCall n
        (some ⟨request, promised, .storing (mapRowsToAssetPrices rows) false⟩))
    | _ => none
  | .setLanded n place =>
    match s.calls n with
    | some ⟨request, promised, .storing sets failed⟩ =>
      match sets[place]? with
      | none => none
      | some asset =>
        some ((s.setCache (request.key asset.address) (throughCache asset.prices)).setCall n
          (some ⟨request, promised, .storing (sets.eraseIdx place) failed⟩))
    | _ => none
  | .setFailed n place =>
    match s.calls n with
    | some ⟨request, promised, .storing sets _⟩ =>
      if place < sets.length then
        some (s.setCall n (some ⟨request, promised, .storing (sets.eraseIdx place) true⟩))
      else none
    | _ => none
  | .stored n =>
    match s.calls n with
    | some ⟨request, promised, .storing [] false⟩ =>
      some (s.setCall n (some ⟨request, promised, .checking request.addresses⟩))
    | _ => none
  | .checked n =>
    match s.calls n with
    | some ⟨request, promised, .checking (address :: left)⟩ =>
      -- an empty list is a value
      match s.cache (cacheKey (request.key address)) with
      | none => some (s.setCall n (some ⟨request, promised, .emptying address left⟩))
      | some _ => some (s.setCall n (some ⟨request, promised, .checking left⟩))
    | _ => none
  | .emptied n =>
    match s.calls n with
    | some ⟨request, promised, .emptying address left⟩ =>
      some ((s.setCache (request.key address) []).setCall n
        (some ⟨request, promised, .checking left⟩))
    | _ => none
  | .completed n =>
    match s.calls n with
    | some ⟨request, _, .checking []⟩ => some ((s.cover request).setCall n none)
    | _ => none
  | .failed n =>
    match s.calls n with
    | none | some ⟨_, _, .storing (_ :: _) _⟩ => none
    | some _ => some (s.setCall n none)
  | .expired key => some (s.expire key)
  | .tablesChanged db => some { s with db }

/-! ## The law -/

/-- A request does not come to the empty list when it reads the cache for an address that was covered
when it was made. -/
def NoEmptyRead (s : World) : Action → Prop
  | .read n => ∀ request promised address left cached notCached,
      s.calls n = some ⟨request, promised, .reading (address :: left) cached notCached⟩ →
        promised (request.key address) → s.cache (cacheKey (request.key address)) ≠ some []
  | _ => True

/-- What holds of a request in flight. -/
def Call.Inv (call : Call) : Prop :=
  match call.stage with
  | .reading _ _ notCached => ∀ address ∈ notCached, call.promised (call.request.key address) = false
  | _ => True

/-- What is covered is cached, and what is promised is covered. -/
structure Inv (s : World) : Prop where
  cached : ∀ key, s.covered key → (s.cache (cacheKey key)).isSome
  promised : ∀ n call, s.calls n = some call → ∀ key, call.promised key → s.covered key
  calls : ∀ n call, s.calls n = some call → call.Inv
  queries : ∀ query ∈ s.queries, query.promised = false

theorem World.of_setCall {s : World} {call call' : Option Call}
    (h : (s.setCall n call).calls m = call') : m = n ∧ call = call' ∨ m ≠ n ∧ s.calls m = call' := by
  change Function.update s.calls n call m = call' at h
  by_cases hm : m = n
  · subst hm
    rw [Function.update_self] at h
    exact .inl ⟨rfl, h⟩
  · rw [Function.update_of_ne hm] at h
    exact .inr ⟨hm, h⟩

namespace Inv
variable {s s' : World}

theorem init (db : Database) : Inv (World.init db) where
  cached _ h := nomatch h
  promised _ _ h := nomatch h
  calls _ _ h := nomatch h
  queries _ h := nomatch h

/-- A request is replaced. -/
theorem setCall (hI : Inv s) (call : Option Call)
    (hpromised : ∀ c, call = some c → ∀ key, c.promised key → s.covered key)
    (hcall : ∀ c, call = some c → c.Inv) : Inv (s.setCall n call) where
  cached := hI.cached
  queries := hI.queries
  promised m c h := by
    obtain ⟨rfl, hc⟩ | ⟨-, hc⟩ := World.of_setCall h
    · exact hpromised c hc
    · exact hI.promised m c hc
  calls m c h := by
    obtain ⟨rfl, hc⟩ | ⟨-, hc⟩ := World.of_setCall h
    · exact hcall c hc
    · exact hI.calls m c hc

theorem endCall (hI : Inv s) : Inv (s.setCall n none) :=
  hI.setCall none (fun _ h => nomatch h) fun _ h => nomatch h

/-- A request goes on. -/
theorem nextStage (hI : Inv s) {call : Call} (h : s.calls n = some call) (stage : Stage)
    (hstage : Call.Inv ⟨call.request, call.promised, stage⟩) :
    Inv (s.setCall n (some ⟨call.request, call.promised, stage⟩)) := by
  refine hI.setCall _ ?_ ?_
  · rintro _ ⟨⟩
    exact hI.promised n call h
  · rintro _ ⟨⟩
    exact hstage

theorem setCache (hI : Inv s) (key : PriceKey) (list : List TimestampPrice) :
    Inv (s.setCache key list) where
  promised := hI.promised
  calls := hI.calls
  queries := hI.queries
  cached key' hcovered := by
    change (s.cache.set (cacheKey key) list (cacheKey key')).isSome
    by_cases hkey : cacheKey key' = cacheKey key
    · rw [hkey, Store.set_self]
      rfl
    · rw [Store.set_of_ne hkey]
      exact hI.cached key' hcovered

theorem cover (hI : Inv s) (request : Request) : Inv (s.cover request) where
  calls := hI.calls
  queries := hI.queries
  promised n call h key hkey := by
    change (s.covered key || _) = true
    rw [hI.promised n call h key hkey, Bool.true_or]
  cached key h := by
    obtain h | h := Bool.or_eq_true_iff.mp h
    · exact hI.cached key h
    · exact (Bool.and_eq_true_iff.mp h).2

theorem expire (hI : Inv s) (key : PriceKey) : Inv (s.expire key) where
  queries := hI.queries
  cached key' h := by
    by_cases hkey : key' = key
    · subst hkey
      simp [World.expire] at h
    · have hcovered : s.covered key' := by simpa [World.expire, hkey] using h
      change (s.cache.erase (cacheKey key) (cacheKey key')).isSome
      rw [Store.erase_of_ne (cacheKey_inj.not.mpr hkey)]
      exact hI.cached key' hcovered
  promised n call h key' hpromised := by
    obtain ⟨call, hcall, rfl⟩ := Option.map_eq_some_iff.mp h
    by_cases hkey : key' = key
    · subst hkey
      simp [Call.forget] at hpromised
    · have hbefore : call.promised key' := by simpa [Call.forget, hkey] using hpromised
      simpa [World.expire, hkey] using hI.promised n call hcall key' hbefore
  calls n call h := by
    obtain ⟨call, hcall, rfl⟩ := Option.map_eq_some_iff.mp h
    have hinv := hI.calls n call hcall
    obtain ⟨request, promised, stage⟩ := call
    cases stage with
    | reading left cached notCached =>
      intro address haddress
      by_cases hkey : request.key address = key
      · simp [Call.forget, hkey]
      · simpa [Call.forget, hkey] using hinv address haddress
    | storing | checking | emptying => trivial

theorem record (hI : Inv s) {queries : List TableQuery}
    (h : ∀ query ∈ queries, query.promised = false) : Inv (s.record queries) where
  cached := hI.cached
  promised := hI.promised
  calls := hI.calls
  queries query hquery := (List.mem_append.mp hquery).elim (hI.queries query) (h query)

/-- For a key without an entry nothing is promised. -/
theorem not_promised (hI : Inv s) {call : Call} (h : s.calls n = some call) {key : PriceKey}
    (hnone : s.cache (cacheKey key) = none) : call.promised key = false := by
  apply Bool.eq_false_iff.mpr
  intro hpromised
  have hcached := hI.cached key (hI.promised n call h key hpromised)
  rw [hnone] at hcached
  cases hcached

/-- What one step keeps. -/
theorem step {a : Action} (hI : Inv s) (hread : NoEmptyRead s a)
    (hstep : NegativeCaching.step s a = some s') : Inv s' := by
  cases a with
  | requested n request =>
    simp only [NegativeCaching.step] at hstep
    split at hstep
    · obtain rfl := Option.some.inj hstep
      refine hI.setCall _ ?_ ?_
      · rintro _ ⟨⟩ key hkey
        exact hkey
      · rintro _ ⟨⟩ address haddress
        exact absurd haddress List.not_mem_nil
    · cases hstep
  | read n =>
    simp only [NegativeCaching.step] at hstep
    split at hstep
    · rename_i request promised address left cached notCached hcall
      have hinv := hI.calls n _ hcall
      split at hstep
      · obtain rfl := Option.some.inj hstep
        exact hI.nextStage hcall (.reading _ _ _) hinv
      · rename_i hempty
        obtain rfl := Option.some.inj hstep
        refine hI.nextStage hcall (.reading _ _ _) ?_
        intro address' haddress'
        obtain haddress' | haddress' := List.mem_append.mp haddress'
        · exact hinv address' haddress'
        · cases List.mem_singleton.mp haddress'
          cases hentry : s.cache (cacheKey (request.key address)) with
          | none => exact hI.not_promised hcall hentry
          | some list =>
            rw [hentry] at hempty
            refine Bool.eq_false_iff.mpr fun hpromised => ?_
            refine hread request promised address left cached notCached hcall hpromised ?_
            rw [hentry]
            exact congrArg some (not_not.mp hempty)
    · cases hstep
  | answeredFromCache n =>
    simp only [NegativeCaching.step] at hstep
    split at hstep
    · obtain rfl := Option.some.inj hstep
      exact (hI.cover _).endCall
    · cases hstep
  | answered n =>
    simp only [NegativeCaching.step] at hstep
    split at hstep
    · rename_i request promised _ address notCached hcall
      obtain rfl := Option.some.inj hstep
      have hqueries : ∀ query ∈ (address :: notCached).map fun address =>
          (⟨request.key address, promised (request.key address)⟩ : TableQuery),
          query.promised = false :=
        List.forall_mem_map.mpr (hI.calls n _ hcall)
      exact (hI.record hqueries).nextStage hcall (.storing _ _) trivial
    · cases hstep
  | setLanded n place =>
    simp only [NegativeCaching.step] at hstep
    split at hstep
    · rename_i request promised sets failed hcall
      split at hstep
      · cases hstep
      · obtain rfl := Option.some.inj hstep
        exact (hI.setCache _ _).nextStage hcall (.storing _ _) trivial
    · cases hstep
  | setFailed n place =>
    simp only [NegativeCaching.step] at hstep
    split at hstep
    · rename_i request promised sets _ hcall
      split at hstep
      · obtain rfl := Option.some.inj hstep
        exact hI.nextStage hcall (.storing _ _) trivial
      · cases hstep
    · cases hstep
  | stored n =>
    simp only [NegativeCaching.step] at hstep
    split at hstep
    · rename_i hcall
      obtain rfl := Option.some.inj hstep
      exact hI.nextStage hcall (.checking _) trivial
    · cases hstep
  | checked n =>
    simp only [NegativeCaching.step] at hstep
    split at hstep
    · rename_i request promised address left hcall
      split at hstep
      · obtain rfl := Option.some.inj hstep
        exact hI.nextStage hcall (.emptying _ _) trivial
      · obtain rfl := Option.some.inj hstep
        exact hI.nextStage hcall (.checking _) trivial
    · cases hstep
  | emptied n =>
    simp only [NegativeCaching.step] at hstep
    split at hstep
    · rename_i hcall
      obtain rfl := Option.some.inj hstep
      exact (hI.setCache _ []).nextStage hcall (.checking _) trivial
    · cases hstep
  | completed n =>
    simp only [NegativeCaching.step] at hstep
    split at hstep
    · obtain rfl := Option.some.inj hstep
      exact (hI.cover _).endCall
    · cases hstep
  | failed n =>
    simp only [NegativeCaching.step] at hstep
    split at hstep
    · cases hstep
    · cases hstep
    · obtain rfl := Option.some.inj hstep
      exact hI.endCall
  | expired key =>
    obtain rfl := Option.some.inj hstep
    exact hI.expire key
  | tablesChanged db =>
    obtain rfl := Option.some.inj hstep
    exact ⟨hI.cached, hI.promised, hI.calls, hI.queries⟩

end Inv

/-- In every run, in any interleaving, in which no covered address is read as the empty list, the
table is never asked for a key that a request before has covered and whose entry has not expired. -/
theorem noQueryOfCovered_of_run {db : Database} {as : List Action} {s : World}
    (H : RunsUnder step NoEmptyRead (World.init db) as s) :
    ∀ query ∈ s.queries, query.promised = false :=
  (H.invariant (I := Inv) Inv.step (Inv.init db)).queries

/-! ## A price that is known, and one that is not -/

/-- A request for the price of an address, up to the first entry that the update looks for. -/
def ask (n : Nat) (address : Address) : List Action :=
  [.requested n (.getCurrentPrices ⟨1, 1, [address]⟩), .read n, .answered n]

/-- A known address, which is found in the cache then, and an unknown one. -/
def askBoth : List Action :=
  ask 0 "0xa" ++ [.setLanded 0 0, .stored 0, .checked 0, .completed 0,
    .requested 1 (.getHistoricalPrices ⟨1, 1, ["0xa"]⟩ [1000]), .read 1, .answeredFromCache 1] ++
    ask 2 "0xb" ++ [.stored 2, .checked 2, .emptied 2, .completed 2]

/-- An unknown address is asked for again. -/
def askUnknown : List Action :=
  ask 0 "0xb" ++ [.stored 0, .checked 0, .emptied 0, .completed 0] ++ ask 1 "0xb"

theorem askUnknown_again : ∃ s, run step (World.init sampleDb) askUnknown = some s ∧
    ∃ query ∈ s.queries, query.promised := by
  refine ⟨_, rfl, ⟨⟨1, 1, "0xb"⟩, true⟩, ?_, rfl⟩
  decide +kernel

/-- The list that the update of the known address stores. -/
theorem stored_ne_nil : throughCache (orderBy [⟨some .nan, 5⟩]) ≠ [] := by
  decide +kernel

theorem askBoth_once : ∃ s, RunsUnder step NoEmptyRead (World.init sampleDb) askBoth s ∧
    s.queries = [⟨⟨1, 1, "0xa"⟩, false⟩, ⟨⟨1, 1, "0xb"⟩, false⟩] ∧
      ∀ query ∈ s.queries, query.promised = false := by
  have H : ∃ s, RunsUnder step NoEmptyRead (World.init sampleDb) askBoth s ∧
      s.queries = [⟨⟨1, 1, "0xa"⟩, false⟩, ⟨⟨1, 1, "0xb"⟩, false⟩] := by
    refine ⟨_, .cons trivial rfl (.cons ?_ rfl (.cons trivial rfl (.cons trivial rfl (.cons
      trivial rfl (.cons trivial rfl (.cons trivial rfl (.cons trivial rfl (.cons ?_
      (if_pos stored_ne_nil) (.cons trivial rfl (.cons trivial rfl (.cons ?_ rfl (.cons trivial rfl
      (.cons trivial rfl (.cons trivial rfl (.cons trivial rfl (.cons trivial rfl
      .nil)))))))))))))))), rfl⟩
    · rintro _ _ _ _ _ _ ⟨⟩ hpromised
      cases hpromised
    · rintro _ _ _ _ _ _ ⟨⟩ - hempty
      exact stored_ne_nil (Option.some.inj hempty)
    · rintro _ _ _ _ _ _ ⟨⟩ hpromised
      cases hpromised
  obtain ⟨s, H, hqueries⟩ := H
  exact ⟨s, H, hqueries, noQueryOfCovered_of_run H⟩

end NegativeCaching
end Price
end DefiBackend
