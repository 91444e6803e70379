import DefiBackend.Common.CacheKey
import DefiBackend.Theory.KeyValue
import DefiBackend.Theory.Loops
import DefiBackend.Theory.Run

/-! # The cache of the OpenSea service

`OpenSeaService` of `apps/account`: the collections and assets of an account are asked for page by
page and kept in the cache, and so is each asset. Calls overlap, each waits for OpenSea and for the
cache any time, and entries expire.

* `Clean`: addresses have no underscore, and no asset is asked for under the address of an account
  that is asked for a collection with the id of the asset as its name;
* `answers_listing`: then each call is answered with all that OpenSea lists, be it from the cache,
  and collections are never kept where they are looked for.

What OpenSea lists does not change. -/

namespace DefiBackend
namespace Account
namespace OpenSeaCache
open Theory

def getKey (seed : List String) : String := "_".intercalate seed

def getAssetKey (seed : List String) : String := getKey ("asset" :: seed)

def getCollectionKey (seed : List String) : String := getKey ("collection" :: seed)

def openSeaApiLimit : Nat := 50

def openSeaApiCollectionsLimit : Nat := 300

/-- What OpenSea lists. -/
structure OpenSea (γ α : Type) where
  collections : String → List γ
  slug : γ → String
  assets : String → String → List α
  asset : String → String → α

/-- The requests of the service that look into the cache first. A text that is undefined is
empty. -/
inductive Call
  | getRawCollectionsByAccount (account collectionSlug : String)
  | getRawAssetsByAccount (account collection : String)
  | getRawAsset (contract id : String)
  deriving DecidableEq

inductive Entry (γ α : Type)
  | collections (rawCollections : List γ)
  | assets (rawAssets : List α)
  | asset (rawAsset : α)
  deriving DecidableEq

namespace Call

/-- The key that the call reads. -/
def readKey : Call → String
  | getRawCollectionsByAccount account _ => getCollectionKey [account]
  | getRawAssetsByAccount account collection => getAssetKey [account, collection]
  | getRawAsset contract id => getAssetKey [contract, id]

/-- The key that the call writes. -/
def writeKey : Call → String
  | getRawCollectionsByAccount account _ => getAssetKey [account]
  | getRawAssetsByAccount account collection => getAssetKey [account, collection]
  | getRawAsset contract id => getAssetKey [contract, id]

end Call

/-- A call that has not found its answer in the cache. -/
inductive Waiting (γ α : Type)
  | fetchRawCollections (account collectionSlug : String) (offset : Nat) (rawCollections : List γ)
  | fetchRawAssets (account collection : String) (offset : Nat) (rawAssets : List α)
  | fetchRawAsset (contract id : String)
  /-- All is there; `cache.set` comes next. -/
  | fetched (call : Call) (entry : Entry γ α)
  deriving DecidableEq

structure State (γ α : Type) where
  cache : Store String (Entry γ α)
  waiting : List (Waiting γ α)
  answers : List (Call × Entry γ α)

inductive Action
  | call (call : Call)
  | respond (i : Nat)
  | fail (i : Nat)
  | expire (key : String)

variable {γ α : Type}

def begin : Call → Waiting γ α
  | .getRawCollectionsByAccount account slug => .fetchRawCollections account slug 0 []
  | .getRawAssetsByAccount account collection => .fetchRawAssets account collection 0 []
  | .getRawAsset contract id => .fetchRawAsset contract id

section
variable (o : OpenSea γ α)

def OpenSea.hasSlug (slug : String) (collection : γ) : Bool := slug = "" ∨ o.slug collection = slug

/-- The answer of OpenSea to the next request of a call. -/
def next : Waiting γ α → Waiting γ α
  | .fetchRawCollections account slug offset rawCollections =>
    let fetched := page offset openSeaApiCollectionsLimit (o.collections account)
    let rawCollections := rawCollections ++ fetched.filter (o.hasSlug slug)
    if fetched.length < openSeaApiCollectionsLimit then
      .fetched (.getRawCollectionsByAccount account slug) (.collections rawCollections)
    else .fetchRawCollections account slug (offset + openSeaApiCollectionsLimit) rawCollections
  | .fetchRawAssets account collection offset rawAssets =>
    let fetched := page offset openSeaApiLimit (o.assets account collection)
    let rawAssets := rawAssets ++ fetched
    if fetched.length < openSeaApiLimit then
      .fetched (.getRawAssetsByAccount account collection) (.assets rawAssets)
    else .fetchRawAssets account collection (offset + openSeaApiLimit) rawAssets
  | .fetchRawAsset contract id => .fetched (.getRawAsset contract id) (.asset (o.asset contract id))
  | .fetched call entry => .fetched call entry

/-- What a call waits for comes: it goes on, or writes the cache and answers. -/
def respond (s : State γ α) (i : Nat) : Waiting γ α → State γ α
  | .fetched call entry => {
      cache := s.cache.set call.writeKey entry
      waiting := s.waiting.eraseIdx i
      answers := s.answers ++ [(call, entry)] }
  | w => { s with waiting := s.waiting.set i (next o w) }

def step (s : State γ α) : Action → Option (State γ α)
  | .call call =>
    match s.cache call.readKey with
    | some entry => some { s with answers := s.answers ++ [(call, entry)] }
    | none => some { s with waiting := s.waiting ++ [begin call] }
  | .respond i => s.waiting[i]?.map (respond o s i)
  | .fail i =>
    if i < s.waiting.length then some { s with waiting := s.waiting.eraseIdx i } else none
  | .expire key => some { s with cache := s.cache.erase key }

def init : State γ α := ⟨Store.empty, [], []⟩

/-- What a call is to be answered with. -/
def OpenSea.listing : Call → Entry γ α
  | .getRawCollectionsByAccount account slug =>
    .collections ((o.collections account).filter (o.hasSlug slug))
  | .getRawAssetsByAccount account collection => .assets (o.assets account collection)
  | .getRawAsset contract id => .asset (o.asset contract id)

end

/-! ## The keys -/

/-- A text without underscores, as each address is. -/
def Plain (text : String) : Prop := '_' ∉ text.toList

instance (text : String) : Decidable (Plain text) := inferInstanceAs (Decidable ('_' ∉ text.toList))

def Call.address : Call → String
  | getRawCollectionsByAccount account _ => account
  | getRawAssetsByAccount account _ => account
  | getRawAsset contract _ => contract

/-- A list of assets and an asset that are kept under one key. -/
def Clash (call call' : Call) : Prop :=
  ∃ address name, call = .getRawAssetsByAccount address name ∧ call' = .getRawAsset address name

structure Clean (calls : Call → Prop) : Prop where
  plain : calls call → Plain call.address
  noClash : calls call → calls call' → ¬ Clash call call'

theorem getAssetKey_one (a : String) :
    (getAssetKey [a]).toList = "asset".toList ++ '_' :: a.toList := by
  have h : getAssetKey [a] = "asset" ++ "_" ++ a := rfl
  rw [h, String.toList_append, String.toList_append, List.append_assoc]
  rfl

theorem getAssetKey_two (a b : String) :
    (getAssetKey [a, b]).toList = "asset".toList ++ '_' :: (a.toList ++ '_' :: b.toList) := by
  have h : getAssetKey [a, b] = "asset" ++ "_" ++ a ++ "_" ++ b := rfl
  simp only [h, String.toList_append, List.append_assoc]
  rfl

theorem getCollectionKey_one (a : String) :
    (getCollectionKey [a]).toList = "collection".toList ++ '_' :: a.toList := by
  have h : getCollectionKey [a] = "collection" ++ "_" ++ a := rfl
  rw [h, String.toList_append, String.toList_append, List.append_assoc]
  rfl

theorem getAssetKey_ne_one {a b c : String} (hc : Plain c) :
    getAssetKey [a, b] ≠ getAssetKey [c] := by
  intro h
  have hchars := congrArg String.toList h
  rw [getAssetKey_one, getAssetKey_two] at hchars
  refine hc ?_
  rw [← (List.cons.inj (List.append_cancel_left hchars)).2]
  exact List.mem_append_right _ (List.mem_cons_self ..)

theorem getAssetKey_inj {a b a' b' : String} (ha : Plain a) (ha' : Plain a')
    (h : getAssetKey [a, b] = getAssetKey [a', b']) : a = a' ∧ b = b' := by
  have hchars := congrArg String.toList h
  rw [getAssetKey_two, getAssetKey_two] at hchars
  obtain ⟨hl, hr⟩ := append_sep_inj ha ha' (List.cons.inj (List.append_cancel_left hchars)).2
  exact ⟨String.toList_inj.mp hl, String.toList_inj.mp hr⟩

theorem writeKey_toList (call : Call) : ∃ rest, call.writeKey.toList = "asset".toList ++ rest := by
  cases call with
  | getRawCollectionsByAccount account slug => exact ⟨_, getAssetKey_one account⟩
  | getRawAssetsByAccount account collection => exact ⟨_, getAssetKey_two account collection⟩
  | getRawAsset contract id => exact ⟨_, getAssetKey_two contract id⟩

/-- No call writes where collections are looked for. -/
theorem writeKey_ne_collectionKey (call : Call) (account : String) :
    call.writeKey ≠ getCollectionKey [account] := by
  intro h
  obtain ⟨rest, hrest⟩ := writeKey_toList call
  rw [h, getCollectionKey_one] at hrest
  simpa using congrArg List.head? hrest

/-- What a call reads has been written by the same call. -/
theorem Clean.eq_of_key {calls : Call → Prop} (H : Clean calls) {call call' : Call}
    (hc : calls call) (hc' : calls call') (h : call'.writeKey = call.readKey) : call' = call := by
  have hp := H.plain hc
  have hp' := H.plain hc'
  cases call with
  | getRawCollectionsByAccount account slug =>
    exact absurd h (writeKey_ne_collectionKey call' account)
  | getRawAssetsByAccount account collection =>
    cases call' with
    | getRawCollectionsByAccount account' slug => exact absurd h.symm (getAssetKey_ne_one hp')
    | getRawAssetsByAccount account' collection' =>
      obtain ⟨rfl, rfl⟩ := getAssetKey_inj hp' hp h
      rfl
    | getRawAsset contract id =>
      obtain ⟨rfl, rfl⟩ := getAssetKey_inj hp' hp h
      exact absurd ⟨_, _, rfl, rfl⟩ (H.noClash hc hc')
  | getRawAsset contract id =>
    cases call' with
    | getRawCollectionsByAccount account' slug => exact absurd h.symm (getAssetKey_ne_one hp')
    | getRawAssetsByAccount account' collection' =>
      obtain ⟨rfl, rfl⟩ := getAssetKey_inj hp' hp h
      exact absurd ⟨_, _, rfl, rfl⟩ (H.noClash hc' hc)
    | getRawAsset contract' id' =>
      obtain ⟨rfl, rfl⟩ := getAssetKey_inj hp' hp h
      rfl

/-! ## The pages -/

section
variable {β : Type} {list : List β} {offset limit : Nat}

theorem take_append_page :
    list.take offset ++ page offset limit list = list.take (offset + limit) :=
  List.take_add.symm

/-- A page that is not full is the last one. -/
theorem take_of_page (h : (page offset limit list).length < limit) :
    list.take (offset + limit) = list := by
  rw [page, List.length_take, List.length_drop] at h
  exact List.take_of_length_le (by omega)

theorem le_of_page (h : ¬ (page offset limit list).length < limit) :
    limit ≤ list.length - offset := by
  rw [page, List.length_take, List.length_drop] at h
  omega

end

def Waiting.call : Waiting γ α → Call
  | fetchRawCollections account slug _ _ => .getRawCollectionsByAccount account slug
  | fetchRawAssets account collection _ _ => .getRawAssetsByAccount account collection
  | fetchRawAsset contract id => .getRawAsset contract id
  | fetched call _ => call

section
variable {o : OpenSea γ α}

/-- What a call has collected is what OpenSea lists up to the offset. -/
def Good (o : OpenSea γ α) : Waiting γ α → Prop
  | .fetchRawCollections account slug offset rawCollections =>
    rawCollections = ((o.collections account).take offset).filter (o.hasSlug slug)
  | .fetchRawAssets account collection offset rawAssets =>
    rawAssets = (o.assets account collection).take offset
  | .fetchRawAsset _ _ => True
  | .fetched call entry => entry = o.listing call

theorem good_begin (call : Call) :
    Good o (begin call) ∧ (begin call : Waiting γ α).call = call := by
  cases call with
  | getRawCollectionsByAccount account slug => exact ⟨rfl, rfl⟩
  | getRawAssetsByAccount account collection => exact ⟨rfl, rfl⟩
  | getRawAsset contract id => exact ⟨trivial, rfl⟩

/-- With what a call has collected, and the next page. -/
theorem next_collections (account slug : String) (offset : Nat) :
    next o (.fetchRawCollections account slug offset
      (((o.collections account).take offset).filter (o.hasSlug slug))) =
    if (page offset openSeaApiCollectionsLimit (o.collections account)).length <
        openSeaApiCollectionsLimit then
      .fetched (.getRawCollectionsByAccount account slug)
        (o.listing (.getRawCollectionsByAccount account slug))
    else .fetchRawCollections account slug (offset + openSeaApiCollectionsLimit)
      (((o.collections account).take (offset + openSeaApiCollectionsLimit)).filter
        (o.hasSlug slug)) := by
  rw [next, ← List.filter_append, take_append_page]
  by_cases hlast : (page offset openSeaApiCollectionsLimit (o.collections account)).length <
      openSeaApiCollectionsLimit
  · rw [if_pos hlast, if_pos hlast, take_of_page hlast]
    rfl
  · rw [if_neg hlast, if_neg hlast]

theorem next_assets (account collection : String) (offset : Nat) :
    next o (.fetchRawAssets account collection offset
      ((o.assets account collection).take offset)) =
    if (page offset openSeaApiLimit (o.assets account collection)).length < openSeaApiLimit then
      .fetched (.getRawAssetsByAccount account collection)
        (o.listing (.getRawAssetsByAccount account collection))
    else .fetchRawAssets account collection (offset + openSeaApiLimit)
      ((o.assets account collection).take (offset + openSeaApiLimit)) := by
  rw [next, take_append_page]
  by_cases hlast : (page offset openSeaApiLimit (o.assets account collection)).length <
      openSeaApiLimit
  · rw [if_pos hlast, if_pos hlast, take_of_page hlast]
    rfl
  · rw [if_neg hlast, if_neg hlast]

theorem Good.next {w : Waiting γ α} (H : Good o w) :
    Good o (next o w) ∧ (next o w).call = w.call := by
  cases w with
  | fetchRawCollections account slug offset rawCollections =>
    obtain rfl : rawCollections = _ := H
    rw [next_collections]
    split
    · exact ⟨rfl, rfl⟩
    · exact ⟨rfl, rfl⟩
  | fetchRawAssets account collection offset rawAssets =>
    obtain rfl : rawAssets = _ := H
    rw [next_assets]
    split
    · exact ⟨rfl, rfl⟩
    · exact ⟨rfl, rfl⟩
  | fetchRawAsset contract id => exact ⟨rfl, rfl⟩
  | fetched call entry => exact ⟨H, rfl⟩

end

/-! ## The loops end -/

section
variable (o : OpenSea γ α)

theorem collections_ends (account slug : String) (offset : Nat) :
    ∃ k, (next o)^[k] (.fetchRawCollections account slug offset
        (((o.collections account).take offset).filter (o.hasSlug slug))) =
      .fetched (.getRawCollectionsByAccount account slug)
        (o.listing (.getRawCollectionsByAccount account slug)) := by
  induction hn : (o.collections account).length - offset using Nat.strongRecOn
    generalizing offset with
  | _ n ih =>
    by_cases hlast : (page offset openSeaApiCollectionsLimit (o.collections account)).length <
        openSeaApiCollectionsLimit
    · refine ⟨1, ?_⟩
      rw [Function.iterate_one, next_collections, if_pos hlast]
    · have hle := le_of_page hlast
      have hpos : 0 < openSeaApiCollectionsLimit := by decide
      obtain ⟨k, hk⟩ := ih _ (by omega) (offset + openSeaApiCollectionsLimit) rfl
      refine ⟨k + 1, ?_⟩
      rw [Function.iterate_succ_apply, next_collections, if_neg hlast]
      exact hk

theorem assets_ends (account collection : String) (offset : Nat) :
    ∃ k, (next o)^[k] (.fetchRawAssets account collection offset
        ((o.assets account collection).take offset)) =
      .fetched (.getRawAssetsByAccount account collection)
        (o.listing (.getRawAssetsByAccount account collection)) := by
  induction hn : (o.assets account collection).length - offset using Nat.strongRecOn
    generalizing offset with
  | _ n ih =>
    by_cases hlast : (page offset openSeaApiLimit (o.assets account collection)).length <
        openSeaApiLimit
    · refine ⟨1, ?_⟩
      rw [Function.iterate_one, next_assets, if_pos hlast]
    · have hle := le_of_page hlast
      have hpos : 0 < openSeaApiLimit := by decide
      obtain ⟨k, hk⟩ := ih _ (by omega) (offset + openSeaApiLimit) rfl
      refine ⟨k + 1, ?_⟩
      rw [Function.iterate_succ_apply, next_assets, if_neg hlast]
      exact hk

/-- After finitely many answers of OpenSea a call has all it needs. -/
theorem begin_ends (call : Call) :
    ∃ k, (next o)^[k] (begin call) = .fetched call (o.listing call) := by
  cases call with
  | getRawCollectionsByAccount account slug => exact collections_ends o account slug 0
  | getRawAssetsByAccount account collection => exact assets_ends o account collection 0
  | getRawAsset contract id => exact ⟨1, rfl⟩

end

/-! ## Runs -/

/-- Whatever is kept or collected is what OpenSea lists for a call of the run. -/
structure Inv (o : OpenSea γ α) (calls : Call → Prop) (s : State γ α) : Prop where
  waiting : ∀ w ∈ s.waiting, calls w.call ∧ Good o w
  cached : s.cache key = some entry →
    ∃ call, calls call ∧ key = call.writeKey ∧ entry = o.listing call
  answers : ∀ answer ∈ s.answers, answer.2 = o.listing answer.1

section
variable {o : OpenSea γ α} {calls : Call → Prop} {s s' : State γ α}

theorem Inv.init : Inv o calls init where
  waiting _ h := nomatch h
  cached h := nomatch h
  answers _ h := nomatch h

theorem Inv.call (H : Inv o calls s) (hclean : Clean calls) {call : Call} (hc : calls call)
    (h : step o s (.call call) = some s') : Inv o calls s' := by
  cases hread : s.cache call.readKey with
  | none =>
    rw [step, hread] at h
    cases h
    refine ⟨fun w hw => ?_, H.cached, H.answers⟩
    obtain hw | hw := List.mem_append.mp hw
    · exact H.waiting w hw
    · obtain rfl := List.mem_singleton.mp hw
      obtain ⟨hgood, hcall⟩ := good_begin (o := o) call
      exact ⟨(congrArg calls hcall).mpr hc, hgood⟩
  | some entry =>
    rw [step, hread] at h
    cases h
    refine ⟨H.waiting, H.cached, fun answer hanswer => ?_⟩
    obtain hanswer | hanswer := List.mem_append.mp hanswer
    · exact H.answers answer hanswer
    · obtain rfl := List.mem_singleton.mp hanswer
      obtain ⟨call', hc', hkey, rfl⟩ := H.cached hread
      rw [hclean.eq_of_key hc hc' hkey.symm]

/-- A call goes on. -/
theorem Inv.next (H : Inv o calls s) {i : Nat} {w : Waiting γ α} (hw : s.waiting[i]? = some w) :
    Inv o calls { s with waiting := s.waiting.set i (next o w) } := by
  obtain ⟨hc, hgood⟩ := H.waiting w (List.mem_of_getElem? hw)
  obtain ⟨hgood', hcall⟩ := hgood.next
  refine ⟨fun w' hw' => ?_, H.cached, H.answers⟩
  obtain hw' | rfl := List.mem_or_eq_of_mem_set hw'
  · exact H.waiting w' hw'
  · exact ⟨(congrArg calls hcall).mpr hc, hgood'⟩

theorem Inv.respond (H : Inv o calls s) {i : Nat} (h : step o s (.respond i) = some s') :
    Inv o calls s' := by
  obtain ⟨w, hw, rfl⟩ := Option.map_eq_some_iff.mp h
  cases w with
  | fetchRawCollections account slug offset rawCollections => exact H.next hw
  | fetchRawAssets account collection offset rawAssets => exact H.next hw
  | fetchRawAsset contract id => exact H.next hw
  | fetched call entry =>
    obtain ⟨hc, hlisting⟩ := H.waiting _ (List.mem_of_getElem? hw)
    obtain rfl : entry = o.listing call := hlisting
    refine ⟨fun w' hw' => H.waiting w' (List.mem_of_mem_eraseIdx hw'), fun hread => ?_,
      fun answer hanswer => ?_⟩
    · obtain ⟨rfl, rfl⟩ | ⟨-, hread⟩ := Store.of_set hread
      · exact ⟨call, hc, rfl, rfl⟩
      · exact H.cached hread
    · obtain hanswer | hanswer := List.mem_append.mp hanswer
      · exact H.answers answer hanswer
      · rw [List.mem_singleton.mp hanswer]

theorem Inv.of_step (H : Inv o calls s) (hclean : Clean calls) {a : Action}
    (ha : ∀ call, a = .call call → calls call) (h : step o s a = some s') : Inv o calls s' := by
  cases a with
  | call call => exact H.call hclean (ha call rfl) h
  | respond i => exact H.respond h
  | fail i =>
    obtain ⟨-, h⟩ := Option.ite_none_right_eq_some.mp h
    cases h
    exact ⟨fun w hw => H.waiting w (List.mem_of_mem_eraseIdx hw), H.cached, H.answers⟩
  | expire key =>
    cases h
    exact ⟨H.waiting, fun hread => H.cached (Store.of_erase hread), H.answers⟩

theorem Inv.of_run (H : Inv o calls s) (hclean : Clean calls) {actions : List Action}
    (hcalls : ∀ call, .call call ∈ actions → calls call) (h : run (step o) s actions = some s') :
    Inv o calls s' := by
  have hruns : RunsUnder (step o) (fun _ a => ∀ call, a = .call call → calls call) s actions s' :=
    .of_forall (fun a ha call hcall => hcalls call (hcall ▸ ha)) h
  exact hruns.invariant (fun H hcall hstep => H.of_step hclean hcall hstep) H

/-- Each call is answered with all that OpenSea lists, for which finitely many of its answers are
enough; collections are looked for in vain. -/
theorem answers_listing {actions : List Action} (hclean : Clean fun call => .call call ∈ actions)
    (h : run (step o) OpenSeaCache.init actions = some s) :
    (∀ answer ∈ s.answers, answer.2 = o.listing answer.1) ∧
      (∀ call, ∃ k, (next o)^[k] (begin call) = .fetched call (o.listing call)) ∧
      ∀ account, s.cache (getCollectionKey [account]) = none := by
  have hinv := Inv.init.of_run hclean (fun _ hcall => hcall) h
  refine ⟨hinv.answers, begin_ends o, fun account => ?_⟩
  by_contra hne
  obtain ⟨entry, hentry⟩ := Option.ne_none_iff_exists'.mp hne
  obtain ⟨call, -, hkey, -⟩ := hinv.cached hentry
  exact writeKey_ne_collectionKey call account hkey.symm

end

/-- An account with an asset more than fit on a page. -/
def punks : OpenSea String Nat where
  collections _ := ["punks"]
  slug collection := collection
  assets _ _ := List.range 51
  asset _ _ := 7

def punksActions : List Action :=
  [.call (.getRawAssetsByAccount "0xa" "punks"), .respond 0, .call (.getRawAsset "0xc" "7"),
    .respond 1, .respond 0, .respond 0, .respond 0, .call (.getRawAssetsByAccount "0xa" "punks")]

theorem punksActions_clean : Clean fun call => .call call ∈ punksActions where
  plain h := by
    simp only [punksActions, List.mem_cons, Action.call.injEq, reduceCtorEq, List.not_mem_nil,
      or_false, false_or] at h
    obtain rfl | rfl | rfl := h
    · decide +kernel
    · decide +kernel
    · decide +kernel
  noClash h h' := by
    rintro ⟨address, name, rfl, rfl⟩
    obtain ⟨rfl, -⟩ : address = "0xa" ∧ name = "punks" := by simpa [punksActions] using h
    simp [punksActions] at h'

theorem answers_listing_punks : ∃ s, run (step punks) OpenSeaCache.init punksActions = some s ∧
    s.answers.map Prod.fst = [.getRawAssetsByAccount "0xa" "punks", .getRawAsset "0xc" "7",
      .getRawAssetsByAccount "0xa" "punks"] ∧
    ∀ answer ∈ s.answers, answer.2 = punks.listing answer.1 := by
  have hsome : (run (step punks) OpenSeaCache.init punksActions).isSome := by decide +kernel
  obtain ⟨s, hrun⟩ := Option.isSome_iff_exists.mp hsome
  have hcalls : (run (step punks) OpenSeaCache.init punksActions).map
      (fun s => s.answers.map Prod.fst) = some [.getRawAssetsByAccount "0xa" "punks",
        .getRawAsset "0xc" "7", .getRawAssetsByAccount "0xa" "punks"] := by decide +kernel
  rw [hrun] at hcalls
  exact ⟨s, hrun, Option.some.inj hcalls, (answers_listing punksActions_clean hrun).1⟩

end OpenSeaCache
end Account
end DefiBackend
