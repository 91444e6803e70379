import DefiBackend.Account.HistoricalBalances

/-! # Balances add up

The response of `getBalance`, for calls about now and about the past: a call that is about now finds
no block.

* `getBalance_get`: the entry of an address is made of its balances on the chains, as often as it
  stands among the unified addresses.
* `balances_addUp_iff`: there is one entry for each unified address, with its balances once and
  their sum, exactly when no address is excluded, each is spelled in one way, and the tokens that
  are not listed are worth nothing. -/

namespace DefiBackend
namespace Account
namespace HistoricalBalances
open Theory JsNumber

/-! ## Copies -/

/-- Copies of the parts are copies of the whole, in another order. -/
theorem flatMap_copies_perm (l : List α) (f : α → List β) (k : Nat) :
    (l.flatMap fun a => (List.replicate k (f a)).flatten).Perm
      (List.replicate k (l.flatMap f)).flatten := by
  induction k with
  | zero => simp
  | succ k ih =>
    simp only [List.replicate_succ, List.flatten_cons]
    exact (List.flatMap_append_perm l f _).symm.trans (ih.append_left _)

/-- Copies of a list are one copy if there is one, or nothing to copy. -/
theorem copies_perm_iff {k : Nat} (hk : 0 < k) {l : List α} :
    (List.replicate k l).flatten.Perm l ↔ k = 1 ∨ l = [] := by
  constructor
  · intro h
    have hlength := h.length_eq
    rw [List.length_flatten, List.map_replicate, List.sum_replicate_nat] at hlength
    rcases Nat.eq_zero_or_pos l.length with h0 | hpos
    · exact .inr (List.length_eq_zero_iff.mp h0)
    · exact .inl (Nat.eq_of_mul_eq_mul_right hpos (hlength.trans (Nat.one_mul _).symm))
  · rintro (rfl | rfl)
    · rw [List.replicate_one, List.flatten_singleton]
    · rw [List.flatten_replicate_nil]

/-! ## The entry of an address -/

/-- `totalPriceUSD || 0`. -/
def TokenBalance.value (b : TokenBalance) : JsNumber := (b.totalPriceUSD.getD .nan).orZero

/-- What `mergeBalances` makes of an entry and a result. -/
def mergeEntry (entry : Option AccountBalance) (result : PartialBalances) : AccountBalance :=
  let accountBalance := entry.getD ⟨result.address, [], 0, []⟩
  { accountBalance with
    tokens := accountBalance.tokens ++ result.balances.filter (·.token ∉ BLACKLISTED_TOKENS)
    errors := accountBalance.errors ++ result.errors
    totalUsd := accountBalance.totalUsd + total (result.balances.map TokenBalance.value) }

theorem mergePartial_eq (response : JsMap Address AccountBalance) (result : PartialBalances) :
    mergePartial response result =
      response.set result.address (mergeEntry (response.get result.address) result) := by
  rw [mergePartial, mergeEntry, total, List.foldl_map]
  rfl

/-- An entry sums up all balances, and lists those whose token is not blacklisted. -/
theorem foldl_mergeEntry (results : List PartialBalances) (entry : AccountBalance) :
    ∃ entry', results.foldl (fun s r => some (mergeEntry s r)) (some entry) = some entry' ∧
      entry'.tokens = entry.tokens ++
        (results.flatMap (·.balances)).filter (·.token ∉ BLACKLISTED_TOKENS) ∧
      entry'.totalUsd =
        entry.totalUsd + total ((results.flatMap (·.balances)).map TokenBalance.value) := by
  induction results generalizing entry with
  | nil =>
    refine ⟨entry, rfl, (List.append_nil _).symm, ?_⟩
    exact (JsNumber.add_zero _).symm
  | cons result results ih =>
    obtain ⟨entry', hentry', htokens, htotal⟩ := ih (mergeEntry (some entry) result)
    refine ⟨entry', hentry', ?_, ?_⟩
    · rw [htokens, List.flatMap_cons, List.filter_append, ← List.append_assoc]
      rfl
    · rw [htotal, List.flatMap_cons, List.map_append, total_append, ← JsNumber.add_assoc]
      rfl

theorem mergeEntry_none (result : PartialBalances) :
    mergeEntry none result = mergeEntry (some ⟨result.address, [], 0, []⟩) result := rfl

/-- The entry of an address in a merged response. -/
theorem foldl_mergePartial_get (results : List PartialBalances) (a : Address)
    (h : ∃ result ∈ results, result.address = a) :
    ∃ entry, (results.foldl mergePartial []).get a = some entry ∧
      entry.tokens = ((results.filter (·.address = a)).flatMap (·.balances)).filter
        (·.token ∉ BLACKLISTED_TOKENS) ∧
      entry.totalUsd =
        total (((results.filter (·.address = a)).flatMap (·.balances)).map TokenBalance.value) := by
  have hget : (results.foldl mergePartial []).get a =
      (results.filter (·.address = a)).foldl (fun s r => some (mergeEntry s r)) none := by
    have hstep : mergePartial = fun response result =>
        response.set result.address (mergeEntry (response.get result.address) result) :=
      funext₂ mergePartial_eq
    rw [hstep, JsMap.foldl_update_get]
    rfl
  rw [hget]
  obtain ⟨result, hmem, haddress⟩ := h
  have hfilter : result ∈ results.filter (·.address = a) :=
    List.mem_filter.mpr ⟨hmem, decide_eq_true haddress⟩
  cases hlist : results.filter (·.address = a) with
  | nil =>
    rw [hlist] at hfilter
    cases hfilter
  | cons first rest =>
    obtain ⟨entry, hentry, htokens, htotal⟩ :=
      foldl_mergeEntry (first :: rest) ⟨first.address, [], 0, []⟩
    refine ⟨entry, ?_, htokens, ?_⟩
    · rw [← hentry, List.foldl_cons, List.foldl_cons, mergeEntry_none]
    · rw [htotal]
      exact JsNumber.zero_add _

theorem foldl_mergePartial_keys (results : List PartialBalances) :
    (results.foldl mergePartial []).keys = unique (results.map (·.address)) := by
  have hstep : mergePartial = fun response result =>
      response.set result.address (mergeEntry (response.get result.address) result) :=
    funext₂ mergePartial_eq
  rw [hstep, JsMap.foldl_update_keys]
  rfl

/-- The entries of the cache are about the addresses of their keys. -/
theorem Reachable.address {cache : Cache} (h : Reachable cache) :
    ∀ key entry, cache key = some entry → entry.address = key.address := by
  have hload : ∀ node request, (loadBalances node request).address = request.address := by
    intro node request
    unfold loadBalances
    cases strategyBalances node request <;> rfl
  induction h with
  | empty => exact fun _ _ h => by cases h
  | @load cache node request _ ih =>
    intro key entry h
    unfold getBalancesForChainForAddress at h
    cases hget : cache request.cacheKey with
    | some cacheValue =>
      rw [hget] at h
      exact ih key entry h
    | none =>
      rw [hget] at h
      change (if (loadBalances node request).errors.isEmpty then _ else cache) key = _ at h
      split at h
      · rcases Store.of_set h with ⟨rfl, rfl⟩ | h
        · exact hload node request
        · exact ih key entry h.2
      · exact ih key entry h
  | expire key _ ih => exact fun key' entry h => ih key' entry (Store.of_erase h)

namespace Call
variable (call : Call)

/-- The results of a chain are made of the addresses, one by one. -/
theorem getBalancesPerChain_eq_map {chainId : ChainId} {results : List PartialBalances}
    (h : call.getBalancesPerChain chainId = .ok results) :
    ∃ g : Address → PartialBalances, (∀ a, (g a).address = a) ∧
      results = call.addressesToHandle.map g := by
  unfold getBalancesPerChain at h
  obtain ⟨assets, -, h⟩ := bind_eq_ok.mp h
  have hraw : ∃ g : Address → PartialBalances, (∀ a, (g a).address = a) ∧
      call.withAssets chainId assets = call.addressesToHandle.map g := by
    refine ⟨_, fun a => ?_, List.map_map⟩
    change PartialBalances.address (Prod.fst (getBalancesForChainForAddress _ _ _)) = a
    unfold getBalancesForChainForAddress
    split
    · next cacheValue hget => exact (call.reachable chainId a).address _ _ hget
    · change (loadBalances _ _).address = a
      unfold loadBalances
      split <;> rfl
  obtain ⟨g, hg, hresults⟩ := hraw
  cases hblock : call.getBlockAtDate chainId with
  | none =>
    rw [hblock] at h
    cases h
    exact ⟨g, hg, hresults⟩
  | some block =>
    rw [hblock] at h
    obtain ⟨pricesMap, -, h⟩ := bind_eq_ok.mp h
    cases h
    refine ⟨fun a => (g a).map (.applyPrice pricesMap block.timestamp), fun a => hg a, ?_⟩
    rw [hresults, List.map_map]
    rfl

/-- The balances of an address on a chain. -/
def balancesOn (chainId : ChainId) (a : Address) : List TokenBalance :=
  match call.getBalancesPerChain chainId with
  | .ok results => ((results.find? (·.address = a)).map (·.balances)).getD []
  | .error _ => []

/-- The balances of an address on all chains, each chain once. -/
def balancesOf (a : Address) : List TokenBalance :=
  call.chainsToHandle.flatMap fun chainId => call.balancesOn chainId a

/-- The balances of an address whose tokens may be listed. -/
def listable (a : Address) : List TokenBalance :=
  (call.balancesOf a).filter (·.token ∉ BLACKLISTED_TOKENS)

/-- The balances of an address whose tokens are never listed. -/
def hidden (a : Address) : List TokenBalance :=
  (call.balancesOf a).filter (·.token ∈ BLACKLISTED_TOKENS)

/-- The addresses of a call as they are looked up. -/
def unified : List Address := call.addresses.map call.checks.unifyAddress

/-- The response has one entry for each unified address, with each of its balances on each chain
once, as far as their tokens may be listed, and with the sum of what is listed. -/
def AddsUp : Prop :=
  ∃ response, call.getBalance = .ok response ∧ response.keys.Nodup ∧
    (∀ a, a ∈ response.keys ↔ a ∈ call.unified) ∧
    ∀ a entry, response.get a = some entry → entry.tokens.Perm (call.listable a) ∧
      entry.totalUsd = total (entry.tokens.map TokenBalance.value)

/-- All addresses that an address stands for in a call are equal. -/
def SpelledOnce (a : Address) : Prop :=
  ∀ x ∈ call.addresses, ∀ y ∈ call.addresses,
    call.checks.unifyAddress x = a → call.checks.unifyAddress y = a → x = y

variable {call}

theorem mem_addressesToHandle {a : Address} :
    a ∈ call.addressesToHandle ↔ a ∈ call.unified ∧ call.isBlacklisted a = false := by
  simp [addressesToHandle, unified]

/-- An address is handled as often as it is spelled. -/
theorem count_eq_one_iff {a : Address} (ha : a ∈ call.addressesToHandle) :
    call.addressesToHandle.count a = 1 ↔ call.SpelledOnce a := by
  have hcount : call.addressesToHandle.count a =
      ((unique call.addresses).filter (call.checks.unifyAddress · = a)).length := by
    rw [addressesToHandle, List.count_filter (by simp [(mem_addressesToHandle.mp ha).2]),
      List.count, List.countP_map, List.countP_eq_length_filter]
    rfl
  have hnodup : ((unique call.addresses).filter (call.checks.unifyAddress · = a)).Nodup :=
    (nodup_unique _).filter _
  have hmem : ∀ x, x ∈ (unique call.addresses).filter (call.checks.unifyAddress · = a) ↔
      x ∈ call.addresses ∧ call.checks.unifyAddress x = a := by
    intro x
    rw [List.mem_filter, mem_unique, decide_eq_true_iff]
  rw [hcount, List.length_eq_one_iff]
  constructor
  · rintro ⟨z, hz⟩ x hx y hy hxa hya
    have hx' := (hmem x).mpr ⟨hx, hxa⟩
    have hy' := (hmem y).mpr ⟨hy, hya⟩
    rw [hz, List.mem_singleton] at hx' hy'
    rw [hx', hy']
  · intro h
    obtain ⟨x, hx, hxa⟩ := List.mem_map.mp (mem_addressesToHandle.mp ha).1
    refine ⟨x, List.perm_singleton.mp ?_⟩
    rw [List.perm_ext_iff_of_nodup hnodup (List.nodup_singleton x)]
    intro y
    rw [hmem, List.mem_singleton]
    exact ⟨fun hy => h y hy.1 x hx hy.2 hxa, fun hy => hy ▸ ⟨hx, hxa⟩⟩

/-- The results of a chain about an address are as many as it is handled times, and all alike. -/
theorem filter_results {chainId : ChainId} {results : List PartialBalances}
    (h : call.getBalancesPerChain chainId = .ok results) {a : Address}
    (ha : a ∈ call.addressesToHandle) :
    (results.filter (·.address = a)).flatMap (·.balances) =
      (List.replicate (call.addressesToHandle.count a) (call.balancesOn chainId a)).flatten := by
  obtain ⟨g, hg, rfl⟩ := call.getBalancesPerChain_eq_map h
  have hon : call.balancesOn chainId a = (g a).balances := by
    rw [balancesOn, h]
    have hfind : ∃ r, (call.addressesToHandle.map g).find? (·.address = a) = some r := by
      rw [← Option.isSome_iff_exists, List.find?_isSome]
      exact ⟨g a, List.mem_map_of_mem ha, decide_eq_true (hg a)⟩
    obtain ⟨r, hr⟩ := hfind
    obtain ⟨b, -, rfl⟩ := List.mem_map.mp (List.mem_of_find?_eq_some hr)
    have hb := List.find?_some hr
    rw [decide_eq_true_iff, hg] at hb
    simp only [hr, hb]
    rfl
  have hfilter : (call.addressesToHandle.map g).filter (·.address = a) =
      List.replicate (call.addressesToHandle.count a) (g a) := by
    rw [List.filter_map]
    have hsame : ((fun r : PartialBalances => decide (r.address = a)) ∘ g) = (· = a) := by
      funext b
      rw [Function.comp_apply, hg]
    rw [hsame, List.filter_eq, List.map_replicate]
  rw [hfilter, hon, List.flatMap_def, List.map_replicate]

/-- The response to a call that is answered: the entry of an address is made of its balances, as
often as it is handled. -/
theorem getBalance_get (haddresses : call.addressesToHandle ≠ []) (hchains : call.chainsToHandle ≠ [])
    {response : JsMap Address AccountBalance} (h : call.getBalance = .ok response) :
    (response.keys.Nodup ∧ ∀ a, a ∈ response.keys ↔ a ∈ call.addressesToHandle) ∧
      ∀ a ∈ call.addressesToHandle, ∃ entry, response.get a = some entry ∧
        entry.tokens.Perm
          (List.replicate (call.addressesToHandle.count a) (call.listable a)).flatten ∧
        entry.totalUsd = total (List.replicate (call.addressesToHandle.count a)
          ((call.balancesOf a).map TokenBalance.value)).flatten := by
  rw [getBalance, if_neg (not_or.mpr ⟨haddresses, hchains⟩)] at h
  obtain ⟨perChain, hperChain, h⟩ := bind_eq_ok.mp h
  cases h
  have hmem : ∀ results, results ∈ perChain ↔
      ∃ chainId ∈ call.chainsToHandle, call.getBalancesPerChain chainId = .ok results :=
    fun results => mem_of_mapM_ok hperChain
  have haddress : ∀ a, a ∈ perChain.flatten.map (·.address) ↔ a ∈ call.addressesToHandle := by
    intro a
    constructor
    · intro ha
      obtain ⟨result, hresult, rfl⟩ := List.mem_map.mp ha
      obtain ⟨results, hresults, hresult⟩ := List.mem_flatten.mp hresult
      obtain ⟨chainId, -, hresults⟩ := (hmem results).mp hresults
      obtain ⟨g, hg, rfl⟩ := call.getBalancesPerChain_eq_map hresults
      obtain ⟨b, hb, rfl⟩ := List.mem_map.mp hresult
      rwa [hg]
    · intro ha
      obtain ⟨chainId, hchain⟩ := List.exists_mem_of_ne_nil _ hchains
      obtain ⟨results, hresults⟩ := succeeds_mapM.mp ⟨_, hperChain⟩ chainId hchain
      have hflat := (hmem results).mpr ⟨chainId, hchain, hresults⟩
      obtain ⟨g, hg, rfl⟩ := call.getBalancesPerChain_eq_map hresults
      refine List.mem_map.mpr ⟨g a, ?_, hg a⟩
      exact List.mem_flatten_of_mem hflat (List.mem_map_of_mem ha)
  refine ⟨⟨?_, fun a => ?_⟩, fun a ha => ?_⟩
  · rw [foldl_mergePartial_keys]
    exact nodup_unique _
  · rw [foldl_mergePartial_keys, mem_unique, haddress]
  · have hbalances : (perChain.flatten.filter (·.address = a)).flatMap (·.balances) =
        call.chainsToHandle.flatMap fun chainId =>
          (List.replicate (call.addressesToHandle.count a) (call.balancesOn chainId a)).flatten := by
      rw [List.filter_flatten, List.flatMap_def, List.map_flatten, List.map_map,
        List.flatMap_def, ← map_of_mapM hperChain fun chainId _ results hresults =>
          filter_results hresults ha, List.flatten_flatten, List.map_map]
      rfl
    obtain ⟨entry, hentry, htokens, htotal⟩ :=
      foldl_mergePartial_get perChain.flatten a (List.mem_map.mp ((haddress a).mpr ha))
    have hperm := flatMap_copies_perm call.chainsToHandle
      (fun chainId => call.balancesOn chainId a) (call.addressesToHandle.count a)
    refine ⟨entry, hentry, ?_, ?_⟩
    · rw [htokens, hbalances, listable, ← List.map_replicate, ← List.filter_flatten]
      exact hperm.filter _
    · rw [htotal, hbalances, ← List.map_replicate, ← List.map_flatten]
      exact total_perm (hperm.map _)

/-- What an entry sums up is the sum of what it lists, and that is each balance once, exactly when
its address is spelled in one way, or nothing is listed, and the hidden balances add nothing. -/
theorem entry_addsUp_iff {a : Address} (ha : a ∈ call.addressesToHandle) {entry : AccountBalance}
    (htokens : entry.tokens.Perm
      (List.replicate (call.addressesToHandle.count a) (call.listable a)).flatten)
    (htotal : entry.totalUsd = total (List.replicate (call.addressesToHandle.count a)
      ((call.balancesOf a).map TokenBalance.value)).flatten) :
    entry.tokens.Perm (call.listable a) ∧
        entry.totalUsd = total (entry.tokens.map TokenBalance.value) ↔
      (call.SpelledOnce a ∨ call.listable a = []) ∧
        total ((call.listable a).map TokenBalance.value) +
          total ((call.hidden a).map TokenBalance.value) =
            total ((call.listable a).map TokenBalance.value) := by
  have hcount := List.count_pos_iff.mpr ha
  have hparts : total ((call.balancesOf a).map TokenBalance.value) =
      total ((call.listable a).map TokenBalance.value) +
        total ((call.hidden a).map TokenBalance.value) := by
    have hhidden : call.hidden a =
        (call.balancesOf a).filter fun b => !decide (b.token ∉ BLACKLISTED_TOKENS) := by
      simp only [hidden, decide_not, Bool.not_not]
    rw [← total_append, ← List.map_append, hhidden]
    exact total_perm ((List.filter_append_perm _ _).symm.map _)
  have hlisted : entry.tokens.Perm (call.listable a) ↔ call.SpelledOnce a ∨ call.listable a = [] := by
    rw [← count_eq_one_iff ha, ← copies_perm_iff hcount]
    exact ⟨fun h => htokens.symm.trans h, fun h => htokens.trans h⟩
  rw [hlisted]
  refine and_congr_right fun h => ?_
  rw [total_perm ((hlisted.mpr h).map _), htotal]
  rcases h with h | h
  · rw [(count_eq_one_iff ha).mpr h, List.replicate_one, List.flatten_singleton, hparts]
  · rw [h] at hparts ⊢
    change _ = 0 ↔ finite 0 + _ = 0
    rw [total_copies_eq_zero hcount, hparts]
    rfl

end Call

/-- Balances add up exactly for calls that are answered, where no address is excluded, each is
spelled in one way or has nothing that may be listed, and the balances that are never listed add
nothing to the others. -/
theorem balances_addUp_iff (call : Call) :
    call.AddsUp ↔ call.addresses = [] ∨ call.chains ≠ [] ∧
      (∀ chainId ∈ call.chains, call.Answered chainId) ∧
      ∀ a ∈ call.unified, call.isBlacklisted a = false ∧
        (call.SpelledOnce a ∨ call.listable a = []) ∧
        total ((call.listable a).map TokenBalance.value) +
          total ((call.hidden a).map TokenBalance.value) =
            total ((call.listable a).map TokenBalance.value) := by
  by_cases hnone : call.addresses = []
  · refine iff_of_true ⟨[], ?_, List.nodup_nil, ?_, ?_⟩ (.inl hnone)
    · rw [Call.getBalance, if_pos (.inl (by simp [Call.addressesToHandle, hnone]))]
      rfl
    · simp [Call.unified, hnone, JsMap.keys]
    · intro a entry h
      cases h
  rw [or_iff_right hnone]
  obtain ⟨first, hfirst⟩ := List.exists_mem_of_ne_nil _ hnone
  have hunified : call.checks.unifyAddress first ∈ call.unified := List.mem_map_of_mem hfirst
  have hchainsToHandle : call.chainsToHandle = [] ↔ call.chains = [] := unique_eq_nil
  constructor
  · rintro ⟨response, hresponse, -, hkeys, hentries⟩
    have hne : call.addressesToHandle ≠ [] ∧ call.chainsToHandle ≠ [] := by
      rw [← not_or]
      intro hempty
      rw [Call.getBalance, if_pos hempty] at hresponse
      cases hresponse
      cases (hkeys _).mpr hunified
    obtain ⟨⟨-, hhandled⟩, hget⟩ := Call.getBalance_get hne.1 hne.2 hresponse
    refine ⟨mt hchainsToHandle.mpr hne.2, ?_, fun a ha => ?_⟩
    · intro chainId hchain
      exact (call.getBalance_succeeds hne.1).mp ⟨_, hresponse⟩ chainId (mem_unique.mpr hchain)
    · have ha' := (hhandled a).mp ((hkeys a).mpr ha)
      obtain ⟨entry, hentry, htokens, htotal⟩ := hget a ha'
      exact ⟨(Call.mem_addressesToHandle.mp ha').2,
        (Call.entry_addsUp_iff ha' htokens htotal).mp (hentries a entry hentry)⟩
  · rintro ⟨hchains, hanswered, hunifieds⟩
    have hhandle : ∀ a, a ∈ call.addressesToHandle ↔ a ∈ call.unified := by
      intro a
      rw [Call.mem_addressesToHandle]
      exact and_iff_left_of_imp fun ha => (hunifieds a ha).1
    have hne := List.ne_nil_of_mem ((hhandle _).mpr hunified)
    obtain ⟨response, hresponse⟩ := (call.getBalance_succeeds hne).mpr
      fun chainId hchain => hanswered chainId (mem_unique.mp hchain)
    obtain ⟨⟨hnodup, hhandled⟩, hget⟩ :=
      Call.getBalance_get hne (mt hchainsToHandle.mp hchains) hresponse
    refine ⟨response, hresponse, hnodup, fun a => (hhandled a).trans (hhandle a), ?_⟩
    intro a entry hentry
    have ha := (hhandled a).mp (JsMap.mem_keys.mpr ⟨entry, hentry⟩)
    obtain ⟨entry', hentry', htokens, htotal⟩ := hget a ha
    rw [hentry] at hentry'
    cases hentry'
    exact (Call.entry_addsUp_iff ha htokens htotal).mpr (hunifieds a ((hhandle a).mp ha)).2

/-! ## Two spellings of one address -/

def checksumAccount : Address := "0xd8dA6BF26964aF9D7eEd9e03E53415D37aA96045"

/-- A call for one account in two spellings, with the chain and the token of `withoutBlock`. -/
def twoSpellings : Call :=
  { withoutBlock with
    addresses := [checksumAccount, account]
    checks :=
      { isETHAddress := fun a => a = checksumAccount ∨ a = account
        validator := fun _ => none
        lowerCase_isETHAddress := fun h => by
          rcases of_decide_eq_true h with rfl | rfl <;> decide
        no_space := fun h => by
          rcases of_decide_eq_true h with rfl | rfl <;> exact no_space_of_all (by decide) }
    node := { withoutBlock.node with isETHAddress := fun _ => true } }

/-- Its balance is counted twice. -/
theorem twoSpellings_twice : ¬ twoSpellings.AddsUp := by
  rintro ⟨response, hresponse, -, -, hentries⟩
  have hhandled : account ∈ twoSpellings.addressesToHandle := by decide
  obtain ⟨-, hget⟩ := Call.getBalance_get (List.ne_nil_of_mem hhandled) (by decide) hresponse
  obtain ⟨entry, hentry, htokens, htotal⟩ := hget _ hhandled
  obtain ⟨hspelled | hnothing, -⟩ :=
    (Call.entry_addsUp_iff hhandled htokens htotal).mp (hentries _ entry hentry)
  · have hsame : checksumAccount = account :=
      hspelled _ (by decide) _ (by decide) (by decide) (by decide)
    exact absurd hsame (by decide)
  · exact absurd hnothing (by decide)

end HistoricalBalances
end Account
end DefiBackend
