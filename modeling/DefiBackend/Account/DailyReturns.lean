import DefiBackend.Common.Address
import DefiBackend.Common.JsMap
import DefiBackend.Common.JsNumber
import DefiBackend.Theory.Fallible
import Mathlib.Algebra.BigOperators.Group.List.Lemmas

/-! # Returns of a day

`BalancesV2Service.calculate24HourReturns` of `apps/account`: from the balances of an account now
and then the change of each token, of each chain and of the whole account.

* `foldl_addChange`: what the loop over the tokens leaves.
* `returns_addUp_iff`: the change of every account is the sum over its tokens and the sum over its
  chains, exactly when both responses have the same accounts and what an account has lost on chains
  where it has nothing any more was worth nothing.

The numbers of a response are finite; a missing one, or one that is not a number, is none. -/

namespace DefiBackend
namespace Account
namespace DailyReturns
open Theory JsNumber

/-- `ERC20Token`: what is used of it. -/
structure ERC20Token where
  address : Address
  chainId : Option Nat
  deriving DecidableEq

structure TokenBalance where
  token : ERC20Token
  decimalsAmount : Option ℚ
  tokenPriceUSD : Option ℚ
  totalPriceUSD : Option ℚ
  deriving DecidableEq

structure AccountBalance where
  tokens : List TokenBalance
  errors : List String

/-- `BalancesResponse`. -/
abbrev BalancesResponse := JsMap Address AccountBalance

structure TokenChange where
  token : ERC20Token
  balance : JsNumber
  price : JsNumber
  totalUSD : JsNumber
  deriving DecidableEq

structure ChainChange where
  chainId : Option Nat
  totalUSD : JsNumber
  deriving DecidableEq

structure AccountReturns where
  account : Address
  errors : List String
  totalUSD : JsNumber
  chains : List ChainChange
  tokens : List TokenChange

/-- The number that a field holds. -/
def number : Option ℚ → JsNumber
  | some q => finite q
  | none => nan

def getTokenKey (token : TokenBalance) : String :=
  (match token.token.chainId with
    | some chainId => toString chainId
    | none => "undefined") ++ "_" ++ token.token.address

/-- `getTokenChange(thenToken, nowToken)`: nothing without both. -/
def getTokenChange : Option TokenBalance → Option TokenBalance → Option TokenChange
  | some thenToken, none => some
    { token := thenToken.token
      balance := 0 - number thenToken.decimalsAmount
      price := 0
      totalUSD := 0 - number thenToken.totalPriceUSD }
  | none, some nowToken => some
    { token := nowToken.token
      balance := number nowToken.decimalsAmount
      price := 0
      totalUSD := number nowToken.totalPriceUSD }
  | some thenToken, some nowToken => some
    { token := nowToken.token
      balance := number nowToken.decimalsAmount - number thenToken.decimalsAmount
      price := number nowToken.tokenPriceUSD - number thenToken.tokenPriceUSD
      totalUSD := number nowToken.totalPriceUSD - number thenToken.totalPriceUSD }
  | none, none => none

/-- The tokens of an account under their keys. -/
def tokenMap (account : AccountBalance) : JsMap String TokenBalance :=
  .ofEntries (account.tokens.map fun token => (getTokenKey token, token))

/-- The chains of an account's tokens. -/
def chainIds (account : AccountBalance) : List (Option Nat) :=
  unique (account.tokens.map (·.token.chainId))

/-- A change is added to the account, and to its chain if the chain is listed. -/
def pushChange (acc : AccountReturns) (tokenChange : TokenChange) : AccountReturns :=
  { acc with
    tokens := acc.tokens ++ [tokenChange]
    totalUSD := acc.totalUSD + tokenChange.totalUSD
    chains := acc.chains.map fun chain =>
      if chain.chainId ≠ tokenChange.token.chainId then chain
      else { chain with totalUSD := chain.totalUSD + tokenChange.totalUSD } }

/-- The loop body: a token without a change in value is left out. -/
def addChange (nowTokenMap thenTokenMap : JsMap String TokenBalance) (acc : AccountReturns)
    (tokenKey : String) : AccountReturns :=
  match getTokenChange (thenTokenMap.get tokenKey) (nowTokenMap.get tokenKey) with
  | none => acc
  | some tokenChange => if tokenChange.totalUSD.falsy then acc else pushChange acc tokenChange

def accountReturns (tokenKeys : List String) (account : Address)
    (nowAccount thenAccount : AccountBalance) : AccountReturns :=
  tokenKeys.foldl (addChange (tokenMap nowAccount) (tokenMap thenAccount))
    { account
      errors := nowAccount.errors ++ thenAccount.errors
      totalUSD := 0
      chains := (chainIds nowAccount).map fun chainId => ⟨chainId, 0⟩
      tokens := [] }

/-- `response[account].tokens`, which throws without the account. -/
def dereference (response : BalancesResponse) (account : Address) :
    Except String AccountBalance :=
  match response.get account with
  | some balance => pure balance
  | none => throw "TypeError"

/-- The accounts of both responses. -/
def accounts (now past : BalancesResponse) : List Address := unique (now.keys ++ past.keys)

/-- The keys of all tokens in both responses. -/
def tokenKeys (now past : BalancesResponse) : List String :=
  unique (past.values.flatMap (·.tokens.map getTokenKey) ++
    now.values.flatMap (·.tokens.map getTokenKey))

/-- `calculate24HourReturns(now, then)`. -/
def calculate24HourReturns (now past : BalancesResponse) :
    Except String (JsMap Address AccountReturns) := do
  let responseEntries ← (accounts now past).mapM fun account => do
    let nowAccount ← dereference now account
    let thenAccount ← dereference past account
    pure (account, accountReturns (tokenKeys now past) account nowAccount thenAccount)
  pure (.ofEntries responseEntries)

/-- The returns are calculated, and for every account the whole is the sum over the tokens and the
sum over the chains. -/
def AddsUp (now past : BalancesResponse) : Prop :=
  ∃ returns, calculate24HourReturns now past = .ok returns ∧
    ∀ account ∈ accounts now past, ∃ entry, returns.get account = some entry ∧
      entry.totalUSD = total (entry.tokens.map (·.totalUSD)) ∧
      entry.totalUSD = total (entry.chains.map (·.totalUSD))

/-- A token has left an account together with all tokens of its chain. -/
def TokenBalance.Departed (nowAccount : AccountBalance) (token : TokenBalance) : Prop :=
  ((tokenMap nowAccount).get (getTokenKey token)).isNone ∧
    token.token.chainId ∉ chainIds nowAccount

instance : Decidable (TokenBalance.Departed nowAccount token) := inferInstanceAs (Decidable (_ ∧ _))

/-- What the tokens that have left an account with all tokens of their chains were worth. -/
def departedUSD (nowAccount thenAccount : AccountBalance) : ℚ :=
  (((tokenMap thenAccount).values.filter (·.Departed nowAccount)).map
    (·.totalPriceUSD.getD 0)).sum

/-! ## The loop -/

/-- The change that is added for a key. -/
def keptChange (nowTokenMap thenTokenMap : JsMap String TokenBalance) (tokenKey : String) :
    Option TokenChange :=
  (getTokenChange (thenTokenMap.get tokenKey) (nowTokenMap.get tokenKey)).filter
    fun tokenChange => !tokenChange.totalUSD.falsy

theorem addChange_eq (nowTokenMap thenTokenMap : JsMap String TokenBalance) (acc : AccountReturns)
    (tokenKey : String) : addChange nowTokenMap thenTokenMap acc tokenKey =
      ((keptChange nowTokenMap thenTokenMap tokenKey).map (pushChange acc)).getD acc := by
  rw [addChange, keptChange]
  cases getTokenChange (thenTokenMap.get tokenKey) (nowTokenMap.get tokenKey) with
  | none => rfl
  | some tokenChange =>
    cases h : tokenChange.totalUSD.falsy <;> simp [Option.filter_some, h]

/-- What a loop of additions leaves. -/
theorem foldl_pushChange (changes : List TokenChange) (acc : AccountReturns) :
    changes.foldl pushChange acc =
      { acc with
        tokens := acc.tokens ++ changes
        totalUSD := acc.totalUSD + total (changes.map (·.totalUSD))
        chains := acc.chains.map fun chain => ⟨chain.chainId, chain.totalUSD +
          total ((changes.filter (·.token.chainId = chain.chainId)).map (·.totalUSD))⟩ } := by
  have hzero : total [] = finite 0 := rfl
  induction changes generalizing acc with
  | nil => simp [hzero, JsNumber.add_zero]
  | cons change changes ih =>
    rw [List.foldl_cons, ih, pushChange]
    simp only [List.append_assoc, List.singleton_append, List.map_cons, total_cons,
      ← JsNumber.add_assoc, List.map_map, AccountReturns.mk.injEq, true_and, and_true]
    apply List.map_congr_left
    intro chain _
    rw [Function.comp_apply, List.filter_cons]
    by_cases h : change.token.chainId = chain.chainId
    · simp [h, total_cons, JsNumber.add_assoc]
    · simp [h, Ne.symm h]

theorem foldl_addChange (nowTokenMap thenTokenMap : JsMap String TokenBalance)
    (keys : List String) (acc : AccountReturns) :
    keys.foldl (addChange nowTokenMap thenTokenMap) acc =
      (keys.filterMap (keptChange nowTokenMap thenTokenMap)).foldl pushChange acc := by
  induction keys generalizing acc with
  | nil => rfl
  | cons key keys ih =>
    rw [List.foldl_cons, ih, addChange_eq, List.filterMap_cons]
    cases keptChange nowTokenMap thenTokenMap key <;> rfl

/-! ## Sums -/

theorem finite_total {l : List JsNumber} (h : ∀ a ∈ l, ∃ q, a = finite q) : ∃ q, total l = finite q := by
  induction l with
  | nil => exact ⟨0, rfl⟩
  | cons a l ih =>
    obtain ⟨⟨q, rfl⟩, hl⟩ := List.forall_mem_cons.mp h
    obtain ⟨r, hr⟩ := ih hl
    exact ⟨q + r, by rw [total_cons, hr]; rfl⟩

theorem number_truthy {n : Option ℚ} (h : (number n).falsy = false) : ∃ q, number n = finite q := by
  cases n with
  | none => cases h
  | some q => exact ⟨q, rfl⟩

/-- A change in value that is kept is a finite number. -/
theorem finite_of_kept {nowTokenMap thenTokenMap : JsMap String TokenBalance} {tokenKey : String}
    {change : TokenChange} (h : keptChange nowTokenMap thenTokenMap tokenKey = some change) :
    ∃ q, change.totalUSD = finite q := by
  obtain ⟨hchange, htruthy⟩ := Option.filter_eq_some_iff.mp h
  rw [Bool.not_eq_true'] at htruthy
  cases hthen : thenTokenMap.get tokenKey with
  | none =>
    cases hnow : nowTokenMap.get tokenKey with
    | none =>
      rw [hthen, hnow] at hchange
      cases hchange
    | some nowToken =>
      rw [hthen, hnow] at hchange
      cases hchange
      exact number_truthy htruthy
  | some thenToken =>
    cases hnow : nowTokenMap.get tokenKey with
    | none =>
      rw [hthen, hnow] at hchange
      cases hchange
      cases hprice : thenToken.totalPriceUSD with
      | none =>
        rw [hprice] at htruthy
        cases htruthy
      | some q => exact ⟨0 - q, finite_sub 0 q⟩
    | some nowToken =>
      rw [hthen, hnow] at hchange
      cases hchange
      cases hprice : thenToken.totalPriceUSD with
      | none =>
        rw [hprice] at htruthy
        cases hnowPrice : nowToken.totalPriceUSD <;> rw [hnowPrice] at htruthy <;> cases htruthy
      | some q =>
        cases hnowPrice : nowToken.totalPriceUSD with
        | none =>
          rw [hprice, hnowPrice] at htruthy
          cases htruthy
        | some r => exact ⟨r - q, finite_sub r q⟩

theorem tokenMap_get {account : AccountBalance} {key : String} {token : TokenBalance}
    (h : (tokenMap account).get key = some token) :
    getTokenKey token = key ∧ token ∈ account.tokens := by
  rw [tokenMap, JsMap.get_ofEntries_self] at h
  exact JsMap.lastWith_eq_some h

/-- A token that is held now is on a chain that is listed. -/
theorem chainId_mem_of_get {account : AccountBalance} {key : String} {token : TokenBalance}
    (h : (tokenMap account).get key = some token) : token.token.chainId ∈ chainIds account :=
  mem_unique.mpr (List.mem_map_of_mem (tokenMap_get h).2)

/-- What an account has lost with a token. -/
def TokenBalance.loss (token : TokenBalance) : JsNumber := 0 - number token.totalPriceUSD

/-- A kept change on a chain that is not listed is the loss of a token that has left. -/
theorem keptChange_unlisted (nowAccount thenAccount : AccountBalance) (key : String) :
    ((keptChange (tokenMap nowAccount) (tokenMap thenAccount) key).filter
        (·.token.chainId ∉ chainIds nowAccount)).map (·.totalUSD) =
      ((((tokenMap thenAccount).get key).filter (·.Departed nowAccount)).map
        TokenBalance.loss).filter (!·.falsy) := by
  rw [keptChange]
  cases hnow : (tokenMap nowAccount).get key with
  | some nowToken =>
    have hlisted := chainId_mem_of_get hnow
    cases hthen : (tokenMap thenAccount).get key with
    | none =>
      rw [getTokenChange, Option.filter_some]
      split
      · simp [hlisted]
      · rfl
    | some thenToken =>
      have hstays : ¬ thenToken.Departed nowAccount := by
        rintro ⟨hgone, -⟩
        rw [(tokenMap_get hthen).1, hnow] at hgone
        cases hgone
      have hnone : (some thenToken).filter (·.Departed nowAccount) = none := by
        simp [Option.filter_some, hstays]
      rw [getTokenChange, Option.filter_some, hnone]
      split
      · simp [hlisted]
      · rfl
  | none =>
    cases hthen : (tokenMap thenAccount).get key with
    | none => rfl
    | some thenToken =>
      have hdeparted : thenToken.Departed nowAccount ↔
          thenToken.token.chainId ∉ chainIds nowAccount := by
        rw [TokenBalance.Departed, (tokenMap_get hthen).1, hnow]
        exact and_iff_right rfl
      by_cases hlisted : thenToken.token.chainId ∈ chainIds nowAccount
      · have hnone : (some thenToken).filter (·.Departed nowAccount) = none := by
          simp [Option.filter_some, hdeparted, hlisted]
        rw [getTokenChange, Option.filter_some, hnone]
        split
        · simp [hlisted]
        · rfl
      · have hsome : (some thenToken).filter (·.Departed nowAccount) = some thenToken := by
          simp [Option.filter_some, hdeparted, hlisted]
        rw [getTokenChange, Option.filter_some, hsome, Option.map_some, Option.filter_some,
          TokenBalance.loss]
        split
        · simp [hlisted]
        · rfl

/-- Losses sum up to what the tokens were worth. -/
theorem total_losses (tokens : List TokenBalance) :
    total ((tokens.map TokenBalance.loss).filter (!·.falsy)) =
      finite (-(tokens.map (·.totalPriceUSD.getD 0)).sum) := by
  induction tokens with
  | nil => rfl
  | cons token tokens ih =>
    rw [List.map_cons, List.map_cons, List.sum_cons, neg_add, List.filter_cons, TokenBalance.loss]
    cases hprice : token.totalPriceUSD with
    | none =>
      rw [Option.getD_none, neg_zero, zero_add]
      exact ih
    | some q =>
      have hloss : 0 - number (some q) = finite (-q) :=
        (finite_sub 0 q).trans (congrArg finite (zero_sub q))
      rw [hloss, Option.getD_some]
      rcases eq_or_ne q 0 with rfl | hq
      · rw [neg_zero, zero_add, if_neg (by simp [falsy])]
        exact ih
      · rw [if_pos (by simp [falsy, hq]), total_cons, ih]
        rfl

/-- The changes on chains that are not listed sum up to what has departed. -/
theorem total_unlisted (nowAccount thenAccount : AccountBalance) {keys : List String}
    (hkeys : keys.Nodup) (hsub : (tokenMap thenAccount).keys ⊆ keys) :
    total (((keys.filterMap (keptChange (tokenMap nowAccount) (tokenMap thenAccount))).filter
        (·.token.chainId ∉ chainIds nowAccount)).map (·.totalUSD)) =
      finite (-departedUSD nowAccount thenAccount) := by
  have hlosses : ((keys.filterMap (keptChange (tokenMap nowAccount) (tokenMap thenAccount))).filter
      (·.token.chainId ∉ chainIds nowAccount)).map (·.totalUSD) =
      (((keys.filterMap (tokenMap thenAccount).get).filter (·.Departed nowAccount)).map
        TokenBalance.loss).filter (!·.falsy) := by
    rw [List.filter_filterMap, List.map_filterMap, List.filter_filterMap, List.map_filterMap,
      List.filter_filterMap]
    exact List.filterMap_congr fun key _ => keptChange_unlisted nowAccount thenAccount key
  have hperm : (keys.filterMap (tokenMap thenAccount).get).Perm (tokenMap thenAccount).values :=
    JsMap.filterMap_get_perm hkeys (JsMap.nodup_keys_ofEntries _) hsub
  rw [hlosses, total_losses, departedUSD, ((hperm.filter _).map _).sum_eq]

/-- The whole of an account is the sum over its tokens, and it is the sum over its chains exactly
when what has departed was worth nothing. -/
theorem accountReturns_addsUp (account : Address) (nowAccount thenAccount : AccountBalance)
    {keys : List String} (hkeys : keys.Nodup) (hsub : (tokenMap thenAccount).keys ⊆ keys) :
    (accountReturns keys account nowAccount thenAccount).totalUSD =
        total ((accountReturns keys account nowAccount thenAccount).tokens.map (·.totalUSD)) ∧
      ((accountReturns keys account nowAccount thenAccount).totalUSD =
          total ((accountReturns keys account nowAccount thenAccount).chains.map (·.totalUSD)) ↔
        departedUSD nowAccount thenAccount = 0) := by
  have hunlisted := total_unlisted nowAccount thenAccount hkeys hsub
  have hkept : ∀ change ∈ keys.filterMap (keptChange (tokenMap nowAccount) (tokenMap thenAccount)),
      ∃ q, change.totalUSD = finite q := by
    intro change hchange
    obtain ⟨key, -, hkey⟩ := List.mem_filterMap.mp hchange
    exact finite_of_kept hkey
  rw [accountReturns, foldl_addChange, foldl_pushChange]
  generalize keys.filterMap (keptChange (tokenMap nowAccount) (tokenMap thenAccount)) = kept at *
  have hgroups : ((chainIds nowAccount).map fun chainId => (0 : JsNumber) +
      total ((kept.filter (·.token.chainId = chainId)).map (·.totalUSD))) =
        (chainIds nowAccount).map fun chainId =>
          total ((kept.filter (·.token.chainId = chainId)).map (·.totalUSD)) :=
    List.map_congr_left fun _ _ => JsNumber.zero_add _
  have hnodup : (chainIds nowAccount).Nodup := nodup_unique _
  have hchains : total ((((chainIds nowAccount).map fun chainId =>
        (⟨chainId, 0⟩ : ChainChange)).map fun chain => (⟨chain.chainId, chain.totalUSD +
          total ((kept.filter (·.token.chainId = chain.chainId)).map (·.totalUSD))⟩ :
            ChainChange)).map (·.totalUSD)) =
      total ((kept.filter (·.token.chainId ∈ chainIds nowAccount)).map (·.totalUSD)) := by
    have hsums := total_groups hnodup (fun change : TokenChange => change.token.chainId)
      (·.totalUSD) kept
    rw [List.map_map, List.map_map]
    exact (congrArg total hgroups).trans (hsums.trans (congrArg
      (fun changes : List TokenChange => total (changes.map (·.totalUSD)))
      (List.filter_congr fun _ _ => decide_eq_decide.mpr Iff.rfl)))
  have hparts : total (kept.map (·.totalUSD)) =
      total ((kept.filter (·.token.chainId ∈ chainIds nowAccount)).map (·.totalUSD)) +
        finite (-departedUSD nowAccount thenAccount) := by
    have hperm := List.filter_append_perm
      (fun change : TokenChange => decide (change.token.chainId ∈ chainIds nowAccount)) kept
    rw [← hunlisted, ← total_append, ← List.map_append]
    simp only [decide_not]
    exact (total_perm (hperm.map _)).symm
  obtain ⟨listed, hlisted⟩ := finite_total (l := (kept.filter
      (·.token.chainId ∈ chainIds nowAccount)).map (·.totalUSD)) (by
    intro a ha
    obtain ⟨change, hchange, rfl⟩ := List.mem_map.mp ha
    exact hkept change (List.mem_filter.mp hchange).1)
  refine ⟨(JsNumber.zero_add _), ?_⟩
  have hwhole : (0 : JsNumber) + total (kept.map (·.totalUSD)) =
      finite (listed + -departedUSD nowAccount thenAccount) := by
    refine (JsNumber.zero_add _).trans ?_
    rw [hparts, hlisted]
    rfl
  rw [hchains, hlisted]
  change 0 + total (kept.map (·.totalUSD)) = _ ↔ _
  rw [hwhole, JsNumber.finite.injEq, add_eq_left, neg_eq_zero]

/-! ## All accounts -/

section
variable {now past : BalancesResponse} {returns : JsMap Address AccountReturns} {account : Address}
variable {nowAccount thenAccount : AccountBalance}

theorem dereference_eq_ok {response : BalancesResponse} {balance : AccountBalance} :
    dereference response account = .ok balance ↔ response.get account = some balance := by
  rw [dereference]
  cases response.get account with
  | none => exact iff_of_false (fun h => by cases h) (fun h => by cases h)
  | some balance' =>
    exact ⟨fun h => congrArg some (Except.ok.inj h), fun h => congrArg _ (Option.some.inj h)⟩

theorem mem_accounts_of_get (hnow : now.get account = some nowAccount) :
    account ∈ accounts now past :=
  mem_unique.mpr (List.mem_append_left _ (JsMap.mem_keys.mpr ⟨nowAccount, hnow⟩))

/-- The returns are calculated if both responses have the same accounts. -/
theorem calculate24HourReturns_succeeds :
    Succeeds (calculate24HourReturns now past) ↔
      ∀ account, account ∈ now.keys ↔ account ∈ past.keys := by
  have hdereference : ∀ {response : BalancesResponse} {account},
      Succeeds (dereference response account) ↔ account ∈ response.keys := by
    intro response account
    rw [JsMap.mem_keys]
    exact exists_congr fun _ => dereference_eq_ok
  have haccount : ∀ account, Succeeds (do
      let nowAccount ← dereference now account
      let thenAccount ← dereference past account
      pure (account, accountReturns (tokenKeys now past) account nowAccount thenAccount)) ↔
        account ∈ now.keys ∧ account ∈ past.keys := by
    intro account
    rw [← hdereference, ← hdereference]
    exact succeeds_bind_bind fun _ _ => succeeds_pure
  rw [calculate24HourReturns, succeeds_bind_of_forall fun _ => succeeds_pure, succeeds_mapM]
  simp only [haccount, accounts, mem_unique, List.mem_append]
  constructor
  · exact fun h account =>
      ⟨fun hnow => (h account (.inl hnow)).2, fun hpast => (h account (.inr hpast)).1⟩
  · rintro h account (hnow | hpast)
    · exact ⟨hnow, (h account).mp hnow⟩
    · exact ⟨(h account).mpr hpast, hpast⟩

/-- The returns of an account. -/
theorem calculate24HourReturns_get (h : calculate24HourReturns now past = .ok returns)
    (hnow : now.get account = some nowAccount) (hpast : past.get account = some thenAccount) :
    returns.get account =
      some (accountReturns (tokenKeys now past) account nowAccount thenAccount) := by
  obtain ⟨entries, hentries, h⟩ := bind_eq_ok.mp h
  cases h
  let f := fun account => accountReturns (tokenKeys now past) account
    ((now.get account).getD ⟨[], []⟩) ((past.get account).getD ⟨[], []⟩)
  have heq : entries = (accounts now past).map fun account => (account, f account) := by
    refine eq_map_of_mapM hentries fun account _ entry hentry => ?_
    obtain ⟨nowAccount, hnow, hentry⟩ := bind_eq_ok.mp hentry
    obtain ⟨thenAccount, hpast, hentry⟩ := bind_eq_ok.mp hentry
    cases hentry
    simp only [f, dereference_eq_ok.mp hnow, dereference_eq_ok.mp hpast, Option.getD_some]
  rw [heq, JsMap.get_ofEntries_graph f (mem_accounts_of_get hnow)]
  simp only [f, hnow, hpast, Option.getD_some]

/-- The returns of an account add up, but for what has departed. -/
theorem returns_addUp (nowAccount : AccountBalance) (hpast : past.get account = some thenAccount) :
    (accountReturns (tokenKeys now past) account nowAccount thenAccount).totalUSD =
        total ((accountReturns (tokenKeys now past) account nowAccount thenAccount).tokens.map
          (·.totalUSD)) ∧
      ((accountReturns (tokenKeys now past) account nowAccount thenAccount).totalUSD =
          total ((accountReturns (tokenKeys now past) account nowAccount thenAccount).chains.map
            (·.totalUSD)) ↔ departedUSD nowAccount thenAccount = 0) := by
  apply accountReturns_addsUp
  · exact nodup_unique _
  · intro key hkey
    rw [tokenMap, JsMap.keys_ofEntries, mem_unique, List.map_map] at hkey
    rw [tokenKeys, mem_unique]
    refine List.mem_append_left _ (List.mem_flatMap.mpr ⟨thenAccount, ?_, hkey⟩)
    exact List.mem_map_of_mem (JsMap.mem_of_get hpast)

theorem AddsUp.departedUSD_eq_zero (H : AddsUp now past)
    (hnow : now.get account = some nowAccount) (hpast : past.get account = some thenAccount) :
    departedUSD nowAccount thenAccount = 0 := by
  obtain ⟨returns, hreturns, hsums⟩ := H
  obtain ⟨entry, hentry, -, hchains⟩ := hsums account (mem_accounts_of_get hnow)
  rw [calculate24HourReturns_get hreturns hnow hpast] at hentry
  cases hentry
  exact (returns_addUp _ hpast).2.mp hchains

end

/-- The returns add up exactly when both responses have the same accounts, and of no account tokens
have departed, with all tokens of their chains, that were worth something together. -/
theorem returns_addUp_iff (now past : BalancesResponse) :
    AddsUp now past ↔ (∀ account, account ∈ now.keys ↔ account ∈ past.keys) ∧
      ∀ account nowAccount thenAccount, now.get account = some nowAccount →
        past.get account = some thenAccount → departedUSD nowAccount thenAccount = 0 := by
  constructor
  · intro H
    refine ⟨?_, fun _ _ _ => H.departedUSD_eq_zero⟩
    obtain ⟨returns, hreturns, -⟩ := H
    exact calculate24HourReturns_succeeds.mp ⟨returns, hreturns⟩
  · rintro ⟨hsame, hdeparted⟩
    obtain ⟨returns, hreturns⟩ := calculate24HourReturns_succeeds.mpr hsame
    refine ⟨returns, hreturns, fun account haccount => ?_⟩
    have hkeys : account ∈ now.keys := by
      rcases List.mem_append.mp (mem_unique.mp haccount) with h | h
      · exact h
      · exact (hsame account).mpr h
    obtain ⟨nowAccount, hnow⟩ := JsMap.mem_keys.mp hkeys
    obtain ⟨thenAccount, hpast⟩ := JsMap.mem_keys.mp ((hsame account).mp hkeys)
    obtain ⟨htokens, hchains⟩ := returns_addUp nowAccount hpast
    exact ⟨_, calculate24HourReturns_get hreturns hnow hpast, htokens,
      hchains.mpr (hdeparted account nowAccount thenAccount hnow hpast)⟩

/-! ## A chain that is left -/

/-- An account with a token on chain 1. -/
def holding : AccountBalance := ⟨[⟨⟨"0xb", some 1⟩, some 1, some 5, some 5⟩], []⟩

/-- The loss of the token counts for the account, and for no chain. -/
theorem holding_unequal : ¬ AddsUp [("0xa", ⟨[], []⟩)] [("0xa", holding)] := by
  intro H
  have hget : JsMap.get [("0xa", holding)] "0xa" = some holding := rfl
  have hzero : departedUSD ⟨[], []⟩ holding = 0 := H.departedUSD_eq_zero rfl hget
  have hfive : departedUSD ⟨[], []⟩ holding = 5 := by decide +kernel
  rw [hfive] at hzero
  exact absurd hzero (by decide +kernel)

end DailyReturns
end Account
end DefiBackend
