import DefiBackend.Common.Collections
import DefiBackend.Integration.Support.Opportunity
import DefiBackend.Theory.Fallible

/-! # Hydration of opportunities

`hydrateOpportunityData` collects the token addresses of all raw opportunities, has the asset
service look them up and formats one opportunity after the other.

* `getUniqueTokensFromRawPools`: the collection. It walks all entries, and one entry it cannot walk
  makes all of it fail (`getUniqueTokensFromRawPools_ok_iff`);
* `hydrateOpportunityData`: a failure of the formatting of an entry is caught for that entry alone,
  but a failure of the collection is answered with no data at all;
* `hydrateOpportunityData_data_iff`: when what is returned is what could be formatted. -/

namespace DefiBackend
namespace Integration
open Theory

/-! ## The collection of tokens -/

/-- The addresses of a token object and of its underlying tokens. -/
def addressesOfToken (token : Option TokenMinimal) : Except Exception (List (Option String)) := do
  let token ← deref "address" token
  let underlying ← (token.underlying.getD []).mapM fun token => do
    return (← deref "address" token).address
  return token.address :: underlying

/-- The addresses in the items of an array property; no array, and an empty one, have none. -/
def addressesOfMany (tokenOf : α → Option TokenMinimal) :
    Field (List (Option α)) → Except Exception (List (Option String))
  | .value items => do
    let addresses ← items.mapM fun item => do
      addressesOfToken (tokenOf (← deref "token" item))
    return addresses.flatten
  | _ => .ok []

/-- The addresses in a single property. -/
def addressesOfOne (tokenOf : α → Option TokenMinimal) :
    Field α → Except Exception (List (Option String))
  | .value item => addressesOfToken (tokenOf item)
  | _ => .ok []

/-- The addresses that one entry adds, in order. -/
def addressesOfPool {M : Type} (pool : Option (OpportunityMinimal M)) :
    Except Exception (List (Option String)) := do
  let pool ← deref "id" pool
  let supplied ← addressesOfMany SupplyTokenMinimal.token pool.supplied
  let borrowed ← addressesOfMany BorrowTokenMinimal.token pool.borrowed
  let rewarded ← addressesOfMany RewardTokenMinimal.token pool.rewarded
  let supply ← addressesOfOne SupplyTokenMinimal.token pool.supply
  let borrow ← addressesOfOne BorrowTokenMinimal.token pool.borrow
  let reward ← addressesOfOne RewardTokenMinimal.token pool.reward
  return pool.id :: (supplied ++ borrowed ++ rewarded ++ supply ++ borrow ++ reward)

def getUniqueTokensFromRawPools {M : Type} (pools : List (Option (OpportunityMinimal M))) :
    Except Exception (List (Option String)) := do
  let addresses ← pools.mapM addressesOfPool
  return unique addresses.flatten

/-! ## Hydration -/

structure PoolData (M : Type) where
  data : List (Opportunity M)
  errors : List Exception
  deriving DecidableEq

/-- A protocol as hydration sees it: `updateRealTimeData` if it has one, and `formatOpportunity` if
it overrides it. -/
structure HydrationProtocol (M : Type) extends FormattingProtocol M where
  updateRealTimeData : Option (List (Option (OpportunityMinimal M)) → TokenMap →
    Except Exception (Option (List (Option (OpportunityMinimal M)))))
  formatOverride : Option (Option (OpportunityMinimal M) → TokenMap →
    Except Exception (Option (Opportunity M)))

namespace HydrationProtocol
variable {M : Type} (Q : HydrationProtocol M) (N : Numerics)

/-- `this.formatOpportunity`. -/
def format (opportunity : Option (OpportunityMinimal M)) (tokens : TokenMap) :
    Except Exception (Option (Opportunity M)) :=
  match Q.formatOverride with
  | some f => f opportunity tokens
  | none => (Q.formatOpportunity N opportunity tokens).map some

/-- `getTokensForOpportunities`, the asset service being `getAssets`. -/
def getTokensForOpportunities (getAssets : List (Option String) → Except Exception TokenMap)
    (opportunities : List (Option (OpportunityMinimal M))) : Except Exception TokenMap := do
  getAssets (← getUniqueTokensFromRawPools opportunities)

/-- One round of the loop. Exceptions about missing opportunities and tokens are only logged; a
message about a null opportunity cannot be made and fails itself. -/
def hydrateStep (tokens : TokenMap) (acc : PoolData M)
    (opportunity : Option (OpportunityMinimal M)) : PoolData M :=
  let result : Except Exception (Opportunity M) := do
    match ← Q.format N opportunity tokens with
    | some pool => return pool
    | none => throw (MissingOpportunityException (← deref "id" opportunity).id Q.chain)
  match result with
  | .ok pool => { acc with data := acc.data ++ [pool] }
  | .error (.missingOpportunity _) | .error (.missingToken _) => acc
  | .error e => { acc with errors := acc.errors ++ [e] }

/-- `hydrateOpportunityData`. -/
def hydrateOpportunityData (getAssets : List (Option String) → Except Exception TokenMap)
    (opportunities : List (Option (OpportunityMinimal M))) : PoolData M :=
  match getTokensForOpportunities getAssets opportunities with
  | .error e => ⟨[], [e]⟩
  | .ok tokens =>
    let updated : Except Exception (Option (List (Option (OpportunityMinimal M)))) :=
      match Q.updateRealTimeData with
      | some update => update opportunities tokens
      | none => .ok (some opportunities)
    match updated with
    | .ok updated => (updated.getD opportunities).foldl (Q.hydrateStep N tokens) ⟨[], []⟩
    | .error e => opportunities.foldl (Q.hydrateStep N tokens) ⟨[], [e]⟩

/-- The formatted opportunity, if the formatting succeeds. -/
def formatted (tokens : TokenMap) (opportunity : Option (OpportunityMinimal M)) :
    Option (Opportunity M) :=
  match Q.format N opportunity tokens with
  | .ok pool => pool
  | .error _ => none

end HydrationProtocol

/-! ## Which entries can be walked -/

/-- A token object whose underlying tokens are objects. -/
def TokenCollectable (token : Option TokenMinimal) : Prop :=
  ∃ t, token = some t ∧ ∀ u ∈ t.underlying.getD [], u ≠ none

def ManyCollectable (tokenOf : α → Option TokenMinimal) (field : Field (List (Option α))) : Prop :=
  ∀ items, field = .value items → ∀ item ∈ items, ∃ i, item = some i ∧ TokenCollectable (tokenOf i)

def OneCollectable (tokenOf : α → Option TokenMinimal) (field : Field α) : Prop :=
  ∀ item, field = .value item → TokenCollectable (tokenOf item)

/-- An entry that is an object, with a token object in every item of its token fields. -/
def Collectable {M : Type} (pool : Option (OpportunityMinimal M)) : Prop :=
  ∃ p, pool = some p ∧
    ManyCollectable SupplyTokenMinimal.token p.supplied ∧
    ManyCollectable BorrowTokenMinimal.token p.borrowed ∧
    ManyCollectable RewardTokenMinimal.token p.rewarded ∧
    OneCollectable SupplyTokenMinimal.token p.supply ∧
    OneCollectable BorrowTokenMinimal.token p.borrow ∧
    OneCollectable RewardTokenMinimal.token p.reward

theorem succeeds_deref {o : Option α} : Succeeds (deref p o) ↔ ∃ a, o = some a := by
  cases o <;> simp [deref]

theorem succeeds_deref_bind {o : Option α} {f : α → Except Exception β} :
    Succeeds (deref p o >>= f) ↔ ∃ a, o = some a ∧ Succeeds (f a) := by
  rw [succeeds_bind]
  cases o <;> simp [deref]

theorem succeeds_addressesOfToken {token : Option TokenMinimal} :
    Succeeds (addressesOfToken token) ↔ TokenCollectable token := by
  rw [addressesOfToken, succeeds_deref_bind, TokenCollectable]
  refine exists_congr fun t => and_congr_right fun _ => ?_
  rw [succeeds_bind_of_forall fun _ => succeeds_pure, succeeds_mapM]
  refine forall₂_congr fun u _ => ?_
  rw [succeeds_bind_of_forall fun _ => succeeds_pure, succeeds_deref, Option.ne_none_iff_exists']

theorem succeeds_addressesOfMany {tokenOf : α → Option TokenMinimal}
    {field : Field (List (Option α))} :
    Succeeds (addressesOfMany tokenOf field) ↔ ManyCollectable tokenOf field := by
  cases field with
  | value items =>
    simp only [addressesOfMany, ManyCollectable, Field.value.injEq, forall_eq']
    rw [succeeds_bind_of_forall fun _ => succeeds_pure, succeeds_mapM]
    refine forall₂_congr fun item _ => ?_
    rw [succeeds_deref_bind]
    exact exists_congr fun i => and_congr_right fun _ => succeeds_addressesOfToken
  | _ => simp [addressesOfMany, ManyCollectable]

theorem succeeds_addressesOfOne {tokenOf : α → Option TokenMinimal} {field : Field α} :
    Succeeds (addressesOfOne tokenOf field) ↔ OneCollectable tokenOf field := by
  cases field with
  | value item => simp [addressesOfOne, OneCollectable, succeeds_addressesOfToken]
  | _ => simp [addressesOfOne, OneCollectable]

section
variable {M : Type}

theorem succeeds_addressesOfPool {pool : Option (OpportunityMinimal M)} :
    Succeeds (addressesOfPool pool) ↔ Collectable pool := by
  rw [addressesOfPool, succeeds_deref_bind, Collectable]
  refine exists_congr fun p => and_congr_right fun _ => ?_
  simp only [← succeeds_addressesOfMany, ← succeeds_addressesOfOne]
  constructor
  · intro h
    obtain ⟨_, h1, h⟩ := succeeds_bind.mp h
    obtain ⟨_, h2, h⟩ := succeeds_bind.mp h
    obtain ⟨_, h3, h⟩ := succeeds_bind.mp h
    obtain ⟨_, h4, h⟩ := succeeds_bind.mp h
    obtain ⟨_, h5, h⟩ := succeeds_bind.mp h
    obtain ⟨_, h6, _⟩ := succeeds_bind.mp h
    exact ⟨⟨_, h1⟩, ⟨_, h2⟩, ⟨_, h3⟩, ⟨_, h4⟩, ⟨_, h5⟩, ⟨_, h6⟩⟩
  · rintro ⟨⟨_, h1⟩, ⟨_, h2⟩, ⟨_, h3⟩, ⟨_, h4⟩, ⟨_, h5⟩, ⟨_, h6⟩⟩
    rw [h1, h2, h3, h4, h5, h6]
    exact succeeds_pure

/-- The collection succeeds exactly when every entry can be walked. -/
theorem getUniqueTokensFromRawPools_ok_iff {pools : List (Option (OpportunityMinimal M))} :
    Succeeds (getUniqueTokensFromRawPools pools) ↔ ∀ pool ∈ pools, Collectable pool := by
  rw [getUniqueTokensFromRawPools, succeeds_bind_of_forall fun _ => succeeds_pure, succeeds_mapM]
  exact forall₂_congr fun _ _ => succeeds_addressesOfPool

/-! ## What is returned -/

variable {Q : HydrationProtocol M} {N : Numerics} {tokens : TokenMap}

/-- One round adds the formatted entry, if there is one. -/
theorem HydrationProtocol.data_hydrateStep {acc : PoolData M} :
    (Q.hydrateStep N tokens acc p).data = acc.data ++ (Q.formatted N tokens p).toList := by
  unfold hydrateStep formatted
  cases h : Q.format N p tokens with
  | error e => cases e <;> simp [bind, Except.bind]
  | ok pool =>
    cases pool with
    | some pool => simp [bind, Except.bind, pure, Except.pure]
    | none => cases p <;> simp [bind, Except.bind, deref, throw, throwThe, MonadExceptOf.throw,
        MissingOpportunityException]

/-- The loop returns the formatted entries in their order. -/
theorem HydrationProtocol.data_foldl_hydrateStep {ps : List (Option (OpportunityMinimal M))}
    {acc : PoolData M} :
    (ps.foldl (Q.hydrateStep N tokens) acc).data =
      acc.data ++ ps.filterMap (Q.formatted N tokens) := by
  induction ps generalizing acc with
  | nil => simp
  | cons p ps ih =>
    rw [List.foldl_cons, ih, data_hydrateStep, List.filterMap_cons]
    cases Q.formatted N tokens p <;> simp

/-- A protocol without `updateRealTimeData` returns exactly the entries that could be formatted if
and only if every entry can be walked by the collection of tokens, or none can be formatted. -/
theorem HydrationProtocol.hydrateOpportunityData_data_iff (Q : HydrationProtocol M) (N : Numerics)
    (tokens : TokenMap) (pools : List (Option (OpportunityMinimal M)))
    (hQ : Q.updateRealTimeData = none) :
    (Q.hydrateOpportunityData N (fun _ => .ok tokens) pools).data =
        pools.filterMap (Q.formatted N tokens) ↔
      (∀ p ∈ pools, Collectable p) ∨ ∀ p ∈ pools, Q.formatted N tokens p = none := by
  by_cases hall : ∀ p ∈ pools, Collectable p
  · obtain ⟨addresses, h⟩ := getUniqueTokensFromRawPools_ok_iff.mpr hall
    refine iff_of_true ?_ (.inl hall)
    simp [hydrateOpportunityData, getTokensForOpportunities, h, hQ, data_foldl_hydrateStep, bind,
      Except.bind]
  · have hfail : ∃ e, getUniqueTokensFromRawPools pools = .error e := by
      cases h : getUniqueTokensFromRawPools pools with
      | error e => exact ⟨e, rfl⟩
      | ok as => exact absurd (getUniqueTokensFromRawPools_ok_iff.mp ⟨as, h⟩) hall
    obtain ⟨e, he⟩ := hfail
    have hdata : (Q.hydrateOpportunityData N (fun _ => .ok tokens) pools).data = [] := by
      simp [hydrateOpportunityData, getTokensForOpportunities, he, bind, Except.bind]
    rw [hdata, eq_comm, List.filterMap_eq_nil_iff]
    exact ⟨.inr, fun h => h.resolve_left hall⟩

end

/-! ## A vault and a null entry -/

namespace HydrationProtocol

/-- A protocol that overrides nothing. -/
def plain : HydrationProtocol Unit where
  chain := 1
  getOpportunityLink := none
  formatSupplyApy := none
  formatBorrowApy := none
  updateRealTimeData := none
  formatOverride := none

/-- Decimal numbers, and powers with natural exponents. -/
def decimalNumerics : Numerics where
  toBN := fun number => (number.bind String.toNat?).elim .nan fun n => .finite n
  pow := fun a b =>
    match a, b with
    | .finite a, .finite b => if b.den = 1 ∧ 0 ≤ b then .finite (a ^ b.num.toNat) else .nan
    | _, _ => .nan

def dai : ERC20Token where
  address := "0x6b175474e89094c44da98b954eedeac495271d0f"
  decimals := 18
  price := some 1
  underlying := []

def daiTokens : TokenMap := fun address => if address = dai.address then some dai else none

/-- A vault that one can put DAI into. -/
def vault : OpportunityMinimal Unit where
  id := some "0x83f20f44975d03b1b09e64809b757c47f942beea"
  feature := "staking"
  chain := 1
  «meta» := none
  interactive := none
  supplied := .value [some ⟨some ⟨some dai.address, none⟩, some "2500000000000000000"⟩]
  supply := .absent
  rewarded := .absent
  reward := .absent
  borrowed := .absent
  borrow := .absent

/-- A vault for a token that the asset service does not know. -/
def unlistedVault : OpportunityMinimal Unit :=
  { vault with
    id := some "0x29ab5b1c9e2f7d1b4d4cd5a1f8a21da7a4ab4ab2"
    supplied := .value [some ⟨some ⟨some "0x853d955acef822db058eb8505911ed77f175b99e", none⟩,
      some "1000000000000000000"⟩] }

theorem collectable_of_supplied {pool : OpportunityMinimal Unit} {token amount : String}
    (hsupplied : pool.supplied = .value [some ⟨some ⟨some token, none⟩, some amount⟩])
    (hother : pool.rewarded = .absent ∧ pool.borrowed = .absent ∧ pool.supply = .absent ∧
      pool.reward = .absent ∧ pool.borrow = .absent) : Collectable (some pool) := by
  obtain ⟨hrewarded, hborrowed, hsupply, hreward, hborrow⟩ := hother
  refine ⟨pool, rfl, ?_, by rw [hborrowed]; exact nofun, by rw [hrewarded]; exact nofun,
    by rw [hsupply]; exact nofun, by rw [hborrow]; exact nofun, by rw [hreward]; exact nofun⟩
  intro items h item hitem
  rw [hsupplied] at h
  cases h
  obtain rfl := List.mem_singleton.mp hitem
  exact ⟨_, rfl, _, rfl, fun u hu => nomatch hu⟩

/-- The vault is returned though the one before it cannot be formatted. -/
theorem hydrateOpportunityData_vault :
    plain.formatted decimalNumerics daiTokens (some unlistedVault) = none ∧
      (plain.hydrateOpportunityData decimalNumerics (fun _ => .ok daiTokens)
          [some unlistedVault, some vault]).data =
        [some unlistedVault, some vault].filterMap (plain.formatted decimalNumerics daiTokens) := by
  have hcollectable : ∀ p ∈ [some unlistedVault, some vault], Collectable p := by
    rw [List.forall_mem_cons, List.forall_mem_singleton]
    exact ⟨collectable_of_supplied rfl ⟨rfl, rfl, rfl, rfl, rfl⟩,
      collectable_of_supplied rfl ⟨rfl, rfl, rfl, rfl, rfl⟩⟩
  exact ⟨by decide, (hydrateOpportunityData_data_iff plain decimalNumerics daiTokens
    [some unlistedVault, some vault] rfl).mpr (.inl hcollectable)⟩

/-- A null entry after the vault removes it. -/
theorem hydrateOpportunityData_null :
    (plain.hydrateOpportunityData decimalNumerics (fun _ => .ok daiTokens) [some vault, none]).data ≠
      [some vault, none].filterMap (plain.formatted decimalNumerics daiTokens) := by
  decide

end HydrationProtocol
end Integration
end DefiBackend
