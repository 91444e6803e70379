import DefiBackend.Integration.V3Decorator.Accounting
import DefiBackend.Theory.Coverage
import Mathlib.Algebra.Order.Group.Multiset
import Mathlib.Data.List.Forall2
import Mathlib.Data.List.Perm.Basic
import Mathlib.Tactic.Abel

/-! # Values through the conversion

Whether `toV2Response` keeps the value of what it converts: the total is the sum of the totals of
the listed features, and each amount is counted in the total of one feature, once.

* `Conserves`: this property of an answer.
* `UserEntryResponse.only`: an answer with all amounts but one at zero; what is left in the totals
  is what the one amount is counted for.
* `conserves_iff`: the property holds exactly of the answers that are convertible, whose positions
  have nothing that is left out or counted several times, and in which locked balances make up for
  the positions of features that are not listed. -/

namespace DefiBackend
namespace Integration
namespace V3Decorator

open Theory

/-! ## The property -/

/-- The totals of the listed features, with borrowing negative. -/
def IntChainsData.listedTotal (c : IntChainsData) : ℚ :=
  (c.features.map fun f => if f = .borrowing then -c.totalOf f else c.totalOf f).sum

def IntegrationsResponseV2.listedTotal (r : IntegrationsResponseV2) : ℚ :=
  (r.wallets.map fun w => (w.chains.map IntChainsData.listedTotal).sum).sum

/-- `totalValue` of each feature of each chain of each wallet. -/
def IntegrationsResponseV2.featureTotals (r : IntegrationsResponseV2) : List ℚ :=
  r.wallets.flatMap fun w => w.chains.flatMap fun c => FeatureEnum.all.map c.totalOf

/-- The token as it is at one place, without value elsewhere. -/
def UserToken.only (place : Nat) (t : UserToken) : UserToken :=
  if t.place = place then t else { t with value := 0 }

section
variable (f : UserToken → UserToken)

def WalletUserEntry.mapTokens (p : WalletUserEntry) : WalletUserEntry :=
  { p with
    supplied := p.supplied.map (·.map f)
    rewarded := p.rewarded.map (·.map f)
    borrowed := p.borrowed.map (·.map f) }

def Positions.mapTokens (ps : Positions) : Positions where
  staking := ps.staking.map (·.map (·.mapTokens f))
  pools := ps.pools.map (·.map (·.mapTokens f))
  claimable := ps.claimable.map (·.map (·.mapTokens f))
  delegation := ps.delegation.map (·.map (·.mapTokens f))
  lending := ps.lending.map (·.map (·.mapTokens f))
  others := ps.others.map (·.mapTokens f)

def ChainUserEntry.mapTokens (c : ChainUserEntry) : ChainUserEntry :=
  { c with positions := c.positions.mapTokens f }

def PlatformUserEntry.mapTokens (w : PlatformUserEntry) : PlatformUserEntry :=
  { w with chains := w.chains.map (·.mapTokens f) }

end

/-! ## Tokens -/

section
variable {f : UserToken → UserToken}

@[simp] theorem getD_map_map {o : Option (List α)} {g : α → β} :
    (o.map (·.map g)).getD [] = (o.getD []).map g := by
  cases o <;> rfl

theorem tokens_mapTokens {p : WalletUserEntry} : (p.mapTokens f).tokens = p.tokens.map f := by
  simp [WalletUserEntry.tokens, WalletUserEntry.mapTokens]

theorem all_mapTokens {ps : Positions} : (ps.mapTokens f).all = ps.all.map (·.mapTokens f) := by
  simp [Positions.all, Positions.mapTokens]

theorem chainTokens_mapTokens {c : ChainUserEntry} : (c.mapTokens f).tokens = c.tokens.map f := by
  simp only [ChainUserEntry.tokens, ChainUserEntry.mapTokens, all_mapTokens, List.flatMap_map,
    tokens_mapTokens, List.map_flatMap]

theorem walletTokens_mapTokens {w : PlatformUserEntry} :
    (w.mapTokens f).tokens = w.tokens.map f := by
  simp only [PlatformUserEntry.tokens, PlatformUserEntry.mapTokens, List.flatMap_map,
    chainTokens_mapTokens, List.map_flatMap]

end

@[simp] theorem place_only {place : Nat} {t : UserToken} : (t.only place).place = t.place := by
  rw [UserToken.only]; split <;> rfl

@[simp] theorem unlockTime_only {place : Nat} {t : UserToken} :
    (t.only place).unlockTime = t.unlockTime := by
  rw [UserToken.only]; split <;> rfl

/-- The answer in which only the amount at one place is not zero. -/
def UserEntryResponse.only (r : UserEntryResponse) (place : Nat) : UserEntryResponse :=
  { r with
    wallets := r.wallets.map (·.mapTokens (·.only place))
    places := by
      simpa only [List.flatMap_map, walletTokens_mapTokens, ← List.map_flatMap, List.map_map,
        Function.comp_def, place_only] using r.places }

/-- With all other amounts at zero, the token's amount is the total of exactly one feature and all
others are zero. -/
def CountedOnce (r : UserEntryResponse) (t : UserToken) : Prop :=
  ∃ out, toV2Response (r.only t.place) = .ok out ∧ out.featureTotals.filter (· ≠ 0) = [t.value]

/-- The conversion does not throw, its total is that of the listed features, and each amount is
counted in exactly one feature's total exactly once; an amount of zero is, in any case. -/
def Conserves (r : UserEntryResponse) : Prop :=
  ∃ out, toV2Response r = .ok out ∧ out.total = out.listedTotal ∧
    ∀ t ∈ r.tokens, t.value ≠ 0 → CountedOnce r t

/-! ## The same conversion with other values

What is counted for which feature does not depend on the values. -/

section
variable {f : UserToken → UserToken} (hf : ∀ t, (f t).unlockTime = t.unlockTime)

@[simp] theorem supplies_mapTokens {p : WalletUserEntry} :
    (p.mapTokens f).supplies = p.supplies.map f := getD_map_map

@[simp] theorem rewards_mapTokens {p : WalletUserEntry} :
    (p.mapTokens f).rewards = p.rewards.map f := getD_map_map

@[simp] theorem borrows_mapTokens {p : WalletUserEntry} :
    (p.mapTokens f).borrows = p.borrows.map f := getD_map_map

@[simp] theorem head_mapTokens {p : WalletUserEntry} : (p.mapTokens f).head = p.head.map f := by
  simp [WalletUserEntry.head]

theorem stakedTokens_mapTokens {p : WalletUserEntry} :
    (p.mapTokens f).stakedTokens = p.stakedTokens.map f := by
  simp [WalletUserEntry.stakedTokens]

theorem pooledTokens_mapTokens {p : WalletUserEntry} :
    (p.mapTokens f).pooledTokens = p.pooledTokens.map f := by
  simp [WalletUserEntry.pooledTokens]

theorem claimedTokens_mapTokens {p : WalletUserEntry} :
    (p.mapTokens f).claimedTokens = p.claimedTokens.map f := by
  simp only [WalletUserEntry.claimedTokens, supplies_mapTokens, rewards_mapTokens,
    ← List.map_append, List.map_map]
  refine List.map_congr_left fun t _ => ?_
  cases p.supplies <;> rfl

@[simp] theorem staking_mapTokens {c : ChainUserEntry} :
    (c.mapTokens f).staking = c.staking.map (·.mapTokens f) := getD_map_map

@[simp] theorem pools_mapTokens {c : ChainUserEntry} :
    (c.mapTokens f).pools = c.pools.map (·.mapTokens f) := getD_map_map

@[simp] theorem claimable_mapTokens {c : ChainUserEntry} :
    (c.mapTokens f).claimable = c.claimable.map (·.mapTokens f) := getD_map_map

@[simp] theorem delegation_mapTokens {c : ChainUserEntry} :
    (c.mapTokens f).delegation = c.delegation.map (·.mapTokens f) := getD_map_map

@[simp] theorem lending_mapTokens {c : ChainUserEntry} :
    (c.mapTokens f).lending = c.lending.map (·.mapTokens f) := getD_map_map

@[simp] theorem isSome_supplied_mapTokens {p : WalletUserEntry} :
    (p.mapTokens f).supplied.isSome = p.supplied.isSome := Option.isSome_map

@[simp] theorem isSome_rewarded_mapTokens {p : WalletUserEntry} :
    (p.mapTokens f).rewarded.isSome = p.rewarded.isSome := Option.isSome_map

@[simp] theorem isSome_borrowed_mapTokens {p : WalletUserEntry} :
    (p.mapTokens f).borrowed.isSome = p.borrowed.isSome := Option.isSome_map

@[simp] theorem features_mapTokens {c : ChainUserEntry} :
    (c.mapTokens f).features = c.features := rfl

theorem convertible_mapTokens {c : ChainUserEntry} :
    (c.mapTokens f).Convertible ↔ c.Convertible := by
  have hmeta (p : WalletUserEntry) : (p.mapTokens f).meta = p.meta := rfl
  simp [ChainUserEntry.convertible_iff, hmeta]

include hf in
theorem locked_mapTokens {p : WalletUserEntry} : (p.mapTokens f).locked = p.locked := by
  simp [WalletUserEntry.locked, Function.comp_def, hf]

include hf in
theorem ledger_mapTokens {c : ChainUserEntry} (feature : FeatureEnum) :
    (c.mapTokens f).ledger feature = (c.ledger feature).map f := by
  cases feature <;>
    simp [ChainUserEntry.ledger, stakingLedger, List.filter_map, Function.comp_def,
      locked_mapTokens hf, List.flatMap_map, List.map_flatMap, stakedTokens_mapTokens,
      pooledTokens_mapTokens, claimedTokens_mapTokens]

end

/-! ## Responses -/

/-- The converted chain has the totals of the chain's ledger. -/
structure Converted (c : ChainUserEntry) (v2 : IntChainsData) : Prop where
  features : v2.features = c.listed
  totalOf : ∀ f, v2.totalOf f = worth (c.ledger f)

def ChainUserEntry.listedWorth (c : ChainUserEntry) : ℚ :=
  (c.listed.map fun f => if f = .borrowing then -worth (c.ledger f) else worth (c.ledger f)).sum

theorem Converted.listedTotal {c : ChainUserEntry} {v2 : IntChainsData} (h : Converted c v2) :
    v2.listedTotal = c.listedWorth := by
  simp only [IntChainsData.listedTotal, ChainUserEntry.listedWorth, h.features, h.totalOf]

theorem toV2Wallet_eq_ok {total total' : ℚ} {w : PlatformUserEntry} {v2 : IntegrationWallet}
    (h : toV2Wallet total w = .ok (total', v2)) :
    total' = total + (w.chains.map fun c => c.ledger.net).sum ∧
      List.Forall₂ Converted w.chains v2.chains := by
  obtain ⟨⟨total₁, chains⟩, hchains, h⟩ := bind_eq_ok.mp h
  cases h
  refine mapAccumM_eq_ok (fun total c total' v2 h => ?_) hchains
  obtain ⟨ht, hl, hw⟩ := toV2Chain_eq_ok h
  exact ⟨ht, hl, hw⟩

theorem succeeds_toV2Wallet {total : ℚ} {w : PlatformUserEntry} :
    Succeeds (toV2Wallet total w) ↔ ∀ c ∈ w.chains, c.Convertible :=
  (succeeds_bind_of_forall fun _ => succeeds_pure).trans
    (succeeds_mapAccumM (f := toV2Chain) fun _ _ => succeeds_toV2Chain)

def UserEntryResponse.chains (r : UserEntryResponse) : List ChainUserEntry :=
  r.wallets.flatMap PlatformUserEntry.chains

/-- The tokens counted for each feature of each chain. -/
def UserEntryResponse.cells (r : UserEntryResponse) : List (List UserToken) :=
  r.chains.flatMap fun c => FeatureEnum.all.map c.ledger

theorem map_eq_of_forall₂ {R : α → β → Prop} {f : α → γ} {g : β → γ} {l : List α} {l' : List β}
    (h : List.Forall₂ R l l') (hR : ∀ a b, R a b → g b = f a) : l'.map g = l.map f := by
  induction h with
  | nil => rfl
  | cons h _ ih => rw [List.map_cons, List.map_cons, hR _ _ h, ih]

theorem sum_map_flatMap {f : ι → List α} {g : α → ℚ} {l : List ι} :
    ((l.flatMap f).map g).sum = (l.map fun i => ((f i).map g).sum).sum := by
  induction l with
  | nil => rfl
  | cons i l ih => simp [ih]

theorem sum_map_sub {f g : α → ℚ} {l : List α} :
    (l.map f).sum - (l.map g).sum = (l.map fun a => f a - g a).sum := by
  induction l with
  | nil => simp
  | cons a l ih => rw [List.map_cons, List.map_cons, List.map_cons, List.sum_cons, List.sum_cons,
      List.sum_cons, ← ih, add_sub_add_comm]

theorem toV2Response_eq_ok {r : UserEntryResponse} {out : IntegrationsResponseV2}
    (h : toV2Response r = .ok out) :
    out.total = (r.chains.map fun c => c.ledger.net).sum ∧
      out.listedTotal = (r.chains.map ChainUserEntry.listedWorth).sum ∧
      out.featureTotals = r.cells.map worth := by
  obtain ⟨⟨total, wallets⟩, hwallets, h⟩ := bind_eq_ok.mp h
  cases h
  obtain ⟨ht, hw⟩ := mapAccumM_eq_ok (fun _ _ _ _ h => toV2Wallet_eq_ok h) hwallets
  refine ⟨?_, ?_, ?_⟩
  · rw [ht, zero_add, UserEntryResponse.chains, sum_map_flatMap]
  · rw [IntegrationsResponseV2.listedTotal, UserEntryResponse.chains, sum_map_flatMap]
    exact congrArg List.sum (map_eq_of_forall₂ hw fun w v2 h =>
      congrArg List.sum (map_eq_of_forall₂ h fun _ _ => Converted.listedTotal))
  · rw [IntegrationsResponseV2.featureTotals, UserEntryResponse.cells, UserEntryResponse.chains,
      List.map_flatMap, List.flatMap_assoc, List.flatMap_def, List.flatMap_def]
    refine congrArg List.flatten (map_eq_of_forall₂ hw fun w v2 h => ?_)
    rw [List.flatMap_def, List.flatMap_def]
    refine congrArg List.flatten (map_eq_of_forall₂ h fun c v2 h => ?_)
    rw [List.map_map]
    exact List.map_congr_left fun f _ => h.totalOf f

theorem succeeds_toV2Response {r : UserEntryResponse} :
    Succeeds (toV2Response r) ↔ ∀ c ∈ r.chains, c.Convertible := by
  refine (succeeds_bind_of_forall fun _ => succeeds_pure).trans
    ((succeeds_mapAccumM (f := toV2Wallet) fun _ _ => succeeds_toV2Wallet).trans ?_)
  simp only [UserEntryResponse.chains, List.mem_flatMap]
  exact ⟨fun h c ⟨w, hw, hc⟩ => h w hw c hc, fun h w hw c hc => h c ⟨w, hw, hc⟩⟩

/-! ## What is counted, by position -/

/-- What is counted of a position under staking. -/
def WalletUserEntry.stakingCounted (p : WalletUserEntry) : List UserToken :=
  if p.locked then p.head else p.stakedTokens

namespace ChainUserEntry
variable (c : ChainUserEntry)

/-- What the chain's ledger counts. -/
def counted : List UserToken := FeatureEnum.all.flatMap c.ledger

/-- What is counted of the lending positions. -/
def lendingCounted : List UserToken :=
  (List.replicate (c.features.count .lending)
      (c.lending.flatMap WalletUserEntry.supplies)).flatten ++
    (List.replicate (c.features.count .claimable + 1)
      (c.lending.flatMap WalletUserEntry.rewards)).flatten ++
    c.lending.flatMap WalletUserEntry.borrows

/-- The same, one kind of positions after the other. -/
def countedByKind : List UserToken :=
  c.staking.flatMap WalletUserEntry.stakingCounted ++
    (c.pools.flatMap WalletUserEntry.pooledTokens ++
      (c.claimable.flatMap WalletUserEntry.claimedTokens ++
        (c.delegation.flatMap WalletUserEntry.head ++ (c.lendingCounted ++ []))))

def tokensByKind : List UserToken :=
  c.staking.flatMap WalletUserEntry.tokens ++
    (c.pools.flatMap WalletUserEntry.tokens ++
      (c.claimable.flatMap WalletUserEntry.tokens ++
        (c.delegation.flatMap WalletUserEntry.tokens ++
          (c.lending.flatMap WalletUserEntry.tokens ++
            c.positions.others.flatMap WalletUserEntry.tokens))))

end ChainUserEntry

theorem tokensByKind_eq {c : ChainUserEntry} : c.tokens = c.tokensByKind := by
  simp [ChainUserEntry.tokens, Positions.all, ChainUserEntry.tokensByKind, List.flatMap_append,
    ChainUserEntry.staking, ChainUserEntry.pools, ChainUserEntry.claimable,
    ChainUserEntry.delegation, ChainUserEntry.lending]

/-- The two ways through the staking positions. -/
theorem stakingCounted_perm (ps : List WalletUserEntry) :
    (stakingLedger ps .staking ++ stakingLedger ps .lockedBalances).Perm
      (ps.flatMap WalletUserEntry.stakingCounted) := by
  induction ps with
  | nil => exact .nil
  | cons p ps ih =>
    simp only [stakingLedger, List.flatMap_cons, WalletUserEntry.stakingCounted] at ih ⊢
    cases hp : p.locked with
    | true =>
      simp only [hp, Bool.not_true, List.filter_cons, if_true, Bool.false_eq_true, if_false,
        List.flatMap_cons]
      exact (List.perm_append_comm_assoc _ _ _).trans (ih.append_left _)
    | false =>
      simp only [hp, Bool.not_false, List.filter_cons, if_true, Bool.false_eq_true, if_false,
        List.flatMap_cons, List.append_assoc]
      exact ih.append_left _

theorem counted_perm (c : ChainUserEntry) : c.counted.Perm c.countedByKind := by
  refine List.Perm.trans ?_ ((stakingCounted_perm c.staking).append_right _)
  rw [← Multiset.coe_eq_coe]
  simp only [ChainUserEntry.counted, FeatureEnum.all, List.flatMap_cons, List.flatMap_nil,
    ChainUserEntry.ledger, ChainUserEntry.lendingCounted, ← Multiset.coe_add, List.append_nil,
    Multiset.coe_nil]
  abel

/-! ## Counting once -/

/-- Tokens that may be left out and may be counted several times. -/
def Worthless (tokens : List UserToken) : Prop := ∀ t ∈ tokens, t.value = 0

instance : DecidablePred Worthless := fun tokens =>
  inferInstanceAs (Decidable (∀ t ∈ tokens, t.value = 0))

abbrev Once (counted all : List UserToken) : Prop :=
  CoveredOnce UserToken.place (fun t => t.value ≠ 0) counted all

theorem worthless_iff {tokens : List UserToken} :
    (∀ t ∈ tokens, ¬ t.value ≠ 0) ↔ Worthless tokens := by
  simp [Worthless]

@[simp] theorem worthless_append {ts us : List UserToken} :
    Worthless (ts ++ us) ↔ Worthless ts ∧ Worthless us := List.forall_mem_append

theorem worthless_flatMap {l : List α} {f : α → List UserToken} :
    Worthless (l.flatMap f) ↔ ∀ a ∈ l, Worthless (f a) := List.forall_mem_flatMap

theorem once_left {counted left all : List UserToken} (hp : all.Perm (counted ++ left))
    (hd : (all.map UserToken.place).Nodup) : Once counted all ↔ Worthless left := by
  rw [Once, CoveredOnce.congr_perm (List.Perm.refl counted) hp,
    coveredOnce_left ((hp.map _).nodup_iff.mp hd), worthless_iff]

theorem once_copies {all : List UserToken} (hd : (all.map UserToken.place).Nodup) (n : Nat) :
    Once (List.replicate n all).flatten all ↔ n = 1 ∨ Worthless all := by
  rw [Once, coveredOnce_copies hd, worthless_iff]

namespace WalletUserEntry
variable (p : WalletUserEntry)

/-- The supplied tokens after the first one. -/
def rest : List UserToken := p.supplies.drop 1

/-- Without supplied tokens the rewarded ones are counted. Otherwise the first supplied token has no
value or is the only token, and no other token has a value. -/
def ClaimedOnce : Prop :=
  match p.supplies with
  | [] => Worthless p.borrows
  | t :: ts => (t.value = 0 ∨ ts ++ p.rewards = []) ∧ Worthless (ts ++ p.rewards ++ p.borrows)

end WalletUserEntry

section
variable {p : WalletUserEntry} (hd : (p.tokens.map UserToken.place).Nodup)

theorem tokens_perm : p.tokens.Perm (p.head ++ (p.rest ++ p.rewards ++ p.borrows)) := by
  have h : p.head ++ p.rest = p.supplies := List.take_append_drop 1 p.supplies
  rw [← List.append_assoc, ← List.append_assoc, h]
  exact .refl _

theorem tokens_perm' : p.tokens.Perm (p.stakedTokens ++ (p.rest ++ p.borrows)) := by
  refine tokens_perm.trans ?_
  rw [WalletUserEntry.stakedTokens, ← Multiset.coe_eq_coe]
  simp only [← Multiset.coe_add]
  abel

include hd

theorem once_head : Once p.head p.tokens ↔ Worthless (p.rest ++ p.rewards ++ p.borrows) :=
  once_left tokens_perm hd

theorem once_staking : Once p.stakingCounted p.tokens ↔
    Worthless (p.rest ++ p.borrows) ∧ (p.locked → Worthless p.rewards) := by
  rw [WalletUserEntry.stakingCounted]
  by_cases hp : p.locked
  · rw [if_pos hp, once_head hd]
    simp [hp]
    tauto
  · rw [if_neg hp, once_left tokens_perm' hd]
    simp [hp]

theorem once_pooled : Once p.pooledTokens p.tokens ↔ Worthless p.borrows :=
  once_left (.refl _) hd

theorem once_claimed : Once p.claimedTokens p.tokens ↔ p.ClaimedOnce := by
  rw [WalletUserEntry.ClaimedOnce, WalletUserEntry.claimedTokens]
  have htokens : p.tokens = p.supplies ++ p.rewards ++ p.borrows := rfl
  cases hs : p.supplies with
  | nil =>
    rw [hs] at htokens
    have hmap : (p.rewards ++ []).map [].headD = p.rewards := by
      rw [List.append_nil]
      exact List.map_id'' (fun _ => rfl) _
    rw [hmap]
    exact once_left (.of_eq htokens) hd
  | cons t ts =>
    rw [hs] at htokens
    have hcounted : (p.rewards ++ t :: ts).map (t :: ts).headD =
        (List.replicate (ts ++ p.rewards).length.succ [t]).flatten ++ [] := by
      rw [List.append_nil, List.flatten_replicate_singleton]
      refine List.map_const'.trans (congrArg (List.replicate · t) ?_)
      simp only [List.length_append, List.length_cons]
      omega
    have hperm : p.tokens.Perm ([t] ++ (ts ++ p.rewards ++ p.borrows)) := .of_eq (by simp [htokens])
    have hd' := (hperm.map UserToken.place).nodup_iff.mp hd
    have hsub : (List.replicate (ts ++ p.rewards).length.succ [t]).flatten ⊆ [t] := fun u hu => by
      obtain ⟨us, hus, hu⟩ := List.mem_flatten.mp hu
      exact List.eq_of_mem_replicate hus ▸ hu
    rw [hcounted, Once, CoveredOnce.congr_perm (.refl _) hperm,
      coveredOnce_append hd' hsub (List.nil_subset _), coveredOnce_nil, worthless_iff]
    refine and_congr_left fun _ => (once_copies (by simp) _).trans ?_
    rw [or_comm, Nat.succ_inj, List.length_eq_zero_iff]
    simp [Worthless]

end

theorem flatten_replicate_subset {n : Nat} {ts : List UserToken} :
    (List.replicate n ts).flatten ⊆ ts := fun u hu => by
  obtain ⟨us, hus, hu⟩ := List.mem_flatten.mp hu
  exact List.eq_of_mem_replicate hus ▸ hu

theorem append_subset {a b l r : List α} (ha : a ⊆ l) (hb : b ⊆ r) : a ++ b ⊆ l ++ r :=
  List.append_subset.mpr
    ⟨List.subset_append_of_subset_left _ ha, List.subset_append_of_subset_right _ hb⟩

theorem flatMap_subset {ps : List WalletUserEntry} {f : WalletUserEntry → List UserToken}
    (h : ∀ p, f p ⊆ p.tokens) : ps.flatMap f ⊆ ps.flatMap WalletUserEntry.tokens := fun t ht => by
  obtain ⟨p, hp, ht⟩ := List.mem_flatMap.mp ht
  exact List.mem_flatMap.mpr ⟨p, hp, h p ht⟩

/-! ## Chains that count once -/

/-- The positions of a chain have nothing that is left out or counted several times. -/
@[mk_iff]
structure ChainUserEntry.CountsOnce (c : ChainUserEntry) : Prop where
  staking : ∀ p ∈ c.staking, Worthless (p.rest ++ p.borrows) ∧ (p.locked → Worthless p.rewards)
  pools : ∀ p ∈ c.pools, Worthless p.borrows
  claimable : ∀ p ∈ c.claimable, p.ClaimedOnce
  delegation : ∀ p ∈ c.delegation, Worthless (p.rest ++ p.rewards ++ p.borrows)
  lending : c.features.count .lending = 1 ∨ ∀ p ∈ c.lending, Worthless p.supplies
  lendingRewards : .claimable ∉ c.features ∨ ∀ p ∈ c.lending, Worthless p.rewards
  others : ∀ p ∈ c.positions.others, Worthless p.tokens

theorem lendingTokens_perm (ps : List WalletUserEntry) :
    (ps.flatMap WalletUserEntry.tokens).Perm
      (ps.flatMap WalletUserEntry.supplies ++ ps.flatMap WalletUserEntry.rewards ++
        ps.flatMap WalletUserEntry.borrows) :=
  ((ps.flatMap_append_perm WalletUserEntry.supplies WalletUserEntry.rewards).append_right _ |>.trans
    (ps.flatMap_append_perm _ WalletUserEntry.borrows)).symm

theorem once_lending {c : ChainUserEntry}
    (hd : ((c.lending.flatMap WalletUserEntry.tokens).map UserToken.place).Nodup) :
    Once c.lendingCounted (c.lending.flatMap WalletUserEntry.tokens) ↔
      (c.features.count .lending = 1 ∨ ∀ p ∈ c.lending, Worthless p.supplies) ∧
        (.claimable ∉ c.features ∨ ∀ p ∈ c.lending, Worthless p.rewards) := by
  have hd := ((lendingTokens_perm c.lending).map UserToken.place).nodup_iff.mp hd
  have hsr := hd
  rw [List.map_append] at hsr
  have hsr := hsr.of_append_left
  have hs := hsr
  rw [List.map_append] at hs
  rw [Once, CoveredOnce.congr_perm (.refl _) (lendingTokens_perm c.lending),
    ChainUserEntry.lendingCounted,
    coveredOnce_append hd (append_subset flatten_replicate_subset flatten_replicate_subset)
      (List.Subset.refl _),
    coveredOnce_append hsr flatten_replicate_subset flatten_replicate_subset,
    and_iff_left (coveredOnce_self (by rw [List.map_append] at hd; exact hd.of_append_right))]
  refine and_congr ((once_copies hs.of_append_left _).trans ?_)
    ((once_copies hs.of_append_right _).trans ?_)
  · rw [worthless_flatMap]
  · rw [worthless_flatMap, Nat.succ_inj, List.count_eq_zero]

theorem once_flatMap {ps : List WalletUserEntry} {f : WalletUserEntry → List UserToken}
    {P : WalletUserEntry → Prop} (hf : ∀ p, f p ⊆ p.tokens)
    (hP : ∀ p, (p.tokens.map UserToken.place).Nodup → (Once (f p) p.tokens ↔ P p))
    (hd : ((ps.flatMap WalletUserEntry.tokens).map UserToken.place).Nodup) :
    Once (ps.flatMap f) (ps.flatMap WalletUserEntry.tokens) ↔ ∀ p ∈ ps, P p := by
  rw [Once, coveredOnce_flatMap hd fun p _ => hf p]
  refine forall₂_congr fun p hp => hP p ?_
  rw [List.map_flatMap] at hd
  exact (List.nodup_flatMap.mp hd).1 p hp

theorem head_subset {p : WalletUserEntry} : p.head ⊆ p.tokens :=
  fun _ h => tokens_perm.mem_iff.mpr (List.mem_append_left _ h)

theorem stakedTokens_subset {p : WalletUserEntry} : p.stakedTokens ⊆ p.tokens :=
  fun _ h => tokens_perm'.mem_iff.mpr (List.mem_append_left _ h)

theorem stakingCounted_subset {p : WalletUserEntry} : p.stakingCounted ⊆ p.tokens := by
  rw [WalletUserEntry.stakingCounted]
  split
  · exact head_subset
  · exact stakedTokens_subset

theorem pooledTokens_subset {p : WalletUserEntry} : p.pooledTokens ⊆ p.tokens :=
  List.subset_append_left _ _

theorem claimedTokens_subset {p : WalletUserEntry} : p.claimedTokens ⊆ p.tokens := fun t ht => by
  obtain ⟨x, hx, rfl⟩ := List.mem_map.mp ht
  refine List.mem_append_left _ ?_
  cases hs : p.supplies with
  | nil =>
    rw [hs, List.append_nil] at hx
    exact List.mem_append_right _ hx
  | cons u us => exact List.mem_append_left _ (by rw [WalletUserEntry.supplies] at hs; simp [hs])

theorem lendingCounted_subset {c : ChainUserEntry} :
    c.lendingCounted ⊆ c.lending.flatMap WalletUserEntry.tokens := fun _ h =>
  (lendingTokens_perm c.lending).mem_iff.mpr (append_subset (append_subset flatten_replicate_subset
    flatten_replicate_subset) (List.Subset.refl _) h)

theorem places_left {l r : List UserToken} (hd : ((l ++ r).map UserToken.place).Nodup) :
    (l.map UserToken.place).Nodup := by
  rw [List.map_append] at hd
  exact hd.of_append_left

theorem places_right {l r : List UserToken} (hd : ((l ++ r).map UserToken.place).Nodup) :
    (r.map UserToken.place).Nodup := by
  rw [List.map_append] at hd
  exact hd.of_append_right

theorem once_chain {c : ChainUserEntry} (hd : (c.tokens.map UserToken.place).Nodup) :
    Once c.counted c.tokens ↔ c.CountsOnce := by
  rw [tokensByKind_eq, ChainUserEntry.tokensByKind] at hd ⊢
  rw [Once, CoveredOnce.congr_perm (counted_perm c) (.refl _), ChainUserEntry.countedByKind]
  -- one kind of positions at a time, from the last one on
  have hd₁ := places_right hd
  have hd₂ := places_right hd₁
  have hd₃ := places_right hd₂
  have hd₄ := places_right hd₃
  have h₅ : c.lendingCounted ++ [] ⊆ _ := append_subset lendingCounted_subset
    (List.nil_subset (c.positions.others.flatMap WalletUserEntry.tokens))
  have h₄ : c.delegation.flatMap _ ++ _ ⊆ _ := append_subset
    (flatMap_subset (f := WalletUserEntry.head) fun _ => head_subset) h₅
  have h₃ : c.claimable.flatMap _ ++ _ ⊆ _ := append_subset
    (flatMap_subset (f := WalletUserEntry.claimedTokens) fun _ => claimedTokens_subset) h₄
  have h₂ : c.pools.flatMap _ ++ _ ⊆ _ := append_subset
    (flatMap_subset (f := WalletUserEntry.pooledTokens) fun _ => pooledTokens_subset) h₃
  rw [coveredOnce_append hd (flatMap_subset fun _ => stakingCounted_subset) h₂,
    coveredOnce_append hd₁ (flatMap_subset fun _ => pooledTokens_subset) h₃,
    coveredOnce_append hd₂ (flatMap_subset fun _ => claimedTokens_subset) h₄,
    coveredOnce_append hd₃ (flatMap_subset fun _ => head_subset) h₅,
    coveredOnce_append hd₄ lendingCounted_subset (List.nil_subset _), coveredOnce_nil,
    worthless_iff, worthless_flatMap, ChainUserEntry.countsOnce_iff]
  refine and_congr (once_flatMap (fun _ => stakingCounted_subset) (fun _ => once_staking)
      (places_left hd)) <|
    and_congr (once_flatMap (fun _ => pooledTokens_subset) (fun _ => once_pooled)
      (places_left hd₁)) <|
    and_congr (once_flatMap (fun _ => claimedTokens_subset) (fun _ => once_claimed)
      (places_left hd₂)) <|
    and_congr (once_flatMap (fun _ => head_subset) (fun _ => once_head) (places_left hd₃)) ?_
  rw [← and_assoc]
  exact and_congr_left fun _ => once_lending (places_left hd₄)

theorem countedByKind_subset {c : ChainUserEntry} : c.countedByKind ⊆ c.tokensByKind :=
  append_subset (flatMap_subset fun _ => stakingCounted_subset)
    (append_subset (flatMap_subset fun _ => pooledTokens_subset)
      (append_subset (flatMap_subset fun _ => claimedTokens_subset)
        (append_subset (flatMap_subset fun _ => head_subset)
          (append_subset lendingCounted_subset (List.nil_subset _)))))

theorem counted_subset {c : ChainUserEntry} : c.counted ⊆ c.tokens := fun _ h =>
  tokensByKind_eq ▸ countedByKind_subset ((counted_perm c).mem_iff.mp h)

theorem ledger_subset {c : ChainUserEntry} {f : FeatureEnum} : c.ledger f ⊆ c.tokens := fun _ h =>
  counted_subset (List.mem_flatMap.mpr ⟨f, by cases f <;> decide, h⟩)

/-! ## Single amounts -/

theorem tokens_eq (r : UserEntryResponse) : r.tokens = r.chains.flatMap ChainUserEntry.tokens := by
  rw [UserEntryResponse.chains, List.flatMap_assoc]
  rfl

theorem chains_only {r : UserEntryResponse} {place : Nat} :
    (r.only place).chains = r.chains.map (·.mapTokens (·.only place)) := by
  rw [UserEntryResponse.chains, UserEntryResponse.chains, UserEntryResponse.only, List.flatMap_map,
    List.map_flatMap]
  rfl

theorem cells_only {r : UserEntryResponse} {place : Nat} :
    (r.only place).cells = r.cells.map (·.map (·.only place)) := by
  have hledger (c : ChainUserEntry) : (c.mapTokens (·.only place)).ledger =
      fun f => (c.ledger f).map (·.only place) :=
    funext (ledger_mapTokens fun _ => unlockTime_only)
  simp only [UserEntryResponse.cells, chains_only, List.flatMap_map, List.map_flatMap, List.map_map,
    Function.comp_def, hledger]

/-- Of the tokens counted in a total, only those of one place are left. -/
theorem worth_only {all ts : List UserToken} {t : UserToken}
    (hd : (all.map UserToken.place).Nodup) (hs : ts ⊆ all) (ht : t ∈ all) :
    worth (ts.map (·.only t.place)) = ((ts.map UserToken.place).count t.place : ℚ) * t.value := by
  induction ts with
  | nil => simp
  | cons u ts ih =>
    obtain ⟨hu, hs⟩ := List.cons_subset.mp hs
    rw [List.map_cons, worth_cons, ih hs, List.map_cons, List.count_cons, UserToken.only]
    by_cases hp : u.place = t.place
    · obtain rfl := List.inj_on_of_nodup_map hd hu ht hp
      simp [add_mul, add_comm]
    · simp [hp]

theorem succeeds_only {r : UserEntryResponse} (hr : ∀ c ∈ r.chains, c.Convertible) (place : Nat) :
    Succeeds (toV2Response (r.only place)) := by
  refine succeeds_toV2Response.mpr fun c hc => ?_
  rw [chains_only] at hc
  obtain ⟨c', hc', rfl⟩ := List.mem_map.mp hc
  exact convertible_mapTokens.mpr (hr c' hc')

theorem cells_subset {r : UserEntryResponse} {ts : List UserToken} (hts : ts ∈ r.cells) :
    ts ⊆ r.tokens := by
  obtain ⟨c, hc, hts⟩ := List.mem_flatMap.mp hts
  obtain ⟨f, -, rfl⟩ := List.mem_map.mp hts
  rw [tokens_eq]
  exact fun u hu => List.mem_flatMap.mpr ⟨c, hc, ledger_subset hu⟩

theorem countedOnce_iff {r : UserEntryResponse} (hr : ∀ c ∈ r.chains, c.Convertible)
    {t : UserToken} (ht : t ∈ r.tokens) (hv : t.value ≠ 0) :
    CountedOnce r t ↔
      ((r.chains.flatMap ChainUserEntry.counted).map UserToken.place).count t.place = 1 := by
  have htotals : (r.only t.place).cells.map worth =
      (r.cells.map fun ts => (ts.map UserToken.place).count t.place).map fun n : Nat =>
        (n : ℚ) * t.value := by
    rw [cells_only, List.map_map, List.map_map]
    exact List.map_congr_left fun ts hts => worth_only r.places (cells_subset hts) ht
  have hcount : (r.cells.map fun ts => (ts.map UserToken.place).count t.place).sum =
      ((r.chains.flatMap ChainUserEntry.counted).map UserToken.place).count t.place := by
    have hflat : r.chains.flatMap ChainUserEntry.counted = r.cells.flatten := by
      rw [UserEntryResponse.cells, List.flatMap_def, List.flatMap_def, List.flatten_flatten,
        List.map_map]
      rfl
    rw [hflat, List.map_flatten, List.count_flatten, List.map_map]
    rfl
  obtain ⟨out, hout⟩ := succeeds_only hr t.place
  rw [← hcount, ← filter_multiples_eq_singleton hv, ← htotals, ← (toV2Response_eq_ok hout).2.2]
  constructor
  · rintro ⟨out', hout', h⟩
    rw [hout] at hout'
    cases hout'
    exact h
  · exact fun h => ⟨out, hout, h⟩

theorem sum_ite_place {all : List UserToken} (hd : (all.map UserToken.place).Nodup)
    {t : UserToken} (ht : t ∈ all) (v : ℚ) :
    (all.map fun u => if t.place = u.place then v else 0).sum = v := by
  induction all with
  | nil => exact nomatch ht
  | cons u us ih =>
    rw [List.map_cons, List.nodup_cons] at hd
    rw [List.map_cons, List.sum_cons]
    rcases List.mem_cons.mp ht with rfl | ht
    · rw [if_pos rfl, List.sum_eq_zero, add_zero]
      intro x hx
      obtain ⟨u, hu, rfl⟩ := List.mem_map.mp hx
      exact if_neg fun h => hd.1 (List.mem_map.mpr ⟨u, hu, h.symm⟩)
    · rw [ih hd.2 ht, if_neg fun h => hd.1 (List.mem_map.mpr ⟨t, ht, h⟩), zero_add]

theorem worth_eq_sum_only {all ts : List UserToken} (hd : (all.map UserToken.place).Nodup)
    (hs : ts ⊆ all) : worth ts = (all.map fun u => worth (ts.map (·.only u.place))).sum := by
  induction ts with
  | nil => simp
  | cons t ts ih =>
    obtain ⟨ht, hs⟩ := List.cons_subset.mp hs
    have hvalue (u : UserToken) :
        (t.only u.place).value = if t.place = u.place then t.value else 0 := by
      rw [UserToken.only]; split <;> rfl
    simp only [List.map_cons, worth_cons, List.sum_map_add, hvalue]
    rw [sum_ite_place hd ht, ← ih hs]

/-- What the amounts are counted for, each on its own, adds up to the totals. -/
theorem featureTotals_eq_sum_only {r : UserEntryResponse} {out : IntegrationsResponseV2}
    (h : toV2Response r = .ok out) : ∃ parts : UserToken → IntegrationsResponseV2,
      (∀ t, toV2Response (r.only t.place) = .ok (parts t)) ∧
        ∀ i, out.featureTotals.getD i 0 =
          (r.tokens.map fun t => (parts t).featureTotals.getD i 0).sum := by
  have hr := succeeds_toV2Response.mp ⟨out, h⟩
  have hparts (t : UserToken) : Succeeds (toV2Response (r.only t.place)) :=
    succeeds_only hr t.place
  choose parts hparts using hparts
  refine ⟨parts, hparts, fun i => ?_⟩
  simp only [(toV2Response_eq_ok h).2.2, (toV2Response_eq_ok (hparts _)).2.2, cells_only,
    List.getD_eq_getElem?_getD, List.getElem?_map, Option.map_map]
  cases hts : r.cells[i]? with
  | none => simp
  | some ts => exact worth_eq_sum_only r.places (cells_subset (List.mem_of_getElem? hts))

/-! ## Balances -/

namespace ChainUserEntry
variable (c : ChainUserEntry)

/-- The value of the locked positions. -/
def lockedWorth : ℚ := worth ((c.staking.filter (·.locked)).flatMap WalletUserEntry.tokens)

/-- The value of the positions under features that the converted chain does not list. -/
def unlistedWorth : ℚ :=
  (if .staking ∈ c.features then 0
    else worth ((c.staking.filter (!·.locked)).flatMap WalletUserEntry.tokens)) +
  (if .pools ∈ c.features then 0 else worth (c.pools.flatMap WalletUserEntry.tokens)) +
  (if .claimable ∈ c.features ∨ c.positions.lending.isSome then 0
    else worth (c.claimable.flatMap WalletUserEntry.tokens)) +
  (if .delegation ∈ c.features then 0 else worth (c.delegation.flatMap WalletUserEntry.tokens))

end ChainUserEntry

theorem worth_eq_zero {tokens : List UserToken} (h : Worthless tokens) : worth tokens = 0 := by
  refine List.sum_eq_zero fun v hv => ?_
  obtain ⟨t, ht, rfl⟩ := List.mem_map.mp hv
  exact h t ht

theorem worth_perm {ts us : List UserToken} (h : ts.Perm us) : worth ts = worth us :=
  (h.map UserToken.value).sum_eq

theorem worth_flatMap_congr {ps : List WalletUserEntry} {f g : WalletUserEntry → List UserToken}
    (h : ∀ p ∈ ps, worth (f p) = worth (g p)) : worth (ps.flatMap f) = worth (ps.flatMap g) := by
  rw [worth, worth, sum_map_flatMap, sum_map_flatMap]
  exact congrArg List.sum (List.map_congr_left h)

/-- What is left out is worth nothing. -/
theorem worth_tokens {p : WalletUserEntry} {counted left : List UserToken}
    (hp : p.tokens.Perm (counted ++ left)) (h : Worthless left) :
    worth counted = worth p.tokens := by
  rw [worth_perm hp, worth_append, worth_eq_zero h, add_zero]

theorem worth_claimed {p : WalletUserEntry} (h : p.ClaimedOnce) :
    worth p.claimedTokens = worth p.tokens := by
  have htokens : p.tokens = p.supplies ++ p.rewards ++ p.borrows := rfl
  rw [WalletUserEntry.ClaimedOnce] at h
  rw [htokens, WalletUserEntry.claimedTokens]
  cases hs : p.supplies with
  | nil =>
    rw [hs] at h
    rw [List.append_nil, List.nil_append, worth_append, worth_eq_zero h, add_zero]
    exact congrArg worth (List.map_id'' (fun _ => rfl) _)
  | cons t ts =>
    rw [hs] at h
    obtain ⟨ht, hrest⟩ := h
    have htotal : worth (t :: ts ++ p.rewards ++ p.borrows) = t.value := by
      rw [List.append_assoc, List.cons_append, worth_cons, ← List.append_assoc,
        worth_eq_zero hrest, add_zero]
    rw [htotal]
    rcases ht with ht | ht
    · rw [ht]
      refine worth_eq_zero fun u hu => ?_
      obtain ⟨x, -, rfl⟩ := List.mem_map.mp hu
      exact ht
    · obtain ⟨rfl, hr⟩ := List.append_eq_nil_iff.mp ht
      rw [hr]
      exact (worth_cons).trans (add_zero _)

theorem sum_listed {l : List FeatureEnum} (hl : l.Nodup) (g : FeatureEnum → ℚ) :
    (l.map g).sum = (FeatureEnum.all.map fun f => if f ∈ l then g f else 0).sum := by
  have hperm : l.Perm (FeatureEnum.all.filter (· ∈ l)) := by
    refine (List.perm_ext_iff_of_nodup hl (List.Nodup.filter _ (by decide))).mpr fun f => ?_
    have hall : f ∈ FeatureEnum.all := by cases f <;> decide
    simp [hall]
  have hfilter (fs : List FeatureEnum) : ((fs.filter (· ∈ l)).map g).sum =
      (fs.map fun f => if f ∈ l then g f else 0).sum := by
    induction fs with
    | nil => rfl
    | cons f fs ih => by_cases hf : f ∈ l <;> simp [hf, ih]
  rw [(hperm.map g).sum_eq, hfilter]

theorem mem_listed {c : ChainUserEntry} {f : PlatformFeature} :
    f.toV2 ∈ c.listed ↔ f ∈ c.features ∨ f = .claimable ∧ c.positions.lending.isSome := by
  rw [ChainUserEntry.listed, unique_eq_fresh, mem_fresh, List.mem_append, mem_listedFirst]
  cases f <;> cases c.positions.lending <;> simp [PlatformFeature.toV2]

theorem nodup_listed {c : ChainUserEntry} : c.listed.Nodup := nodup_unique _

/-- A feature that is not listed although something is counted for it. -/
theorem unlisted_eq {P Q : Prop} [Decidable P] [Decidable Q] {x y : ℚ} (h : P ↔ Q)
    (hxy : ¬ Q → x = y) : x - (if P then x else 0) = if Q then 0 else y := by
  by_cases hQ : Q
  · rw [if_pos hQ, if_pos (h.mpr hQ), sub_self]
  · rw [if_neg hQ, if_neg (mt h.mp hQ), sub_zero, hxy hQ]

theorem worth_ledger_eq_zero {c : ChainUserEntry} {f : FeatureEnum}
    (hf : f = .lending ∨ f = .borrowing ∨ f = .lockedBalances) (h : f ∉ c.listed) :
    worth (c.ledger f) = 0 := by
  rw [ChainUserEntry.listed, unique_eq_fresh, mem_fresh, List.mem_append] at h
  rcases hf with rfl | rfl | rfl
  · have hcount : c.features.count .lending = 0 :=
      List.count_eq_zero.mpr fun hm => h ⟨.inl (mem_listedFirst.mpr hm), by simp⟩
    rw [ChainUserEntry.ledger, hcount]
    rfl
  · have hnone : c.positions.lending = none := by
      cases hl : c.positions.lending with
      | none => rfl
      | some ps => exact absurd ⟨.inr (by simp [hl]), by simp⟩ h
    rw [ChainUserEntry.ledger, ChainUserEntry.lending, hnone]
    rfl
  · have hfilter : c.staking.filter (·.locked) = [] := by
      refine List.filter_eq_nil_iff.mpr fun p hp hlocked => h ⟨.inl ?_, by simp⟩
      refine List.mem_append_right _ ?_
      rw [stakingListed, if_pos (List.any_eq_true.mpr ⟨p, hp, hlocked⟩)]
      exact List.mem_singleton_self _
    rw [ChainUserEntry.ledger, stakingLedger, hfilter]
    rfl

/-- The locked balances are missing in the total, the features that are not listed in the sum. -/
theorem chain_balance {c : ChainUserEntry} (h : c.CountsOnce) :
    c.ledger.net - c.listedWorth = c.unlistedWorth - c.lockedWorth := by
  have hstaking : worth (c.ledger .staking) =
      worth ((c.staking.filter (!·.locked)).flatMap WalletUserEntry.tokens) :=
    worth_flatMap_congr fun p hp =>
      worth_tokens tokens_perm' (h.staking p (List.mem_of_mem_filter hp)).1
  have hlocked : worth (c.ledger .lockedBalances) = c.lockedWorth :=
    worth_flatMap_congr fun p hp => by
      obtain ⟨hmem, hp⟩ := List.mem_filter.mp hp
      obtain ⟨hrest, hrewards⟩ := h.staking p hmem
      refine worth_tokens tokens_perm ?_
      simp only [worthless_append] at hrest ⊢
      exact ⟨⟨hrest.1, hrewards hp⟩, hrest.2⟩
  have hpools : worth (c.ledger .pools) = worth (c.pools.flatMap WalletUserEntry.tokens) :=
    worth_flatMap_congr fun p hp => worth_tokens (.refl _) (h.pools p hp)
  have hdelegation : worth (c.ledger .delegation) =
      worth (c.delegation.flatMap WalletUserEntry.tokens) :=
    worth_flatMap_congr fun p hp => worth_tokens tokens_perm (h.delegation p hp)
  have hclaimable (hnone : ¬ (.claimable ∈ c.features ∨ c.positions.lending.isSome)) :
      worth (c.ledger .claimable) = worth (c.claimable.flatMap WalletUserEntry.tokens) := by
    have hlending : c.lending = [] := by
      rw [ChainUserEntry.lending]
      cases hl : c.positions.lending with
      | none => rfl
      | some ps => exact absurd (.inr (by rw [hl]; rfl)) hnone
    rw [ChainUserEntry.ledger, hlending, List.flatMap_nil, List.flatten_replicate_nil,
      List.append_nil]
    exact worth_flatMap_congr fun p hp => worth_claimed (h.claimable p hp)
  have hkept {f : FeatureEnum} (hf : f = .lending ∨ f = .borrowing ∨ f = .lockedBalances) :
      (if f ∈ c.listed then worth (c.ledger f) else 0) = worth (c.ledger f) :=
    ite_eq_left_iff.mpr fun hn => (worth_ledger_eq_zero hf hn).symm
  have hlisted {f : PlatformFeature} (hf : f ≠ .claimable) : f.toV2 ∈ c.listed ↔ f ∈ c.features :=
    mem_listed.trans (or_iff_left fun h => hf h.1)
  have hlistedClaimable : FeatureEnum.claimable ∈ c.listed ↔
      .claimable ∈ c.features ∨ c.positions.lending.isSome :=
    (mem_listed (f := .claimable)).trans (by rw [eq_self_iff_true, true_and])
  have estaking := unlisted_eq (P := .staking ∈ c.listed) (hlisted (f := .staking) (by decide))
    fun _ => hstaking
  have epools := unlisted_eq (P := .pools ∈ c.listed) (hlisted (f := .pools) (by decide))
    fun _ => hpools
  have edelegation := unlisted_eq (P := .delegation ∈ c.listed)
    (hlisted (f := .delegation) (by decide)) fun _ => hdelegation
  have eclaimable := unlisted_eq hlistedClaimable hclaimable
  have hborrowing : (if .borrowing ∈ c.listed then -worth (c.ledger .borrowing) else 0) =
      -worth (c.ledger .borrowing) :=
    ite_eq_left_iff.mpr fun hn => by rw [worth_ledger_eq_zero (.inr (.inl rfl)) hn, neg_zero]
  have hempty {f : FeatureEnum} (hf : c.ledger f = []) :
      (if f ∈ c.listed then worth (c.ledger f) else 0) = 0 := by
    rw [hf]
    exact ite_self _
  rw [ChainUserEntry.listedWorth, sum_listed nodup_listed, Ledger.net, ChainUserEntry.unlistedWorth,
    ← estaking, ← epools, ← eclaimable, ← edelegation, ← hlocked]
  simp only [FeatureEnum.all, List.map_cons, List.map_nil, List.sum_cons, List.sum_nil, sign,
    reduceCtorEq, if_false, if_true]
  rw [hkept (.inl rfl), hkept (.inr (.inr rfl)), hborrowing, hempty (f := .farming) rfl,
    hempty (f := .transactions) rfl, hempty (f := .health) rfl, hempty (f := .collateral) rfl]
  ring

/-! ## The law -/

namespace UserEntryResponse
variable (r : UserEntryResponse)

def lockedWorth : ℚ := (r.chains.map ChainUserEntry.lockedWorth).sum
def unlistedWorth : ℚ := (r.chains.map ChainUserEntry.unlistedWorth).sum

end UserEntryResponse

/-- Values are kept exactly when no position misses what is read of it, no token with a value is
left out or counted several times, and the locked positions, which are not in the total, are worth
as much as the positions under features that are not listed, which are in no listed feature. -/
theorem conserves_iff (r : UserEntryResponse) :
    Conserves r ↔ (∀ c ∈ r.chains, c.Convertible ∧ c.CountsOnce) ∧
      r.unlistedWorth = r.lockedWorth := by
  have honce (hr : ∀ c ∈ r.chains, c.Convertible) :
      (∀ t ∈ r.tokens, t.value ≠ 0 → CountedOnce r t) ↔ ∀ c ∈ r.chains, c.CountsOnce := by
    have hplaces : ((r.chains.flatMap ChainUserEntry.tokens).map UserToken.place).Nodup :=
      tokens_eq r ▸ r.places
    calc (∀ t ∈ r.tokens, t.value ≠ 0 → CountedOnce r t)
        ↔ Once (r.chains.flatMap ChainUserEntry.counted) r.tokens :=
          forall₂_congr fun t ht => forall_congr' fun hv => countedOnce_iff hr ht hv
      _ ↔ ∀ c ∈ r.chains, Once c.counted c.tokens := by
          rw [tokens_eq]
          exact coveredOnce_flatMap hplaces fun _ _ => counted_subset
      _ ↔ ∀ c ∈ r.chains, c.CountsOnce := by
          rw [List.map_flatMap] at hplaces
          exact forall₂_congr fun c hc => once_chain ((List.nodup_flatMap.mp hplaces).1 c hc)
  have hbalance (h : ∀ c ∈ r.chains, c.CountsOnce) {out : IntegrationsResponseV2}
      (hout : toV2Response r = .ok out) :
      out.total = out.listedTotal ↔ r.unlistedWorth = r.lockedWorth := by
    obtain ⟨ht, hl, -⟩ := toV2Response_eq_ok hout
    have hsum : out.total - out.listedTotal = r.unlistedWorth - r.lockedWorth := by
      rw [ht, hl, UserEntryResponse.unlistedWorth, UserEntryResponse.lockedWorth,
        sum_map_sub, sum_map_sub]
      exact congrArg List.sum (List.map_congr_left fun c hc => chain_balance (h c hc))
    rw [← sub_eq_zero, hsum, sub_eq_zero]
  constructor
  · rintro ⟨out, hout, htotal, hcounted⟩
    have hr := succeeds_toV2Response.mp ⟨out, hout⟩
    have hc := (honce hr).mp hcounted
    exact ⟨fun c hmem => ⟨hr c hmem, hc c hmem⟩, (hbalance hc hout).mp htotal⟩
  · rintro ⟨h, hworth⟩
    have hr : ∀ c ∈ r.chains, c.Convertible := fun c hc => (h c hc).1
    have hc : ∀ c ∈ r.chains, c.CountsOnce := fun c hc => (h c hc).2
    obtain ⟨out, hout⟩ := succeeds_toV2Response.mpr hr
    exact ⟨out, hout, (hbalance hc hout).mpr hworth, (honce hr).mpr hc⟩

/-! ## Locked balances -/

def lockedToken : UserToken where
  place := 0
  token := ⟨⟨"0x01", "Token", "TKN", 18, 1⟩, []⟩
  amount := 100
  value := 100
  tvl := 1000
  unlockTime := some 1700000000000
  apr := none
  apy := none
  isCollateral := false
  healthFactor := none

/-- One wallet with one position, which is staked and locked. -/
def lockedAnswer : UserEntryResponse where
  errors := []
  protocol := ⟨"Locked", [⟨1, "Ethereum", "eth"⟩]⟩
  wallets := [⟨"0xa0", [{
    positions := {
      staking := some [⟨"0x02::0", none, some [lockedToken], none, none, none, none⟩]
      pools := none
      claimable := none
      delegation := none
      lending := none
      others := [] }
    features := [.staking]
    chain := ⟨1, "Ethereum", "eth"⟩ }]⟩]
  places := by decide

/-- The locked balance is in the total of its feature and not in the total of the response. -/
theorem lockedAnswer_not_conserves : ¬ Conserves lockedAnswer := by
  rintro ⟨out, hout, htotal, -⟩
  obtain ⟨ht, hl, -⟩ := toV2Response_eq_ok hout
  rw [ht, hl] at htotal
  exact absurd htotal (by decide +kernel)

end V3Decorator
end Integration
end DefiBackend
