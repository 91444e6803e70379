import DefiBackend.Integration.V3Decorator.Conversion
import Mathlib.Algebra.BigOperators.Group.List.Lemmas
import Mathlib.Data.List.Count
import Mathlib.Tactic.MkIffOfInductiveProp
import Mathlib.Tactic.Ring

/-! # What the conversion counts

* `Ledger`: for each feature the tokens that are counted in its `totalValue`, as often as they are.
* `Counts`: a part of the conversion adds the tokens of a ledger to the totals and changes them in
  no other way; one lemma for each block.
* `toV2Chain_eq_ok` and `succeeds_toV2Chain`: the ledger of a chain, and when its conversion does
  not throw. -/

namespace DefiBackend
namespace Integration
namespace V3Decorator

open Theory

/-! ## Ledgers -/

def worth (tokens : List UserToken) : ℚ := (tokens.map UserToken.value).sum

@[simp] theorem worth_nil : worth [] = 0 := rfl

@[simp] theorem worth_cons {t : UserToken} {ts : List UserToken} :
    worth (t :: ts) = t.value + worth ts := List.sum_cons

@[simp] theorem worth_append {ts us : List UserToken} : worth (ts ++ us) = worth ts + worth us := by
  rw [worth, List.map_append, List.sum_append]; rfl

/-- `totalValue` of a feature, zero where there is no result. -/
def IntChainsData.totalOf (c : IntChainsData) (feature : FeatureEnum) : ℚ :=
  (c.results feature).elim 0 FeatureResult.totalValue

/-- The tokens counted for each feature. -/
abbrev Ledger := FeatureEnum → List UserToken

/-- How the total of the response counts a feature: locked balances do not count at all. -/
def sign : FeatureEnum → ℚ
  | .pools | .staking | .claimable | .lending | .delegation => 1
  | .borrowing => -1
  | _ => 0

/-- What a ledger is for the total. -/
def Ledger.net (L : Ledger) : ℚ := (FeatureEnum.all.map fun f => sign f * worth (L f)).sum

/-- A ledger with the tokens of one feature. -/
def Ledger.single (feature : FeatureEnum) (tokens : List UserToken) : Ledger :=
  fun f => if f = feature then tokens else []

theorem Ledger.net_append {L L' : Ledger} :
    Ledger.net (fun f => L f ++ L' f) = L.net + L'.net := by
  simp only [Ledger.net, worth_append, mul_add, List.sum_map_add]

theorem Ledger.net_empty : Ledger.net (fun _ => []) = 0 := by
  simp [Ledger.net]

theorem Ledger.net_single {feature : FeatureEnum} {tokens : List UserToken} :
    (Ledger.single feature tokens).net = sign feature * worth tokens := by
  cases feature <;> simp [Ledger.net, Ledger.single, FeatureEnum.all, sign]

/-! ## Counting -/

/-- From `p` to `p'` the features of `listed` are appended and the tokens of `L` are counted. -/
structure Counts (p p' : Progress) (listed : List FeatureEnum) (L : Ledger) : Prop where
  features : p'.chain.features = p.chain.features ++ listed
  total : p'.total = p.total + L.net
  totalOf : ∀ f, p'.chain.totalOf f = p.chain.totalOf f + worth (L f)

theorem Counts.refl {p : Progress} : Counts p p [] fun _ => [] :=
  ⟨(List.append_nil _).symm, by rw [Ledger.net_empty, add_zero], fun _ => (add_zero _).symm⟩

theorem Counts.trans {p₁ p₂ p₃ : Progress} {l l' : List FeatureEnum} {L L' : Ledger}
    (h : Counts p₁ p₂ l L) (h' : Counts p₂ p₃ l' L') :
    Counts p₁ p₃ (l ++ l') fun f => L f ++ L' f where
  features := by rw [h'.features, h.features, List.append_assoc]
  total := by rw [h'.total, h.total, Ledger.net_append, add_assoc]
  totalOf f := by rw [h'.totalOf, h.totalOf, worth_append, add_assoc]

theorem Counts.congr {p p' : Progress} {l l' : List FeatureEnum} {L L' : Ledger}
    (h : Counts p p' l L) (hl : l = l') (hL : ∀ f, L f = L' f) : Counts p p' l' L' :=
  hl ▸ (funext hL : L = L') ▸ h

theorem Counts.totalOf_eq_zero {p p' : Progress} {l : List FeatureEnum} {L : Ledger}
    {f : FeatureEnum} (h : Counts p p' l L) (h0 : p.chain.totalOf f = 0) (hL : L f = []) :
    p'.chain.totalOf f = 0 := by
  rw [h.totalOf, h0, hL, worth_nil, add_zero]

theorem counts_push {p : Progress} {features : List FeatureEnum} :
    Counts p { p with chain := p.chain.push features } features fun _ => [] :=
  ⟨rfl, by rw [Ledger.net_empty, add_zero], fun _ => (add_zero _).symm⟩

theorem totalOf_put {c : IntChainsData} {feature f : FeatureEnum} {r : FeatureResult} :
    (c.put feature r).totalOf f = if f = feature then r.totalValue else c.totalOf f := by
  by_cases h : f = feature <;> simp [IntChainsData.totalOf, IntChainsData.put, h]

theorem current_totalValue {c : IntChainsData} {feature : FeatureEnum} :
    (c.current feature).totalValue = c.totalOf feature := by
  rw [IntChainsData.current, IntChainsData.totalOf]
  cases c.results feature <;> rfl

/-- A result whose total is the old one and the tokens. -/
theorem counts_put {p p' : Progress} {feature : FeatureEnum} {tokens : List UserToken}
    {r : FeatureResult} (htotal : p'.total = p.total + sign feature * worth tokens)
    (hchain : p'.chain = p.chain.put feature r)
    (hr : r.totalValue = p.chain.totalOf feature + worth tokens) :
    Counts p p' [] (Ledger.single feature tokens) where
  features := by rw [hchain, List.append_nil]; rfl
  total := by rw [htotal, Ledger.net_single]
  totalOf f := by
    rw [hchain, totalOf_put, Ledger.single]
    by_cases h : f = feature
    · subst h; simp [hr]
    · simp [h]

@[simp] theorem Totals.addTruthy_eq {t : Totals} {value : ℚ} : t.addTruthy value = t.add value := by
  unfold Totals.addTruthy
  split
  · next h => subst h; simp [Totals.add, safelyAddDecimals]
  · rfl

@[simp] theorem Totals.add_add {t : Totals} {x y : ℚ} : (t.add x).add y = t.add (x + y) := by
  simp [Totals.add, safelyAddDecimals, add_assoc]

@[simp] theorem Totals.add_zero {t : Totals} : t.add 0 = t := by
  simp [Totals.add, safelyAddDecimals]

theorem Totals.foldl_add {w : α → List UserToken} {l : List α} {t : Totals} :
    l.foldl (fun t a => t.add (worth (w a))) t = t.add (worth (l.flatMap w)) := by
  induction l generalizing t with
  | nil => simp
  | cons a l ih => simp [ih]

theorem Totals.foldl_add_value {tokens : List UserToken} {t : Totals} :
    tokens.foldl (fun t a => t.add a.value) t = t.add (worth tokens) := by
  induction tokens generalizing t with
  | nil => simp
  | cons a l ih => simp [ih]

theorem Totals.addRewards_eq {t : Totals} {rewarded : List UserToken} :
    t.addRewards (rewarded.map rewardToV2) = t.add (worth rewarded) := by
  simp only [Totals.addRewards, List.foldl_map, Totals.addTruthy_eq, rewardToV2,
    Totals.foldl_add_value]

/-- The result of a feature, from items that are counted one after the other. -/
theorem counts_items {f : α → Except Exception β} {add : Totals → β → Totals}
    {w : α → List UserToken} (hf : ∀ t a b, f a = .ok b → add t b = t.add (worth (w a)))
    {l : List α} {items : List β} (h : l.mapM f = .ok items) {p : Progress} {feature : FeatureEnum}
    (h0 : p.chain.totalOf feature = 0) (hsign : sign feature = 1) {results : List Item} :
    Counts p (p.put feature (items.foldl add ⟨p.total, 0⟩) results) []
      (Ledger.single feature (l.flatMap w)) := by
  refine counts_put ?_ rfl ?_
  · rw [hsign, one_mul]
    simp only [Progress.put, foldl_of_mapM hf h, Totals.foldl_add]
    rfl
  · simp only [foldl_of_mapM hf h, Totals.foldl_add, h0]
    rfl

/-! ## Positions -/

namespace WalletUserEntry
variable (p : WalletUserEntry)

def supplies : List UserToken := p.supplied.getD []
def rewards : List UserToken := p.rewarded.getD []
def borrows : List UserToken := p.borrowed.getD []

/-- The first supplied token. -/
def head : List UserToken := p.supplies.take 1

/-- The first supplied token has an unlock time. -/
def locked : Bool := p.head.any fun t => t.unlockTime.any (· ≠ 0)

/-- What is counted of a position that is staked and not locked. -/
def stakedTokens : List UserToken := p.head ++ p.rewards

def pooledTokens : List UserToken := p.supplies ++ p.rewards

/-- The first supplied token, if there is one, stands for every token. -/
def claimedTokens : List UserToken := (p.rewards ++ p.supplies).map p.supplies.headD

end WalletUserEntry

theorem first_eq_ok {property : String} {p : WalletUserEntry} {t : UserToken} :
    first property p.supplied = .ok t ↔ p.head = [t] := by
  rw [WalletUserEntry.head, WalletUserEntry.supplies]
  rcases p.supplied with _ | _ | ⟨t', ts⟩
  · exact ⟨fun h => (nomatch h), fun h => (nomatch h)⟩
  · exact ⟨fun h => (nomatch h), fun h => (nomatch h)⟩
  · exact ⟨fun h => by cases h; rfl, fun h => by cases h; rfl⟩

theorem succeeds_first {property : String} {p : WalletUserEntry} :
    Succeeds (first property p.supplied) ↔ p.head ≠ [] := by
  simp only [Succeeds, first_eq_ok]
  rw [WalletUserEntry.head]
  cases p.supplies <;> simp

theorem deref_eq_ok {property : String} {o : Option α} {a : α} :
    deref property o = .ok a ↔ o = some a := by
  cases o with
  | none => exact ⟨fun h => (nomatch h), fun h => (nomatch h)⟩
  | some b => exact ⟨fun h => by cases h; rfl, fun h => by cases h; rfl⟩

theorem succeeds_deref {property : String} {o : Option α} :
    Succeeds (deref property o) ↔ o.isSome := by
  cases o <;> simp [deref]

theorem isLocked_eq_ok {p : WalletUserEntry} {b : Bool} (h : isLocked p = .ok b) :
    b = p.locked := by
  obtain ⟨t, ht, h⟩ := bind_eq_ok.mp h
  cases h
  rw [WalletUserEntry.locked, first_eq_ok.mp ht]
  simp

theorem splitLocked_eq_ok {ps : List WalletUserEntry}
    {split : List WalletUserEntry × List WalletUserEntry} (h : splitLocked ps = .ok split) :
    split = (ps.filter (·.locked), ps.filter (!·.locked)) := by
  induction ps generalizing split with
  | nil => cases h; rfl
  | cons p ps ih =>
    obtain ⟨b, hb, h⟩ := bind_eq_ok.mp h
    obtain ⟨split', hsplit, h⟩ := bind_eq_ok.mp h
    obtain rfl := isLocked_eq_ok hb
    obtain rfl := ih hsplit
    cases h
    cases hp : p.locked <;> simp [hp]

theorem succeeds_isLocked {p : WalletUserEntry} : Succeeds (isLocked p) ↔ p.head ≠ [] :=
  (succeeds_bind_of_forall fun _ => succeeds_pure).trans succeeds_first

theorem succeeds_splitLocked {ps : List WalletUserEntry} :
    Succeeds (splitLocked ps) ↔ ∀ p ∈ ps, p.head ≠ [] := by
  induction ps with
  | nil => simp [splitLocked]
  | cons p ps ih =>
    rw [splitLocked, List.forall_mem_cons, ← ih, ← succeeds_isLocked]
    exact succeeds_bind_bind fun _ _ => succeeds_pure

/-! ## Staking -/

theorem addStaking_eq {t : Totals} {p : WalletUserEntry} {item : StakingPosition}
    (h : stakingToV2 p = .ok item) : t.addStaking item = t.add (worth p.stakedTokens) := by
  obtain ⟨lpToken, hlp, h⟩ := bind_eq_ok.mp h
  cases h
  rw [Totals.addStaking, Totals.addRewards_eq, WalletUserEntry.stakedTokens, first_eq_ok.mp hlp]
  simp [WalletUserEntry.rewards]

theorem lockedTotal_eq {ps : List WalletUserEntry} {items : List LockedBalance}
    (h : ps.mapM lockedBalanceToV2 = .ok items) :
    lockedTotal items = worth (ps.flatMap WalletUserEntry.head) := by
  have hstep (x : ℚ) (p : WalletUserEntry) (item : LockedBalance)
      (h : lockedBalanceToV2 p = .ok item) :
      safelyAddDecimals x item.totalValue = x + worth p.head := by
    obtain ⟨t, ht, h⟩ := bind_eq_ok.mp h
    cases h
    simp [safelyAddDecimals, first_eq_ok.mp ht]
  have hfold (ps : List WalletUserEntry) (x : ℚ) :
      ps.foldl (fun x p => x + worth p.head) x = x + worth (ps.flatMap WalletUserEntry.head) := by
    induction ps generalizing x with
    | nil => simp
    | cons p ps ih => simp [ih, add_assoc]
  rw [lockedTotal, foldl_of_mapM hstep h, hfold, zero_add]

def stakingLedger (ps : List WalletUserEntry) : Ledger
  | .staking => (ps.filter (!·.locked)).flatMap WalletUserEntry.stakedTokens
  | .lockedBalances => (ps.filter (·.locked)).flatMap WalletUserEntry.head
  | _ => []

/-- Locked balances are listed where there are any. -/
def stakingListed (ps : List WalletUserEntry) : List FeatureEnum :=
  if ps.any (·.locked) then [.lockedBalances] else []

theorem counts_stakingBlock {p p' : Progress} {ps : List WalletUserEntry}
    (h : stakingBlock p ps = .ok p') (hs : p.chain.totalOf .staking = 0)
    (hl : p.chain.totalOf .lockedBalances = 0) :
    Counts p p' (stakingListed ps) (stakingLedger ps) := by
  obtain ⟨_, hsplit, h⟩ := bind_eq_ok.mp h
  obtain rfl := splitLocked_eq_ok hsplit
  obtain ⟨items, hitems, h⟩ := bind_eq_ok.mp h
  let p₁ := p.put .staking (items.foldl Totals.addStaking ⟨p.total, 0⟩) (items.map .staking)
  have hstaking : Counts p p₁ [] _ := counts_items (fun _ _ _ => addStaking_eq) hitems hs rfl
  have hl' : p₁.chain.totalOf .lockedBalances = 0 := by
    rw [hstaking.totalOf, hl, zero_add]; rfl
  by_cases hlocked : (ps.filter (·.locked)).length > 0
  · obtain ⟨balances, hbalances, h⟩ := bind_eq_ok.mp ((if_pos hlocked).symm.trans h)
    cases h
    let chain := p₁.chain.push [.lockedBalances]
    let r : FeatureResult := ⟨lockedTotal balances, balances.map .locked⟩
    have hr : r.totalValue = chain.totalOf .lockedBalances +
        worth ((ps.filter (·.locked)).flatMap WalletUserEntry.head) := by
      rw [show chain.totalOf .lockedBalances = 0 from hl', zero_add]
      exact lockedTotal_eq hbalances
    have hput : Counts ⟨p₁.total, chain⟩ ⟨p₁.total, chain.put .lockedBalances r⟩ [] _ :=
      counts_put (by rw [show sign .lockedBalances = 0 from rfl, zero_mul, add_zero]) rfl hr
    have hlisted : stakingListed ps = [.lockedBalances] := by
      obtain ⟨q, hq⟩ := List.exists_mem_of_length_pos hlocked
      exact if_pos (List.any_eq_true.mpr ⟨q, List.mem_filter.mp hq⟩)
    refine (hstaking.trans (counts_push.trans hput)).congr hlisted.symm fun f => ?_
    cases f <;> simp [stakingLedger, Ledger.single]
  · cases (if_neg hlocked).symm.trans h
    have hnone : ps.filter (·.locked) = [] := List.eq_nil_of_length_eq_zero (by omega)
    have hlisted : stakingListed ps = [] := if_neg fun h => by
      obtain ⟨q, hq⟩ := List.any_eq_true.mp h
      exact List.not_mem_nil (hnone ▸ List.mem_filter.mpr hq)
    refine hstaking.congr hlisted.symm fun f => ?_
    cases f <;> simp [stakingLedger, Ledger.single, hnone]

theorem succeeds_stakingToV2 {p : WalletUserEntry} : Succeeds (stakingToV2 p) ↔ p.head ≠ [] :=
  (succeeds_bind_of_forall fun _ => succeeds_pure).trans succeeds_first

theorem succeeds_lockedBalanceToV2 {p : WalletUserEntry} :
    Succeeds (lockedBalanceToV2 p) ↔ p.head ≠ [] :=
  (succeeds_bind_of_forall fun _ => succeeds_pure).trans succeeds_first

theorem succeeds_stakingBlock {p : Progress} {ps : List WalletUserEntry} :
    Succeeds (stakingBlock p ps) ↔ ∀ q ∈ ps, q.head ≠ [] := by
  rw [stakingBlock, succeeds_bind, ← succeeds_splitLocked]
  refine ⟨fun ⟨split, h, _⟩ => ⟨split, h⟩, fun ⟨split, h⟩ => ⟨split, h, ?_⟩⟩
  have hhead := succeeds_splitLocked.mp ⟨split, h⟩
  obtain rfl := splitLocked_eq_ok h
  obtain ⟨items, hitems⟩ : Succeeds ((ps.filter (!·.locked)).mapM stakingToV2) :=
    succeeds_mapM.mpr fun q hq => succeeds_stakingToV2.mpr (hhead q (List.mem_of_mem_filter hq))
  obtain ⟨balances, hbalances⟩ : Succeeds ((ps.filter (·.locked)).mapM lockedBalanceToV2) :=
    succeeds_mapM.mpr fun q hq =>
      succeeds_lockedBalanceToV2.mpr (hhead q (List.mem_of_mem_filter hq))
  refine succeeds_bind.mpr ⟨items, hitems, ?_⟩
  split
  · exact succeeds_bind.mpr ⟨balances, hbalances, succeeds_pure⟩
  · exact succeeds_pure

/-! ## Pools, claimable tokens and delegations -/

theorem addPool_eq {t : Totals} {p : WalletUserEntry} {item : LiquidityPool}
    (h : liquidityToV2 p = .ok item) : t.addPool item = t.add (worth p.pooledTokens) := by
  obtain ⟨supplied, hs, h⟩ := bind_eq_ok.mp h
  cases h
  have hr : (p.rewarded.map (·.map rewardToV2)).getD [] = p.rewards.map rewardToV2 := by
    rw [WalletUserEntry.rewards]
    cases p.rewarded <;> rfl
  rw [Totals.addPool, hr, Totals.addRewards_eq, WalletUserEntry.pooledTokens,
    WalletUserEntry.supplies, deref_eq_ok.mp hs]
  simp [List.foldl_map, Totals.foldl_add_value]

theorem counts_poolsBlock {p p' : Progress} {ps : List WalletUserEntry}
    (h : poolsBlock p ps = .ok p') (h0 : p.chain.totalOf .pools = 0) :
    Counts p p' [] (.single .pools (ps.flatMap WalletUserEntry.pooledTokens)) := by
  obtain ⟨items, hitems, h⟩ := bind_eq_ok.mp h
  cases h
  exact counts_items (fun _ _ _ => addPool_eq) hitems h0 rfl

theorem claimableToV2_eq_ok {p : WalletUserEntry} {x : UserToken} {item : ClaimableToken}
    (h : claimableToV2 { p with rewarded := some [x] } = .ok item) :
    item.claimableData.value = (p.supplies.headD x).value := by
  obtain ⟨supplied, hs, h⟩ := bind_eq_ok.mp h
  rw [WalletUserEntry.supplies, deref_eq_ok.mp hs]
  cases supplied <;> cases h <;> rfl

theorem addClaimable_eq {t : Totals} {p : WalletUserEntry} {items : List ClaimableToken}
    (h : claimableItems p = .ok items) :
    items.foldl Totals.addClaimable t = t.add (worth p.claimedTokens) := by
  obtain ⟨rewarded, hr, h⟩ := bind_eq_ok.mp h
  have hstep (t : Totals) (x : UserToken) (item : ClaimableToken)
      (h : claimableToV2 { p with rewarded := some [x] } = .ok item) :
      t.addClaimable item = t.add (p.supplies.headD x).value := by
    rw [Totals.addClaimable, claimableToV2_eq_ok h]
  rw [foldl_of_mapM hstep h, WalletUserEntry.claimedTokens, WalletUserEntry.rewards,
    deref_eq_ok.mp hr, ← Totals.foldl_add_value, List.foldl_map]
  rfl

theorem counts_claimableBlock {p p' : Progress} {ps : List WalletUserEntry}
    (h : claimableBlock p ps = .ok p') (h0 : p.chain.totalOf .claimable = 0) :
    Counts p p' [] (.single .claimable (ps.flatMap WalletUserEntry.claimedTokens)) := by
  obtain ⟨items, hitems, h⟩ := bind_eq_ok.mp h
  cases h
  rw [List.foldl_flatten]
  exact counts_items (fun _ _ _ => addClaimable_eq) hitems h0 rfl

theorem addDelegation_eq {t : Totals} {p : WalletUserEntry} {item : Delegation}
    (h : delegationToV2 p = .ok item) : t.addDelegation item = t.add (worth p.head) := by
  obtain ⟨supplied, hs, h⟩ := bind_eq_ok.mp h
  obtain ⟨rewarded, -, h⟩ := bind_eq_ok.mp h
  obtain ⟨validator, -, h⟩ := bind_eq_ok.mp h
  obtain ⟨supply, hsupply, h⟩ := bind_eq_ok.mp h
  obtain ⟨reward, -, h⟩ := bind_eq_ok.mp h
  cases h
  rw [WalletUserEntry.head, WalletUserEntry.supplies, deref_eq_ok.mp hs, Option.getD_some,
    List.take_one, deref_eq_ok.mp hsupply]
  simp [Totals.addDelegation]

theorem counts_delegationBlock {p p' : Progress} {ps : List WalletUserEntry}
    (h : delegationBlock p ps = .ok p') (h0 : p.chain.totalOf .delegation = 0) :
    Counts p p' [] (.single .delegation (ps.flatMap WalletUserEntry.head)) := by
  obtain ⟨items, hitems, h⟩ := bind_eq_ok.mp h
  cases h
  exact counts_items (fun _ _ _ => addDelegation_eq) hitems h0 rfl

theorem succeeds_poolsBlock {p : Progress} {ps : List WalletUserEntry} :
    Succeeds (poolsBlock p ps) ↔ ∀ q ∈ ps, q.supplied.isSome := by
  rw [poolsBlock, succeeds_bind_of_forall fun _ => succeeds_pure, succeeds_mapM]
  refine forall₂_congr fun q _ => ?_
  exact (succeeds_bind_of_forall fun _ => succeeds_pure).trans succeeds_deref

theorem succeeds_claimableToV2 {p : WalletUserEntry} {x : UserToken} :
    Succeeds (claimableToV2 { p with rewarded := some [x] }) ↔ p.supplied.isSome := by
  rw [claimableToV2, succeeds_bind_of_forall, succeeds_deref]
  rintro (_ | ⟨t, ts⟩)
  · exact ⟨_, rfl⟩
  · exact ⟨_, rfl⟩

/-- Without supplied tokens there must be no rewarded ones. -/
theorem succeeds_claimableItems {p : WalletUserEntry} :
    Succeeds (claimableItems p) ↔ p.rewarded.isSome ∧ (p.supplied.isSome ∨ p.rewards = []) := by
  rw [claimableItems, succeeds_bind]
  constructor
  · rintro ⟨rewarded, hr, h⟩
    have hsupplied := succeeds_mapM.mp h
    have hr := deref_eq_ok.mp hr
    refine ⟨Option.isSome_of_eq_some hr, ?_⟩
    rw [WalletUserEntry.rewards, hr]
    cases rewarded with
    | nil => exact .inr rfl
    | cons x xs => exact .inl (succeeds_claimableToV2.mp (hsupplied x (List.mem_cons_self ..)))
  · rintro ⟨hr, h⟩
    obtain ⟨rewarded, hr⟩ := Option.isSome_iff_exists.mp hr
    refine ⟨rewarded, deref_eq_ok.mpr hr, succeeds_mapM.mpr fun x hx => ?_⟩
    refine succeeds_claimableToV2.mpr (h.elim id fun h => ?_)
    rw [WalletUserEntry.rewards, hr] at h
    obtain rfl : rewarded = [] := h
    cases hs : p.supplied with
    | none => rw [hs] at hx; exact nomatch hx
    | some supplied => rfl

theorem succeeds_claimableBlock {p : Progress} {ps : List WalletUserEntry} :
    Succeeds (claimableBlock p ps) ↔
      ∀ q ∈ ps, q.rewarded.isSome ∧ (q.supplied.isSome ∨ q.rewards = []) := by
  rw [claimableBlock, succeeds_bind_of_forall fun _ => succeeds_pure, succeeds_mapM]
  exact forall₂_congr fun _ _ => succeeds_claimableItems

theorem succeeds_delegationToV2 {p : WalletUserEntry} :
    Succeeds (delegationToV2 p) ↔ p.head ≠ [] ∧ p.rewards ≠ [] ∧ p.meta.isSome := by
  rw [WalletUserEntry.head, WalletUserEntry.rewards, WalletUserEntry.supplies]
  constructor
  · rintro ⟨item, h⟩
    obtain ⟨supplied, hs, h⟩ := bind_eq_ok.mp h
    obtain ⟨rewarded, hr, h⟩ := bind_eq_ok.mp h
    obtain ⟨validator, hv, h⟩ := bind_eq_ok.mp h
    obtain ⟨supply, hsupply, h⟩ := bind_eq_ok.mp h
    obtain ⟨reward, hreward, h⟩ := bind_eq_ok.mp h
    rw [deref_eq_ok.mp hs, deref_eq_ok.mp hr, deref_eq_ok.mp hv, List.take_one, Option.getD_some,
      deref_eq_ok.mp hsupply]
    refine ⟨List.cons_ne_nil _ _, fun h => ?_, rfl⟩
    obtain rfl : rewarded = [] := h
    exact nomatch hreward
  · rintro ⟨hs, hr, hv⟩
    obtain ⟨validator, hv⟩ := Option.isSome_iff_exists.mp hv
    rcases hs' : p.supplied with _ | _ | ⟨t, ts⟩
    · exact absurd (by rw [hs']; rfl) hs
    · exact absurd (by rw [hs']; rfl) hs
    rcases hr' : p.rewarded with _ | _ | ⟨u, us⟩
    · exact absurd (by rw [hr']; rfl) hr
    · exact absurd (by rw [hr']; rfl) hr
    rw [delegationToV2, hs', hr', hv]
    exact ⟨_, rfl⟩

theorem succeeds_delegationBlock {p : Progress} {ps : List WalletUserEntry} :
    Succeeds (delegationBlock p ps) ↔
      ∀ q ∈ ps, q.head ≠ [] ∧ q.rewards ≠ [] ∧ q.meta.isSome := by
  rw [delegationBlock, succeeds_bind_of_forall fun _ => succeeds_pure, succeeds_mapM]
  exact forall₂_congr fun _ _ => succeeds_delegationToV2

/-! ## Lending -/

/-- What a lending position counts for a feature. -/
def WalletUserEntry.lent (p : WalletUserEntry) : FeatureEnum → List UserToken
  | .lending => p.supplies
  | .borrowing => p.borrows
  | .claimable => p.rewards
  | _ => []

theorem lendingToV2_eq_ok {tokens : Option (List UserToken)} {items : List LendingPosition}
    (h : lendingToV2 tokens = .ok items) :
    items.foldl (fun t item => safelyAddDecimals t item.value) 0 = worth (tokens.getD []) := by
  obtain ⟨ts, hts, h⟩ := bind_eq_ok.mp h
  cases h
  have hfold (ts : List UserToken) (x : ℚ) :
      ts.foldl (fun t item => t + item.value) x = x + worth ts := by
    induction ts generalizing x with
    | nil => simp
    | cons t ts ih => simp [ih, add_assoc]
  rw [List.foldl_map, deref_eq_ok.mp hts]
  exact (hfold ts 0).trans (zero_add _)

theorem counts_lendingSide {p p' : Progress} {feature : FeatureEnum}
    {tokens : Option (List UserToken)} (h : lendingSide p feature tokens = .ok p')
    (hf : feature = .lending ∨ feature = .borrowing) :
    Counts p p' [] (.single feature (tokens.getD [])) := by
  obtain ⟨items, hitems, h⟩ := bind_eq_ok.mp h
  cases h
  refine counts_put ?_ rfl ?_
  · rw [lendingToV2_eq_ok hitems]
    rcases hf with rfl | rfl <;> simp [safelyAddDecimals, sign]
  · rw [lendingToV2_eq_ok hitems, current_totalValue]
    split
    · next h => rw [h, zero_add]
    · rfl

theorem counts_lendingStep {p p' : Progress} {feature : FeatureEnum} {position : WalletUserEntry}
    (h : lendingStep feature p position = .ok p') (h0 : p.chain.totalOf .health = 0) :
    Counts p p' [] (.single feature (position.lent feature)) := by
  cases feature with
  | lending => exact counts_lendingSide h (.inl rfl)
  | borrowing => exact counts_lendingSide h (.inr rfl)
  | claimable =>
    cases h
    have hfold : ((position.rewarded.getD []).map lendingRewardToV2).foldl Totals.addClaimable
        ⟨p.total, (p.chain.current .claimable).totalValue⟩ =
          Totals.add ⟨p.total, p.chain.totalOf .claimable⟩ (worth position.rewards) := by
      rw [List.foldl_map, current_totalValue, ← Totals.foldl_add_value]
      rfl
    refine counts_put ?_ rfl ?_
    · rw [Progress.put, hfold, show sign .claimable = 1 from rfl, one_mul]
      rfl
    · rw [hfold]
      rfl
  | health =>
    cases h
    exact counts_put (by simp [WalletUserEntry.lent]) rfl (by simp [h0, WalletUserEntry.lent])
  | pools | staking | farming | transactions | lockedBalances | collateral | delegation =>
    cases h
    exact Counts.refl.congr rfl fun f => (ite_self _).symm

/-- A fold adds what its steps add; it never counts anything for the health factors. -/
theorem counts_foldlM {f : Progress → α → Except Exception Progress} {L : α → Ledger}
    (hf : ∀ p p' a, f p a = .ok p' → p.chain.totalOf .health = 0 → Counts p p' [] (L a))
    (hL : ∀ a, L a .health = []) {l : List α} {p p' : Progress} (h : l.foldlM f p = .ok p')
    (h0 : p.chain.totalOf .health = 0) :
    Counts p p' [] fun feature => l.flatMap fun a => L a feature := by
  induction l generalizing p with
  | nil => cases h; exact Counts.refl
  | cons a l ih =>
    rw [List.foldlM_cons] at h
    obtain ⟨p₁, h₁, h⟩ := bind_eq_ok.mp h
    have hstep := hf p p₁ a h₁ h0
    refine hstep.trans (ih h ?_)
    rw [hstep.totalOf, h0, hL, worth_nil, add_zero]

theorem flatMap_ite_eq [DecidableEq κ] {features : List κ} {f : κ} {tokens : κ → List α} :
    (features.flatMap fun feature => if f = feature then tokens feature else []) =
      (List.replicate (features.count f) (tokens f)).flatten := by
  induction features with
  | nil => rfl
  | cons feature features ih =>
    by_cases h : feature = f
    · subst h; simp [ih, List.replicate_succ]
    · simp [ih, h, Ne.symm h]

theorem single_health {feature : FeatureEnum} {tokens : List UserToken}
    (h : feature = .health → tokens = []) : Ledger.single feature tokens .health = [] := by
  rw [Ledger.single]
  split
  · next hf => exact h hf.symm
  · rfl

/-- Each feature is counted as often as it is listed. -/
def lendingLedger (features : List FeatureEnum) (ps : List WalletUserEntry) : Ledger := fun f =>
  (List.replicate (features.count f) (ps.flatMap (·.lent f))).flatten

theorem counts_lendingBlock {p p' : Progress} {ps : List WalletUserEntry}
    (h : lendingBlock p ps = .ok p') (h0 : p.chain.totalOf .health = 0) :
    Counts p p' [.claimable, .borrowing, .health]
      (lendingLedger (p.chain.features ++ [.claimable, .borrowing, .health]) ps) := by
  have hpositions (p p' : Progress) (feature : FeatureEnum)
      (h : ps.foldlM (lendingStep feature) p = .ok p') (h0 : p.chain.totalOf .health = 0) :
      Counts p p' [] (.single feature (ps.flatMap (·.lent feature))) := by
    have hfold := counts_foldlM (f := lendingStep feature)
      (L := fun q => .single feature (q.lent feature)) (fun _ _ _ => counts_lendingStep)
      (fun q => single_health fun h => by rw [h]; rfl) h h0
    refine hfold.congr rfl fun f => ?_
    by_cases hf : f = feature <;> simp [Ledger.single, hf]
  have hfeatures := counts_foldlM (f := fun p feature => ps.foldlM (lendingStep feature) p)
    (L := fun feature => .single feature (ps.flatMap (·.lent feature))) hpositions
    (fun feature => single_health fun h => by rw [h]; simp [WalletUserEntry.lent]) h h0
  exact (counts_push.trans hfeatures).congr rfl fun f => flatMap_ite_eq

theorem succeeds_lendingToV2 {tokens : Option (List UserToken)} :
    Succeeds (lendingToV2 tokens) ↔ tokens.isSome :=
  (succeeds_bind_of_forall fun _ => succeeds_pure).trans succeeds_deref

/-- A lending position has the side that a feature is about. -/
def WalletUserEntry.HasSide (p : WalletUserEntry) : FeatureEnum → Prop
  | .lending => p.supplied.isSome
  | .borrowing => p.borrowed.isSome
  | _ => True

theorem succeeds_lendingStep {p : Progress} {feature : FeatureEnum} {position : WalletUserEntry} :
    Succeeds (lendingStep feature p position) ↔ position.HasSide feature := by
  cases feature with
  | lending | borrowing =>
    exact (succeeds_bind_of_forall fun _ => succeeds_pure).trans succeeds_lendingToV2
  | _ => exact iff_of_true succeeds_pure trivial

theorem succeeds_lendingBlock {p : Progress} {ps : List WalletUserEntry} :
    Succeeds (lendingBlock p ps) ↔
      ∀ feature ∈ p.chain.features ++ [.claimable, .borrowing, .health], ∀ q ∈ ps,
        q.HasSide feature :=
  succeeds_foldlM (f := fun p feature => ps.foldlM (lendingStep feature) p) fun _ feature =>
    succeeds_foldlM (f := lendingStep feature) fun _ _ => succeeds_lendingStep

/-! ## Chains -/

/-- Without positions nothing is counted. -/
theorem counts_block {run : Progress → List WalletUserEntry → Except Exception Progress}
    {positions : Option (List WalletUserEntry)} {p p' : Progress}
    {l : List WalletUserEntry → List FeatureEnum} {L : List WalletUserEntry → Ledger}
    (hrun : ∀ ps, run p ps = .ok p' → Counts p p' (l ps) (L ps)) (hl : l [] = [])
    (hL : ∀ f, L [] f = []) (h : block run positions p = .ok p') :
    Counts p p' (l (positions.getD [])) (L (positions.getD [])) := by
  cases positions with
  | none => cases h; exact Counts.refl.congr hl.symm fun f => (hL f).symm
  | some ps => exact hrun ps h

theorem succeeds_block {run : Progress → List WalletUserEntry → Except Exception Progress}
    {positions : Option (List WalletUserEntry)} {p : Progress} {P : WalletUserEntry → Prop}
    (hrun : ∀ ps, Succeeds (run p ps) ↔ ∀ q ∈ ps, P q) :
    Succeeds (block run positions p) ↔ ∀ q ∈ positions.getD [], P q := by
  cases positions with
  | none => exact iff_of_true succeeds_pure fun _ h => nomatch h
  | some ps => exact hrun ps

namespace ChainUserEntry
variable (c : ChainUserEntry)

def staking : List WalletUserEntry := c.positions.staking.getD []
def pools : List WalletUserEntry := c.positions.pools.getD []
def claimable : List WalletUserEntry := c.positions.claimable.getD []
def delegation : List WalletUserEntry := c.positions.delegation.getD []
def lending : List WalletUserEntry := c.positions.lending.getD []

/-- The features on the way, as the lending positions find them. -/
def listedFirst : List FeatureEnum :=
  c.features.map PlatformFeature.toV2 ++ stakingListed c.staking

/-- The features the converted chain lists. -/
def listed : List FeatureEnum :=
  unique (c.listedFirst ++
    if c.positions.lending.isSome then [.claimable, .borrowing, .health] else [])

/-- What is counted for each feature. -/
def ledger : Ledger
  | .staking => stakingLedger c.staking .staking
  | .lockedBalances => stakingLedger c.staking .lockedBalances
  | .pools => c.pools.flatMap WalletUserEntry.pooledTokens
  | .claimable =>
    c.claimable.flatMap WalletUserEntry.claimedTokens ++
      (List.replicate (c.features.count .claimable + 1)
        (c.lending.flatMap WalletUserEntry.rewards)).flatten
  | .delegation => c.delegation.flatMap WalletUserEntry.head
  | .lending =>
    (List.replicate (c.features.count .lending)
      (c.lending.flatMap WalletUserEntry.supplies)).flatten
  | .borrowing => c.lending.flatMap WalletUserEntry.borrows
  | _ => []

/-- The conversion reads no property of `undefined`. -/
@[mk_iff]
structure Convertible : Prop where
  staking : ∀ p ∈ c.staking, p.head ≠ []
  pools : ∀ p ∈ c.pools, p.supplied.isSome
  claimable : ∀ p ∈ c.claimable, p.rewarded.isSome ∧ (p.supplied.isSome ∨ p.rewards = [])
  delegation : ∀ p ∈ c.delegation, p.head ≠ [] ∧ p.rewards ≠ [] ∧ p.meta.isSome
  lending : ∀ p ∈ c.lending, p.borrowed.isSome ∧ (.lending ∈ c.features → p.supplied.isSome)

end ChainUserEntry

theorem toV2_injective : Function.Injective PlatformFeature.toV2 := by
  intro f g
  cases f <;> cases g <;> simp [PlatformFeature.toV2]

theorem count_listedFirst {c : ChainUserEntry} {f : PlatformFeature} :
    c.listedFirst.count f.toV2 = c.features.count f := by
  have hlocked : (stakingListed c.staking).count f.toV2 = 0 := by
    rw [stakingListed]
    split
    · cases f <;> rfl
    · rfl
  rw [ChainUserEntry.listedFirst, List.count_append, List.count_map_of_injective _ _ toV2_injective,
    hlocked, Nat.add_zero]

theorem count_borrowing {c : ChainUserEntry} : c.listedFirst.count .borrowing = 0 := by
  refine List.count_eq_zero.mpr fun h => ?_
  rcases List.mem_append.mp h with h | h
  · obtain ⟨f, -, hf⟩ := List.mem_map.mp h
    cases f <;> exact nomatch hf
  · rw [stakingListed] at h
    split at h <;> simp at h

theorem lendingLedger_eq {c : ChainUserEntry} {f : FeatureEnum} :
    lendingLedger (c.listedFirst ++ [.claimable, .borrowing, .health]) c.lending f =
      match f with
      | .claimable =>
        (List.replicate (c.features.count .claimable + 1)
          (c.lending.flatMap WalletUserEntry.rewards)).flatten
      | .lending =>
        (List.replicate (c.features.count .lending)
          (c.lending.flatMap WalletUserEntry.supplies)).flatten
      | .borrowing => c.lending.flatMap WalletUserEntry.borrows
      | _ => [] := by
  have hclaimable : c.listedFirst.count .claimable = c.features.count .claimable :=
    count_listedFirst (f := .claimable)
  have hlending : c.listedFirst.count .lending = c.features.count .lending :=
    count_listedFirst (f := .lending)
  rw [lendingLedger, List.count_append]
  cases f with
  | claimable => rw [hclaimable]; rfl
  | lending => rw [hlending]; rfl
  | borrowing =>
    rw [count_borrowing]
    exact List.append_nil _
  | _ => simp [WalletUserEntry.lent]

/-- The four blocks before the lending positions. -/
theorem counts_blocks {total : ℚ} {c : ChainUserEntry} {p₁ p₂ p₃ p₄ : Progress}
    (h₁ : block stakingBlock c.positions.staking (start total c) = .ok p₁)
    (h₂ : block poolsBlock c.positions.pools p₁ = .ok p₂)
    (h₃ : block claimableBlock c.positions.claimable p₂ = .ok p₃)
    (h₄ : block delegationBlock c.positions.delegation p₃ = .ok p₄) :
    Counts (start total c) p₄ (stakingListed c.staking) fun f =>
      stakingLedger c.staking f ++
        Ledger.single .pools (c.pools.flatMap WalletUserEntry.pooledTokens) f ++
        Ledger.single .claimable (c.claimable.flatMap WalletUserEntry.claimedTokens) f ++
        Ledger.single .delegation (c.delegation.flatMap WalletUserEntry.head) f := by
  have h0 (f : FeatureEnum) : (start total c).chain.totalOf f = 0 := rfl
  have c₁ : Counts (start total c) p₁ (stakingListed c.staking) (stakingLedger c.staking) :=
    counts_block (fun ps h => counts_stakingBlock h (h0 _) (h0 _)) rfl
      (fun f => by cases f <;> rfl) h₁
  have c₂ := c₁.trans (counts_block (l := fun _ => [])
    (fun ps h => counts_poolsBlock h (c₁.totalOf_eq_zero (h0 _) rfl)) rfl (fun f => ite_self _) h₂)
  have c₃ := c₂.trans (counts_block (l := fun _ => [])
    (fun ps h => counts_claimableBlock h (c₂.totalOf_eq_zero (h0 _) rfl)) rfl
    (fun f => ite_self _) h₃)
  have c₄ := c₃.trans (counts_block (l := fun _ => [])
    (fun ps h => counts_delegationBlock h (c₃.totalOf_eq_zero (h0 _) rfl)) rfl
    (fun f => ite_self _) h₄)
  exact c₄.congr (by simp) fun _ => rfl

/-- What the conversion of a chain adds to the total, what it lists, and the totals of its
features. -/
theorem toV2Chain_eq_ok {total total' : ℚ} {c : ChainUserEntry} {v2 : IntChainsData}
    (h : toV2Chain total c = .ok (total', v2)) :
    total' = total + c.ledger.net ∧ v2.features = c.listed ∧
      ∀ f, v2.totalOf f = worth (c.ledger f) := by
  obtain ⟨p₁, h₁, h⟩ := bind_eq_ok.mp h
  obtain ⟨p₂, h₂, h⟩ := bind_eq_ok.mp h
  obtain ⟨p₃, h₃, h⟩ := bind_eq_ok.mp h
  obtain ⟨p₄, h₄, h⟩ := bind_eq_ok.mp h
  obtain ⟨p₅, h₅, h⟩ := bind_eq_ok.mp h
  have h0 (f : FeatureEnum) : (start total c).chain.totalOf f = 0 := rfl
  have c₄ := counts_blocks h₁ h₂ h₃ h₄
  have hfeatures : p₄.chain.features = c.listedFirst := c₄.features
  have c₅ : Counts p₄ p₅
      (if c.positions.lending.isSome then [.claimable, .borrowing, .health] else [])
      (lendingLedger (c.listedFirst ++ [.claimable, .borrowing, .health]) c.lending) := by
    rw [ChainUserEntry.lending]
    cases hl : c.positions.lending with
    | none =>
      rw [hl] at h₅
      cases h₅
      exact Counts.refl.congr rfl fun f => by simp [lendingLedger]
    | some ps =>
      rw [hl] at h₅
      exact hfeatures ▸ counts_lendingBlock h₅ (c₄.totalOf_eq_zero (h0 _) rfl)
  have hledger : Counts _ _ _ c.ledger := (c₄.trans c₅).congr rfl fun f => by
    rw [lendingLedger_eq]
    cases f <;> simp [Ledger.single, ChainUserEntry.ledger, stakingLedger]
  cases h
  refine ⟨hledger.total, ?_, fun f => ?_⟩
  · rw [ChainUserEntry.listed, ← hfeatures, ← c₅.features]
  · exact (hledger.totalOf f).trans (by rw [h0, zero_add])

theorem mem_listedFirst {c : ChainUserEntry} {f : PlatformFeature} :
    f.toV2 ∈ c.listedFirst ↔ f ∈ c.features := by
  rw [← List.count_pos_iff, count_listedFirst, List.count_pos_iff]

/-- Borrowed tokens are always read, supplied ones where lending is listed. -/
theorem hasSide_listed {c : ChainUserEntry} {p : WalletUserEntry} :
    (∀ f ∈ c.listedFirst ++ [.claimable, .borrowing, .health], p.HasSide f) ↔
      p.borrowed.isSome ∧ (.lending ∈ c.features → p.supplied.isSome) := by
  constructor
  · intro h
    exact ⟨h .borrowing (by simp), fun hf =>
      h .lending (List.mem_append_left _ (mem_listedFirst.mpr hf))⟩
  · rintro ⟨hb, hs⟩ f hf
    cases f with
    | lending =>
      refine hs (mem_listedFirst.mp ((List.mem_append.mp hf).resolve_right fun h => ?_))
      simp at h
    | borrowing => exact hb
    | _ => trivial

theorem succeeds_toV2Chain {total : ℚ} {c : ChainUserEntry} :
    Succeeds (toV2Chain total c) ↔ c.Convertible := by
  have hlending {p₁ p₂ p₃ p₄ : Progress}
      (h₁ : block stakingBlock c.positions.staking (start total c) = .ok p₁)
      (h₂ : block poolsBlock c.positions.pools p₁ = .ok p₂)
      (h₃ : block claimableBlock c.positions.claimable p₂ = .ok p₃)
      (h₄ : block delegationBlock c.positions.delegation p₃ = .ok p₄) :
      Succeeds (block lendingBlock c.positions.lending p₄) ↔ ∀ p ∈ c.lending,
        p.borrowed.isSome ∧ (.lending ∈ c.features → p.supplied.isSome) := by
    have hfeatures : p₄.chain.features = c.listedFirst := (counts_blocks h₁ h₂ h₃ h₄).features
    refine succeeds_block fun ps => ?_
    rw [succeeds_lendingBlock, hfeatures]
    simp only [← hasSide_listed]
    exact ⟨fun h q hq f hf => h f hf q hq, fun h f hf q hq => h q hq f hf⟩
  constructor
  · intro h
    obtain ⟨p₁, h₁, h⟩ := succeeds_bind.mp h
    obtain ⟨p₂, h₂, h⟩ := succeeds_bind.mp h
    obtain ⟨p₃, h₃, h⟩ := succeeds_bind.mp h
    obtain ⟨p₄, h₄, h⟩ := succeeds_bind.mp h
    obtain ⟨p₅, h₅, h⟩ := succeeds_bind.mp h
    exact ⟨(succeeds_block fun _ => succeeds_stakingBlock).mp ⟨_, h₁⟩,
      (succeeds_block fun _ => succeeds_poolsBlock).mp ⟨_, h₂⟩,
      (succeeds_block fun _ => succeeds_claimableBlock).mp ⟨_, h₃⟩,
      (succeeds_block fun _ => succeeds_delegationBlock).mp ⟨_, h₄⟩,
      (hlending h₁ h₂ h₃ h₄).mp ⟨_, h₅⟩⟩
  · intro h
    obtain ⟨p₁, h₁⟩ := (succeeds_block (p := start total c) fun _ => succeeds_stakingBlock).mpr
      h.staking
    obtain ⟨p₂, h₂⟩ := (succeeds_block (p := p₁) fun _ => succeeds_poolsBlock).mpr h.pools
    obtain ⟨p₃, h₃⟩ := (succeeds_block (p := p₂) fun _ => succeeds_claimableBlock).mpr h.claimable
    obtain ⟨p₄, h₄⟩ := (succeeds_block (p := p₃) fun _ => succeeds_delegationBlock).mpr h.delegation
    obtain ⟨p₅, h₅⟩ := (hlending h₁ h₂ h₃ h₄).mpr h.lending
    exact succeeds_bind.mpr ⟨p₁, h₁, succeeds_bind.mpr ⟨p₂, h₂, succeeds_bind.mpr ⟨p₃, h₃,
      succeeds_bind.mpr ⟨p₄, h₄, succeeds_bind.mpr ⟨p₅, h₅, succeeds_pure⟩⟩⟩⟩⟩

end V3Decorator
end Integration
end DefiBackend
