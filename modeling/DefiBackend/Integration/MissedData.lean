import DefiBackend.Common.CallData
import DefiBackend.Common.Collections
import DefiBackend.Common.JsValue
import DefiBackend.Integration.PriceAdjustment
import DefiBackend.Integration.ProtocolTotals
import DefiBackend.Theory.Fallible

/-! # Data that tokens miss

`handleMissedData` of `protocol.service.ts`: pool tokens without a name, a symbol or decimals and
those without a price are grouped by their addresses, the data of the first and of all LP tokens and
the prices of the second are requested, and the tokens are filled in place. Of the assets that are
returned the last ones, as many as there are positions, are taken for the LP tokens.

Positions have the fields that are read or written. No object stands in two places.

* `updateGroups_frame`: a fill changes the tokens whose addresses are in the answer;
* `filledByIdentity_iff`: when every token gets the data of its own address;
* `asset_omitted`: without the asset of an LP token, it gets the data of another token. -/

namespace DefiBackend
namespace Integration
namespace MissedData
open PriceAdjustment Theory

/-- A token, with the fields other than its address. -/
structure ERC20Token where
  address : Address
  fields : JsObject

/-- An asset has an address, and its fields have different names. It has no price. -/
structure Asset extends ERC20Token where
  present : address ≠ ""
  names_nodup : (fields.map Prod.fst).Nodup

structure PoolToken extends ERC20Token where
  priceUSD : PriceAdjustment.Field

structure LiquidityPositionPool where
  address : Address
  name : JsValue

structure LiquidityPosition where
  lpToken : ERC20Token
  poolTokens : Option (List PoolToken)
  pool : Option LiquidityPositionPool

/-- The place of a pool token: its position, and its place among the tokens of this. -/
abbrev TokenRef := Nat × Nat

/-- `DetailedResponseDto`, by whether its status is ok. -/
structure DetailedResponse where
  ok : Bool
  errors : List String
  data : List Asset

abbrev Prices := JsMap Address JsNumber

/-- A request of `Promise.allSettled`, by the message of the reason where it is rejected. -/
inductive Settled (α : Type)
  | fulfilled (value : α)
  | rejected (message : String)

def strategyFill (fields : JsObject) (field : String × JsValue) : JsObject :=
  if field.2.truthy then fields.assign field.1 field.2 else fields

/-- `objectUpdate` with the strategy `fill`: fields that count as true are copied. -/
def objectUpdate (target source : ERC20Token) : ERC20Token where
  address := if source.address = "" then target.address else source.address
  fields := source.fields.foldl strategyFill target.fields

namespace PoolToken

def update (asset : Asset) (token : PoolToken) : PoolToken :=
  { token with toERC20Token := objectUpdate token.toERC20Token asset.toERC20Token }

def setPrice (price : JsNumber) (token : PoolToken) : PoolToken :=
  { token with priceUSD := .number price }

/-- `!name || !symbol || !decimals`. -/
def missesData (token : PoolToken) : Bool :=
  !(token.fields.get "name").truthy || !(token.fields.get "symbol").truthy ||
    !(token.fields.get "decimals").truthy

/-- `!priceUSD`. -/
def missesPrice (token : PoolToken) : Bool := !token.priceUSD.truthy

end PoolToken

/-! ## Positions and their tokens -/

def tokenAt (rawPools : List LiquidityPosition) (ref : TokenRef) : Option PoolToken :=
  rawPools[ref.1]?.bind fun inputPool => inputPool.poolTokens.bind (·[ref.2]?)

/-- A change of a pool token in its place. -/
def modifyToken (f : PoolToken → PoolToken) (rawPools : List LiquidityPosition) (ref : TokenRef) :
    List LiquidityPosition :=
  rawPools.modify ref.1 fun inputPool =>
    { inputPool with poolTokens := inputPool.poolTokens.map (·.modify ref.2 f) }

/-- The pool tokens that miss something, in their order, with their addresses. -/
def missedTokens (missed : PoolToken → Bool) (rawPools : List LiquidityPosition) :
    List (Address × TokenRef) :=
  rawPools.zipIdx.flatMap fun (inputPool, i) =>
    (inputPool.poolTokens.getD []).zipIdx.filterMap fun (token, j) =>
      if missed token then some (token.address, (i, j)) else none

/-- A map filled by `groupTokens`. -/
def groupTokens (missed : PoolToken → Bool) (rawPools : List LiquidityPosition) :
    JsMap Address (List TokenRef) :=
  .collect (missedTokens missed rawPools)

/-! ## Filling -/

/-- What is returned for an address goes to the tokens that stand under it. -/
def updateGroups (groups : JsMap Address (List TokenRef)) (update : α → PoolToken → PoolToken)
    (items : List (Address × α)) (rawPools : List LiquidityPosition) :
    Except String (List LiquidityPosition) :=
  items.foldlM (fun rawPools item =>
    match groups.get item.1 with
    | some tokensToUpdate => pure (tokensToUpdate.foldl (modifyToken (update item.2)) rawPools)
    | none => throw typeError) rawPools

/-- The data of an asset for the LP token of a position, and its name for the pool. -/
def fillPosition (lpToken : Asset) (poolData : LiquidityPosition) : LiquidityPosition :=
  { poolData with
    pool := poolData.pool.map fun pool => { pool with name := lpToken.fields.get "name" }
    lpToken := objectUpdate poolData.lpToken lpToken.toERC20Token }

/-- What is returned at a place among the last goes to the position at this place, which must have a
pool. -/
def fillLpToken (rawPools : List LiquidityPosition) (lpToken : Asset × Nat) :
    Except String (List LiquidityPosition) :=
  match rawPools[lpToken.2]?.bind LiquidityPosition.pool with
  | some _ => pure (rawPools.modify lpToken.2 (fillPosition lpToken.1))
  | none => throw typeError

/-- `data.slice(-pools.length)`. -/
def lpTokens (rawPools : List LiquidityPosition) (data : List Asset) : List Asset :=
  slice data (-rawPools.length) data.length

/-- `data.slice(0, data.length - pools.length)`. -/
def fullTokens (rawPools : List LiquidityPosition) (data : List Asset) : List Asset :=
  slice data 0 (data.length - rawPools.length)

def fillTokens (tokensMissedData : JsMap Address (List TokenRef)) (data : List Asset)
    (rawPools : List LiquidityPosition) : Except String (List LiquidityPosition) := do
  let filled ← (lpTokens rawPools data).zipIdx.foldlM fillLpToken rawPools
  updateGroups tokensMissedData PoolToken.update
    ((fullTokens rawPools data).map fun fullToken => (fullToken.address, fullToken)) filled

/-- The addresses for `getAllTokenInfo`, if it is asked. -/
def tokensRequest (rawPools : List LiquidityPosition) : Option (List Address) :=
  match (groupTokens PoolToken.missesData rawPools).keys with
  | [] => none
  | keys => some (keys ++ rawPools.map fun inputPool => inputPool.lpToken.address)

/-- The addresses for `getAllTokenPrices`, if it is asked. -/
def pricesRequest (rawPools : List LiquidityPosition) : Option (List Address) :=
  match (groupTokens PoolToken.missesPrice rawPools).keys with
  | [] => none
  | keys => some keys

/-- The positions after a response, if there is one, and the messages with those that are pushed. -/
def handleTokens (tokensMissedData : JsMap Address (List TokenRef))
    (rawPools : List LiquidityPosition) (errors : List JsValue) :
    Option (Settled DetailedResponse) → Except String (List LiquidityPosition × List JsValue)
  | some (.fulfilled tokensData) =>
    if tokensData.ok then do
      let filled ← fillTokens tokensMissedData tokensData.data rawPools
      pure (filled, errors)
    else pure (rawPools, errors ++ [.arr (tokensData.errors.map .str)])
  | some (.rejected message) => pure (rawPools, errors ++ [.str message])
  | none => pure (rawPools, errors)

def handlePrices (tokensMissedPrice : JsMap Address (List TokenRef))
    (rawPools : List LiquidityPosition) (errors : List JsValue) :
    Option (Settled Prices) → Except String (List LiquidityPosition × List JsValue)
  | some (.fulfilled tokensPrices) => do
    let filled ← updateGroups tokensMissedPrice PoolToken.setPrice tokensPrices rawPools
    pure (filled, errors)
  | some (.rejected message) => pure (rawPools, errors ++ [.str message])
  | none => pure (rawPools, errors)

def handleMissedData (getAllTokenInfo : List Address → Settled DetailedResponse)
    (getAllTokenPrices : List Address → Settled Prices) (rawPools : List LiquidityPosition)
    (errors : List JsValue) : Except String (List LiquidityPosition × List JsValue) := do
  let tokensMissedData := groupTokens PoolToken.missesData rawPools
  let tokensMissedPrice := groupTokens PoolToken.missesPrice rawPools
  let tokensResponse := (tokensRequest rawPools).map getAllTokenInfo
  let pricesResponse := (pricesRequest rawPools).map getAllTokenPrices
  let (rawPools, errors) ← handleTokens tokensMissedData rawPools errors tokensResponse
  handlePrices tokensMissedPrice rawPools errors pricesResponse

/-! ## Places -/

def lpTokenAt (rawPools : List LiquidityPosition) (i : Nat) : Option ERC20Token :=
  rawPools[i]?.map LiquidityPosition.lpToken

section
variable {rawPools filled : List LiquidityPosition} {f : PoolToken → PoolToken}

theorem tokenAt_modifyToken {ref ref' : TokenRef} :
    tokenAt (modifyToken f rawPools ref) ref' =
      if ref = ref' then (tokenAt rawPools ref').map f else tokenAt rawPools ref' := by
  obtain ⟨i, j⟩ := ref
  obtain ⟨i', j'⟩ := ref'
  rw [tokenAt, modifyToken, tokenAt, List.getElem?_modify]
  cases rawPools[i']? with
  | none => simp
  | some inputPool =>
    by_cases hi : i = i'
    · subst hi
      cases hpool : inputPool.poolTokens with
      | none => simp [hpool]
      | some tokens =>
        by_cases hj : j = j'
        · subst hj
          cases htoken : tokens[j]? <;> simp [hpool, htoken]
        · simp [hpool, hj]
    · simp [hi]

theorem lpTokenAt_modifyToken {ref : TokenRef} :
    lpTokenAt (modifyToken f rawPools ref) i = lpTokenAt rawPools i := by
  rw [lpTokenAt, modifyToken, List.getElem?_modify, lpTokenAt]
  cases rawPools[i]? with
  | none => rfl
  | some inputPool =>
    simp only [Option.map_eq_map, Option.map_some]
    split <;> rfl

theorem foldl_modifyToken {refs : List TokenRef} (hrefs : refs.Nodup) {ref : TokenRef} :
    tokenAt (refs.foldl (modifyToken f) rawPools) ref =
      if ref ∈ refs then (tokenAt rawPools ref).map f else tokenAt rawPools ref := by
  induction refs generalizing rawPools with
  | nil => simp
  | cons ref' refs ih =>
    obtain ⟨hnot, hrefs⟩ := List.nodup_cons.mp hrefs
    rw [List.foldl_cons, ih hrefs, tokenAt_modifyToken]
    by_cases heq : ref' = ref
    · subst heq
      rw [if_neg hnot, if_pos rfl, if_pos (List.mem_cons_self ..)]
    · rw [if_neg heq]
      simp [Ne.symm heq]

theorem lpTokenAt_foldl_modifyToken {refs : List TokenRef} :
    lpTokenAt (refs.foldl (modifyToken f) rawPools) i = lpTokenAt rawPools i := by
  induction refs generalizing rawPools with
  | nil => rfl
  | cons ref refs ih => rw [List.foldl_cons, ih, lpTokenAt_modifyToken]

variable {missed : PoolToken → Bool}

theorem mem_missedTokens {a : Address} {ref : TokenRef} :
    (a, ref) ∈ missedTokens missed rawPools ↔
      ∃ token, tokenAt rawPools ref = some token ∧ missed token ∧ token.address = a := by
  obtain ⟨i, j⟩ := ref
  simp only [missedTokens, List.mem_flatMap, List.mem_filterMap, Prod.exists,
    List.mem_zipIdx_iff_getElem?, Option.ite_none_right_eq_some, Option.some.injEq, Prod.mk.injEq,
    tokenAt, Option.bind_eq_some_iff]
  constructor
  · rintro ⟨inputPool, i', hi, token, j', hj, hmissed, rfl, rfl, rfl⟩
    cases hpool : inputPool.poolTokens with
    | none => simp [hpool] at hj
    | some tokens =>
      exact ⟨token, ⟨inputPool, hi, tokens, hpool, by simpa [hpool] using hj⟩, hmissed, rfl⟩
  · rintro ⟨token, ⟨inputPool, hi, tokens, hpool, hj⟩, hmissed, rfl⟩
    exact ⟨inputPool, i, hi, token, j, by simpa [hpool] using hj, hmissed, rfl, rfl, rfl⟩

theorem pairwise_zipIdx (l : List α) : l.zipIdx.Pairwise fun a b => a.2 ≠ b.2 := by
  have hnodup : (l.zipIdx.map Prod.snd).Nodup := by
    rw [List.zipIdx_map_snd]
    exact List.nodup_range'
  exact List.pairwise_map.mp hnodup

theorem nodup_missedTokens : ((missedTokens missed rawPools).map Prod.snd).Nodup := by
  rw [missedTokens, List.map_flatMap, List.nodup_flatMap]
  refine ⟨fun x _ => ?_, (pairwise_zipIdx rawPools).imp fun {x y} hne => ?_⟩
  · rw [List.map_filterMap, List.Nodup, List.pairwise_filterMap]
    refine (pairwise_zipIdx _).imp fun {a b} hne r hr r' hr' => ?_
    grind
  · apply List.disjoint_left.mpr
    grind

/-- The tokens that stand under an address. -/
theorem get_groupTokens {a : Address} :
    (groupTokens missed rawPools).get a =
      if a ∈ (missedTokens missed rawPools).map Prod.fst then
        some (((missedTokens missed rawPools).filter (·.1 = a)).map Prod.snd) else none := by
  rw [groupTokens, JsMap.collect_eq]
  split
  · next h => exact JsMap.get_graph _ (mem_unique.mpr h)
  · next h =>
    refine JsMap.get_eq_none.mpr fun hkey => h ?_
    rw [JsMap.keys, List.map_map] at hkey
    simpa using hkey

theorem keys_groupTokens :
    (groupTokens missed rawPools).keys = unique ((missedTokens missed rawPools).map Prod.fst) := by
  rw [groupTokens, JsMap.collect_eq, JsMap.keys, List.map_map]
  exact List.map_id _

/-! ## Groups -/

section
variable {update : α → PoolToken → PoolToken} {items : JsMap Address α}

/-- Only addresses with tokens can be looked up. -/
theorem succeeds_updateGroups :
    Succeeds (updateGroups (groupTokens missed rawPools) update items filled) ↔
      ∀ item ∈ items, item.1 ∈ (missedTokens missed rawPools).map Prod.fst := by
  apply succeeds_foldlM
  intro filled item
  rw [get_groupTokens]
  split
  · next hget =>
    refine iff_of_true succeeds_pure (by_contra fun hnot => ?_)
    rw [if_neg hnot] at hget
    cases hget
  · next hget =>
    refine iff_of_false not_succeeds_error fun hmem => ?_
    rw [if_pos hmem] at hget
    cases hget

/-- What becomes of a token, by what it was when the tokens were grouped. -/
def received (missed : PoolToken → Bool) (update : α → PoolToken → PoolToken)
    (items : JsMap Address α) : Option PoolToken → PoolToken → PoolToken
  | some origin =>
    if missed origin then ((items.get origin.address).map update).getD id else id
  | none => id

/-- A fill changes the tokens that miss something and whose addresses are in the answer. -/
theorem updateGroups_frame {result : List LiquidityPosition} (hitems : items.keys.Nodup)
    (h : updateGroups (groupTokens missed rawPools) update items filled = .ok result) :
    (∀ ref, tokenAt result ref =
      (tokenAt filled ref).map (received missed update items (tokenAt rawPools ref))) ∧
    ∀ i, lpTokenAt result i = lpTokenAt filled i := by
  induction items generalizing filled with
  | nil =>
    cases h
    refine ⟨fun ref => ?_, fun _ => rfl⟩
    have hid : received missed update [] (tokenAt rawPools ref) = id := by
      cases tokenAt rawPools ref with
      | none => rfl
      | some origin => exact ite_self id
    rw [hid, Option.map_id, id]
  | cons item items ih =>
    obtain ⟨a, x⟩ := item
    obtain ⟨hnot, hitems⟩ := List.nodup_cons.mp hitems
    rw [updateGroups, List.foldlM_cons] at h
    obtain ⟨filled', hstep, hrest⟩ := bind_eq_ok.mp h
    obtain ⟨htokens, hlp⟩ := ih hitems hrest
    rw [get_groupTokens] at hstep
    by_cases ha : a ∈ (missedTokens missed rawPools).map Prod.fst
    · rw [if_pos ha] at hstep
      obtain rfl := Except.ok.inj hstep
      refine ⟨fun ref => ?_, fun i => (hlp i).trans lpTokenAt_foldl_modifyToken⟩
      have hrefs : (((missedTokens missed rawPools).filter (·.1 = a)).map Prod.snd).Nodup :=
        nodup_missedTokens.sublist (List.filter_sublist.map _)
      have hmem : ref ∈ ((missedTokens missed rawPools).filter (·.1 = a)).map Prod.snd ↔
          ∃ token, tokenAt rawPools ref = some token ∧ missed token ∧ token.address = a := by
        rw [← mem_missedTokens]
        simp
      rw [htokens, foldl_modifyToken hrefs]
      cases horigin : tokenAt rawPools ref with
      | none =>
        rw [if_neg fun hin => by simpa [horigin] using hmem.mp hin]
        rfl
      | some origin =>
        by_cases hmissed : missed origin ∧ origin.address = a
        · -- the address does not come again
          have hnone : JsMap.get items a = none := JsMap.get_eq_none.mpr hnot
          rw [if_pos (hmem.mpr ⟨origin, horigin, hmissed⟩), Option.map_map]
          simp [received, hmissed.1, hmissed.2, hnone, JsMap.get_cons]
        · rw [if_neg fun hin => hmissed (by simpa [horigin] using hmem.mp hin)]
          by_cases hm : missed origin
          · have hne : a ≠ origin.address := fun he => hmissed ⟨hm, he.symm⟩
            simp [received, hm, JsMap.get_cons, hne]
          · simp [received, hm]
    · rw [if_neg ha] at hstep
      cases hstep

end

/-! ## LP tokens -/

/-- There is a position at a place, and it has a pool. -/
def HasPool (rawPools : List LiquidityPosition) (i : Nat) : Prop :=
  (rawPools[i]?.bind LiquidityPosition.pool).isSome

section
variable {lpToken : Asset}

theorem fillLpToken_eq_ok :
    fillLpToken rawPools (lpToken, k) = .ok filled ↔
      HasPool rawPools k ∧ filled = rawPools.modify k (fillPosition lpToken) := by
  rw [fillLpToken, HasPool]
  cases rawPools[k]?.bind LiquidityPosition.pool with
  | none => exact ⟨nofun, fun h => nomatch h.1⟩
  | some pool => exact ⟨fun h => ⟨rfl, (Except.ok.inj h).symm⟩, fun h => h.2 ▸ rfl⟩

theorem hasPool_modify :
    HasPool (rawPools.modify k (fillPosition lpToken)) i ↔ HasPool rawPools i := by
  rw [HasPool, HasPool, List.getElem?_modify]
  cases rawPools[i]? with
  | none => rfl
  | some poolData =>
    by_cases hk : k = i
    · cases hpool : poolData.pool <;> simp [hk, fillPosition, hpool]
    · simp [hk]

theorem tokenAt_modify {ref : TokenRef} :
    tokenAt (rawPools.modify k (fillPosition lpToken)) ref = tokenAt rawPools ref := by
  rw [tokenAt, tokenAt, List.getElem?_modify]
  cases rawPools[ref.1]? with
  | none => rfl
  | some poolData =>
    simp only [Option.map_eq_map, Option.map_some]
    split <;> rfl

theorem lpTokenAt_modify :
    lpTokenAt (rawPools.modify k (fillPosition lpToken)) i =
      (lpTokenAt rawPools i).map fun target =>
        if k = i then objectUpdate target lpToken.toERC20Token else target := by
  rw [lpTokenAt, lpTokenAt, List.getElem?_modify]
  cases rawPools[i]? with
  | none => rfl
  | some poolData =>
    simp only [Option.map_eq_map, Option.map_some]
    split <;> rfl

end

theorem succeeds_fillLpTokens {lpTokens : List Asset} {k : Nat} :
    Succeeds ((lpTokens.zipIdx k).foldlM fillLpToken rawPools) ↔
      ∀ i, i < lpTokens.length → HasPool rawPools (k + i) := by
  induction lpTokens generalizing rawPools k with
  | nil => simp
  | cons lpToken lpTokens ih =>
    rw [List.zipIdx_cons, List.foldlM_cons, succeeds_bind]
    simp only [fillLpToken_eq_ok, and_assoc, exists_and_left, exists_eq_left, ih, hasPool_modify]
    constructor
    · rintro ⟨hk, hrest⟩ i hi
      cases i with
      | zero => exact hk
      | succ i => exact (Nat.add_right_comm k 1 i) ▸ hrest i (Nat.lt_of_succ_lt_succ hi)
    · intro h
      refine ⟨h 0 (Nat.succ_pos _), fun i hi => ?_⟩
      exact (Nat.add_right_comm k 1 i).symm ▸ h (i + 1) (Nat.succ_lt_succ hi)

/-- The assets go to the LP tokens of the positions from a place on. -/
theorem fillLpTokens_frame {lpTokens : List Asset} {k : Nat} {result : List LiquidityPosition}
    (h : (lpTokens.zipIdx k).foldlM fillLpToken rawPools = .ok result) :
    (∀ ref, tokenAt result ref = tokenAt rawPools ref) ∧
    (∀ i < k, lpTokenAt result i = lpTokenAt rawPools i) ∧
    ∀ i, lpTokenAt result (k + i) = (lpTokenAt rawPools (k + i)).map fun target =>
      (lpTokens[i]?.map fun lpToken => objectUpdate target lpToken.toERC20Token).getD target := by
  induction lpTokens generalizing rawPools k with
  | nil =>
    cases h
    exact ⟨fun _ => rfl, fun _ _ => rfl, fun _ => by simp⟩
  | cons lpToken lpTokens ih =>
    rw [List.zipIdx_cons, List.foldlM_cons] at h
    obtain ⟨filled, hstep, hrest⟩ := bind_eq_ok.mp h
    obtain ⟨-, rfl⟩ := fillLpToken_eq_ok.mp hstep
    obtain ⟨htokens, hbefore, hlp⟩ := ih hrest
    refine ⟨fun ref => (htokens ref).trans tokenAt_modify, fun i hi => ?_, fun i => ?_⟩
    · rw [hbefore i (Nat.lt_succ_of_lt hi), lpTokenAt_modify]
      simp [Nat.ne_of_gt hi]
    · cases i with
      | zero =>
        rw [Nat.add_zero, hbefore k k.lt_succ_self, lpTokenAt_modify]
        simp
      | succ i =>
        have hplace : k + (i + 1) = k + 1 + i := by omega
        have hne : ¬ k = k + 1 + i := by omega
        rw [hplace, hlp, lpTokenAt_modify]
        simp [hne]

/-! ## Identity -/

/-- What a field has of the asset with the address of a token: what counts as true there, or else what
the token has. -/
def OwnField (data : List Asset) (token : ERC20Token) (name : String) (value : JsValue) : Prop :=
  (∃ asset ∈ data, asset.address = token.address ∧ (asset.fields.get name).truthy ∧
    value = asset.fields.get name) ∨
  (∀ asset ∈ data, asset.address = token.address → ¬ (asset.fields.get name).truthy) ∧
    value = token.fields.get name

/-- A token that is filled keeps its address and has the data of this address in every field. -/
structure OwnData (data : List Asset) (token filled : ERC20Token) : Prop where
  address : filled.address = token.address
  fields : ∀ name, OwnField data token name (filled.fields.get name)

/-- A token without a name, a symbol or decimals. -/
def MissesData (token : ERC20Token) : Prop :=
  ∃ name ∈ ["name", "symbol", "decimals"], ¬ (token.fields.get name).truthy

/-- A pool token that misses data gets those of its own address, and one that misses its price the
price of its own address. All else stays as it is. -/
structure OwnPoolToken (data : List Asset) (prices : Prices) (token filled : PoolToken) : Prop where
  missed : MissesData token.toERC20Token → OwnData data token.toERC20Token filled.toERC20Token
  known : ¬ MissesData token.toERC20Token → filled.toERC20Token = token.toERC20Token
  price : ∀ price, ¬ token.priceUSD.truthy → prices.get token.address = some price →
    filled.priceUSD = .number price
  priced : token.priceUSD.truthy ∨ prices.get token.address = none →
    filled.priceUSD = token.priceUSD

/-- Every token is filled with what was returned for its own address, and with nothing else. -/
def FilledByIdentity (rawPools : List LiquidityPosition) (answer : DetailedResponse)
    (prices : Prices) (errors : List JsValue) : Prop :=
  ∃ filled, handleMissedData (fun _ => .fulfilled answer) (fun _ => .fulfilled prices) rawPools
      errors = .ok (filled, errors) ∧
    (∀ i, Option.Rel (OwnData answer.data) (lpTokenAt rawPools i) (lpTokenAt filled i)) ∧
    ∀ ref, Option.Rel (OwnPoolToken answer.data prices) (tokenAt rawPools ref) (tokenAt filled ref)

/-- Answers to the requests: some of what was asked for, each once, in any order. -/
structure Answers (rawPools : List LiquidityPosition) (answer : DetailedResponse) (prices : Prices) :
    Prop where
  ok : answer.ok
  data_nodup : (answer.data.map fun asset => asset.address).Nodup
  data_requested : ∀ asset ∈ answer.data, asset.address ∈ (tokensRequest rawPools).getD []
  prices_nodup : prices.keys.Nodup
  prices_requested : ∀ address ∈ prices.keys, address ∈ (pricesRequest rawPools).getD []

/-- A token has what counts as true in an asset. -/
def Complete (token : ERC20Token) (asset : Asset) : Prop :=
  ∀ name, (asset.fields.get name).truthy → token.fields.get name = asset.fields.get name

/-- The last assets, as many as there are positions, are those of the LP tokens in the order of the
positions, and the others are of pool tokens that miss data. A token with an asset elsewhere lacks
nothing that this has. -/
structure Aligned (rawPools : List LiquidityPosition) (data : List Asset) : Prop where
  last : ∀ i asset, (lpTokens rawPools data)[i]? = some asset →
    HasPool rawPools i ∧ (lpTokenAt rawPools i).map ERC20Token.address = some asset.address
  others : ∀ asset ∈ fullTokens rawPools data,
    ∃ ref token, tokenAt rawPools ref = some token ∧ MissesData token.toERC20Token ∧
      token.address = asset.address
  lpToken : ∀ i lpToken asset, lpTokenAt rawPools i = some lpToken → asset ∈ data →
    asset.address = lpToken.address →
      i < (lpTokens rawPools data).length ∨ Complete lpToken asset
  poolToken : ∀ ref token asset, tokenAt rawPools ref = some token →
    MissesData token.toERC20Token → asset ∈ data → asset.address = token.address →
      asset ∈ fullTokens rawPools data ∨ Complete token.toERC20Token asset

/-! ## What an update leaves -/

/-- A token after the update with the asset of its address, where this is in the list. -/
def ownLpToken (data : List Asset) (lpToken : ERC20Token) : ERC20Token :=
  ((data.find? (·.address = lpToken.address)).map fun asset =>
    objectUpdate lpToken asset.toERC20Token).getD lpToken

/-- A pool token after the updates with the asset and the price of its address. -/
def ownPoolToken (data : List Asset) (prices : Prices) (token : PoolToken) : PoolToken where
  toERC20Token := if token.missesData then ownLpToken data token.toERC20Token else token.toERC20Token
  priceUSD := if token.missesPrice then
    ((prices.get token.address).map .number).getD token.priceUSD else token.priceUSD

section
variable {data : List Asset} {prices : Prices} {answer : DetailedResponse}

theorem missesData_iff {token : PoolToken} : token.missesData ↔ MissesData token.toERC20Token := by
  simp [PoolToken.missesData, MissesData, or_assoc]

theorem strategyFill_get (fields : JsObject) (field : String × JsValue) (name : String) :
    (strategyFill fields field).get name =
      if field.1 = name ∧ field.2.truthy then field.2 else fields.get name := by
  rw [strategyFill]
  by_cases htruthy : field.2.truthy
  · rw [if_pos htruthy, JsObject.get_assign]
    simp only [htruthy, and_true]
  · rw [if_neg htruthy, if_neg fun h => htruthy h.2]

/-- Fields that count as true are copied, each under its name. -/
theorem foldl_strategyFill_get {source : JsObject} (hnodup : (source.map Prod.fst).Nodup)
    (target : JsObject) (name : String) :
    (source.foldl strategyFill target).get name =
      if (source.get name).truthy then source.get name else target.get name := by
  induction source generalizing target with
  | nil => rfl
  | cons field source ih =>
    obtain ⟨hnot, hnodup⟩ := List.nodup_cons.mp hnodup
    rw [List.foldl_cons, ih hnodup, strategyFill_get, JsObject.get_cons]
    by_cases hname : field.1 = name
    · have hnone : JsObject.get source name = .undefined := by
        rw [JsObject.get, List.lookup_eq_none_iff.mpr fun e he => ?_]
        · rfl
        · exact bne_iff_ne.mpr fun h => hnot (List.mem_map.mpr ⟨e, he, (hname.trans h).symm⟩)
      rw [hnone, if_neg (by decide), if_pos hname]
      simp only [hname, true_and]
    · rw [if_neg hname, if_neg fun h : field.1 = name ∧ field.2.truthy => hname h.1]

/-- Copying what is there. -/
theorem foldl_strategyFill_self {source target : JsObject}
    (h : ∀ field ∈ source, field.2.truthy → target.get field.1 = field.2) :
    source.foldl strategyFill target = target := by
  induction source with
  | nil => rfl
  | cons field source ih =>
    have hfield : strategyFill target field = target := by
      rw [strategyFill]
      split
      · next htruthy =>
        have hget := h field (List.mem_cons_self ..) htruthy
        rw [← hget]
        refine JsObject.assign_get fun hnone => ?_
        rw [← hget, hnone] at htruthy
        cases htruthy
      · rfl
    rw [List.foldl_cons, hfield, ih fun other hother => h other (List.mem_cons_of_mem _ hother)]

theorem objectUpdate_get {token : ERC20Token} {asset : Asset} (name : String) :
    (objectUpdate token asset.toERC20Token).fields.get name =
      if (asset.fields.get name).truthy then asset.fields.get name else token.fields.get name :=
  foldl_strategyFill_get asset.names_nodup token.fields name

/-- An update with the asset of its address leaves a token as it is if it lacks nothing. -/
theorem objectUpdate_complete {token : ERC20Token} {asset : Asset}
    (ha : asset.address = token.address) (h : Complete token asset) :
    objectUpdate token asset.toERC20Token = token := by
  have hfields : asset.fields.foldl strategyFill token.fields = token.fields := by
    refine foldl_strategyFill_self fun field hfield htruthy => ?_
    have hget : asset.fields.get field.1 = field.2 :=
      congrArg (Option.getD · _) ((JsMap.get_eq_some_iff asset.names_nodup).mpr hfield)
    rw [← hget] at htruthy ⊢
    exact h field.1 htruthy
  rw [objectUpdate, if_neg asset.present, hfields, ha]

theorem address_objectUpdate {target : ERC20Token} {asset : Asset} :
    (objectUpdate target asset.toERC20Token).address = asset.address := if_neg asset.present

theorem find?_own (hdata : (data.map fun asset => asset.address).Nodup) {asset : Asset}
    (h : asset ∈ data) : data.find? (·.address = asset.address) = some asset := by
  induction data with
  | nil => cases h
  | cons first data ih =>
    obtain ⟨hnot, hdata⟩ := List.nodup_cons.mp hdata
    rcases List.mem_cons.mp h with rfl | h
    · exact List.find?_cons_of_pos (decide_eq_true rfl)
    · have hne : first.address ≠ asset.address := fun he =>
        hnot (List.mem_map.mpr ⟨asset, h, he.symm⟩)
      rw [List.find?_cons_of_neg (by simpa using hne), ih hdata h]

theorem get_map_address {a : Address} :
    JsMap.get (data.map fun asset => (asset.address, asset)) a = data.find? (·.address = a) := by
  induction data with
  | nil => rfl
  | cons first data ih =>
    rw [List.map_cons, JsMap.get_cons, ih]
    split
    · next h => rw [List.find?_cons_of_pos (by simpa using h)]
    · next h => rw [List.find?_cons_of_neg (by simpa using h)]

theorem ownLpToken_of_mem (hdata : (data.map fun asset => asset.address).Nodup) {asset : Asset}
    {lpToken : ERC20Token} (h : asset ∈ data) (ha : asset.address = lpToken.address) :
    ownLpToken data lpToken = objectUpdate lpToken asset.toERC20Token := by
  rw [ownLpToken, ← ha, find?_own hdata h]
  rfl

theorem ownLpToken_of_notMem {lpToken : ERC20Token}
    (h : ∀ asset ∈ data, asset.address ≠ lpToken.address) : ownLpToken data lpToken = lpToken := by
  rw [ownLpToken, List.find?_eq_none.mpr fun asset hmem => by simpa using h asset hmem]
  rfl

theorem eq_of_address (hdata : (data.map fun asset => asset.address).Nodup) {asset other : Asset}
    (h : asset ∈ data) (h' : other ∈ data) (ha : asset.address = other.address) : asset = other :=
  List.inj_on_of_nodup_map hdata h h' ha

theorem address_ownLpToken {lpToken : ERC20Token} :
    (ownLpToken data lpToken).address = lpToken.address := by
  by_cases h : ∃ asset ∈ data, asset.address = lpToken.address
  · obtain ⟨asset, hmem, ha⟩ := h
    rw [ownLpToken]
    cases hfind : data.find? (·.address = lpToken.address) with
    | none => rfl
    | some found =>
      have ha := List.find?_some hfind
      exact address_objectUpdate.trans (by simpa using ha)
  · rw [ownLpToken_of_notMem fun asset hmem ha => h ⟨asset, hmem, ha⟩]

/-- From the asset with its address a token gets the data of its address. -/
theorem ownData_ownLpToken (hdata : (data.map fun asset => asset.address).Nodup)
    (token : ERC20Token) : OwnData data token (ownLpToken data token) := by
  refine ⟨address_ownLpToken, fun name => ?_⟩
  by_cases hown : ∃ asset ∈ data, asset.address = token.address
  · obtain ⟨asset, hmem, ha⟩ := hown
    rw [ownLpToken_of_mem hdata hmem ha, objectUpdate_get]
    split
    · next htruthy => exact .inl ⟨asset, hmem, ha, htruthy, rfl⟩
    · next htruthy =>
      refine .inr ⟨fun other hother he => ?_, rfl⟩
      exact eq_of_address hdata hother hmem (he.trans ha.symm) ▸ htruthy
  · have hnone : ∀ asset ∈ data, asset.address ≠ token.address :=
      fun asset hmem ha => hown ⟨asset, hmem, ha⟩
    rw [ownLpToken_of_notMem hnone]
    exact .inr ⟨fun asset hmem ha => absurd ha (hnone asset hmem), rfl⟩

/-- A token that stays as it is lacks nothing of the asset with its address. -/
theorem OwnData.complete (hdata : (data.map fun asset => asset.address).Nodup)
    {token : ERC20Token} {asset : Asset} (H : OwnData data token token) (hmem : asset ∈ data)
    (ha : asset.address = token.address) : Complete token asset := by
  intro name htruthy
  rcases H.fields name with ⟨other, hother, he, -, hvalue⟩ | ⟨hnone, -⟩
  · rw [hvalue, eq_of_address hdata hother hmem (he.trans ha.symm)]
  · exact absurd htruthy (hnone asset hmem ha)

theorem ownPoolToken_spec (hdata : (data.map fun asset => asset.address).Nodup)
    (token : PoolToken) : OwnPoolToken data prices token (ownPoolToken data prices token) := by
  have hprice : token.missesPrice = !token.priceUSD.truthy := rfl
  refine ⟨fun hmissed => ?_, fun hmissed => ?_, fun price hmissed hget => ?_, fun h => ?_⟩
  · rw [ownPoolToken, if_pos (missesData_iff.mpr hmissed)]
    exact ownData_ownLpToken hdata token.toERC20Token
  · exact if_neg (mt missesData_iff.mp hmissed)
  · simp [ownPoolToken, hprice, hmissed, hget]
  · rcases h with h | h
    · simp [ownPoolToken, hprice, h]
    · simp [ownPoolToken, h]

theorem rel_map {R : α → α → Prop} {f : α → α} (h : ∀ a, R a (f a)) (o : Option α) :
    Option.Rel R o (o.map f) := by
  cases o with
  | none => exact .none
  | some a => exact .some (h a)

/-- With such answers the tokens and the prices are filled one after the other. -/
theorem handleMissedData_eq (h : Answers rawPools answer prices) {errors : List JsValue} :
    handleMissedData (fun _ => .fulfilled answer) (fun _ => .fulfilled prices) rawPools errors = (do
      let filled ← fillTokens (groupTokens PoolToken.missesData rawPools) answer.data rawPools
      let filled ← updateGroups (groupTokens PoolToken.missesPrice rawPools) PoolToken.setPrice
        prices filled
      pure (filled, errors)) := by
  have htokens : handleTokens (groupTokens PoolToken.missesData rawPools) rawPools errors
      ((tokensRequest rawPools).map fun _ => .fulfilled answer) = (do
        let filled ← fillTokens (groupTokens PoolToken.missesData rawPools) answer.data rawPools
        pure (filled, errors)) := by
    cases hrequest : tokensRequest rawPools with
    | none =>
      have hdata : answer.data = [] := List.eq_nil_iff_forall_not_mem.mpr fun asset hmem => by
        simpa [hrequest] using h.data_requested asset hmem
      rw [hdata, fillTokens, lpTokens, fullTokens, slice_nil, slice_nil]
      rfl
    | some request => exact if_pos h.ok
  have hprices : ∀ filled, handlePrices (groupTokens PoolToken.missesPrice rawPools) filled errors
      ((pricesRequest rawPools).map fun _ => .fulfilled prices) = (do
        let filled ← updateGroups (groupTokens PoolToken.missesPrice rawPools) PoolToken.setPrice
          prices filled
        pure (filled, errors)) := by
    intro filled
    cases hrequest : pricesRequest rawPools with
    | none =>
      have hnone : prices = [] := List.eq_nil_iff_forall_not_mem.mpr fun price hmem => by
        simpa [hrequest] using h.prices_requested price.1 (List.mem_map_of_mem hmem)
      rw [hnone]
      rfl
    | some request => rfl
  simp only [handleMissedData, htokens, bind_assoc, pure_bind, hprices]

theorem mem_lpTokens {asset : Asset} (h : asset ∈ lpTokens rawPools data) : asset ∈ data :=
  (slice_sublist _ _ _).subset h

theorem mem_fullTokens {asset : Asset} (h : asset ∈ fullTokens rawPools data) : asset ∈ data :=
  (slice_sublist _ _ _).subset h

theorem mem_missed_addresses {a : Address} :
    a ∈ (missedTokens missed rawPools).map Prod.fst ↔
      ∃ ref token, tokenAt rawPools ref = some token ∧ missed token ∧ token.address = a := by
  constructor
  · intro hmem
    obtain ⟨⟨a', ref⟩, hentry, rfl⟩ := List.mem_map.mp hmem
    exact ⟨ref, mem_missedTokens.mp hentry⟩
  · rintro ⟨ref, htoken⟩
    exact List.mem_map.mpr ⟨(a, ref), mem_missedTokens.mpr htoken, rfl⟩

theorem succeeds_fillTokens :
    Succeeds (fillTokens (groupTokens PoolToken.missesData rawPools) data rawPools) ↔
      (∀ i, i < (lpTokens rawPools data).length → HasPool rawPools i) ∧
      ∀ asset ∈ fullTokens rawPools data,
        ∃ ref token, tokenAt rawPools ref = some token ∧ MissesData token.toERC20Token ∧
          token.address = asset.address := by
  have hlp := @succeeds_fillLpTokens rawPools (lpTokens rawPools data) 0
  simp only [Nat.zero_add] at hlp
  rw [fillTokens, succeeds_bind]
  simp only [succeeds_updateGroups, List.forall_mem_map, mem_missed_addresses, missesData_iff,
    exists_and_right, ← hlp]
  rfl

/-- What is left of the tokens when those with data and prices are filled. -/
theorem fillTokens_frame (hdata : (data.map fun asset => asset.address).Nodup)
    (h : fillTokens (groupTokens PoolToken.missesData rawPools) data rawPools = .ok filled) :
    (∀ i, lpTokenAt filled i = (lpTokenAt rawPools i).map fun target =>
      ((lpTokens rawPools data)[i]?.map fun lpToken =>
        objectUpdate target lpToken.toERC20Token).getD target) ∧
    ∀ ref, tokenAt filled ref = (tokenAt rawPools ref).map fun token =>
      { token with toERC20Token := if token.missesData then
          ownLpToken (fullTokens rawPools data) token.toERC20Token else token.toERC20Token } := by
  obtain ⟨filled', hlp, hfull⟩ := bind_eq_ok.mp h
  obtain ⟨htokens, -, hlp⟩ := fillLpTokens_frame hlp
  have hkeys : (JsMap.keys ((fullTokens rawPools data).map fun asset =>
      (asset.address, asset))).Nodup := by
    rw [JsMap.keys, List.map_map]
    exact hdata.sublist ((slice_sublist _ _ _).map _)
  obtain ⟨hgroups, hsame⟩ := updateGroups_frame hkeys hfull
  refine ⟨fun i => ?_, fun ref => ?_⟩
  · have hi := hlp i
    rw [Nat.zero_add] at hi
    rw [hsame, hi]
  · rw [hgroups, htokens]
    cases tokenAt rawPools ref with
    | none => rfl
    | some token =>
      simp only [Option.map_some, received, get_map_address, ownLpToken]
      split
      · cases (fullTokens rawPools data).find? (·.address = token.address) <;> rfl
      · rfl

/-- A token that finds its asset among the first ones, or lacks nothing of it, is filled as from all
assets. -/
theorem ownLpToken_fullTokens (hdata : (data.map fun asset => asset.address).Nodup)
    {token : ERC20Token} (h : ∀ asset ∈ data, asset.address = token.address →
      asset ∈ fullTokens rawPools data ∨ Complete token asset) :
    ownLpToken (fullTokens rawPools data) token = ownLpToken data token := by
  have hfull := hdata.sublist ((slice_sublist data 0 (data.length - rawPools.length)).map _)
  by_cases hown : ∃ asset ∈ data, asset.address = token.address
  · obtain ⟨asset, hmem, ha⟩ := hown
    rw [ownLpToken_of_mem hdata hmem ha]
    by_cases hin : asset ∈ fullTokens rawPools data
    · exact ownLpToken_of_mem hfull hin ha
    · rw [objectUpdate_complete ha ((h asset hmem ha).resolve_left hin)]
      refine ownLpToken_of_notMem fun other hother he => hin ?_
      exact eq_of_address hdata (mem_fullTokens hother) hmem (he.trans ha.symm) ▸ hother
  · rw [ownLpToken_of_notMem fun asset hmem ha => hown ⟨asset, hmem, ha⟩,
      ownLpToken_of_notMem fun asset hmem ha => hown ⟨asset, mem_fullTokens hmem, ha⟩]

/-- The whole of a fill: with such answers it goes through when the tokens can be filled, and then
pool tokens have their prices too. -/
theorem handleMissedData_frame (h : Answers rawPools answer prices) {errors : List JsValue}
    (hfilled : handleMissedData (fun _ => .fulfilled answer) (fun _ => .fulfilled prices) rawPools
      errors = .ok (filled, errors)) :
    (∀ i, lpTokenAt filled i = (lpTokenAt rawPools i).map fun target =>
      ((lpTokens rawPools answer.data)[i]?.map fun lpToken =>
        objectUpdate target lpToken.toERC20Token).getD target) ∧
    ∀ ref, tokenAt filled ref = (tokenAt rawPools ref).map fun token =>
      { ownPoolToken answer.data prices token with
        toERC20Token := (if token.missesData then
          ownLpToken (fullTokens rawPools answer.data) token.toERC20Token
          else token.toERC20Token) } := by
  rw [handleMissedData_eq h] at hfilled
  obtain ⟨filled', htokens, hrest⟩ := bind_eq_ok.mp hfilled
  obtain ⟨filled'', hprices, hrest⟩ := bind_eq_ok.mp hrest
  cases hrest
  obtain ⟨hlp, hdata⟩ := fillTokens_frame h.data_nodup htokens
  obtain ⟨hgroups, hsame⟩ := updateGroups_frame h.prices_nodup hprices
  refine ⟨fun i => (hsame i).trans (hlp i), fun ref => ?_⟩
  rw [hgroups, hdata]
  cases tokenAt rawPools ref with
  | none => rfl
  | some token =>
    simp only [Option.map_some, received, ownPoolToken]
    split
    · cases prices.get token.address <;> rfl
    · rfl

theorem succeeds_handleMissedData (h : Answers rawPools answer prices) (errors : List JsValue) :
    (∃ filled, handleMissedData (fun _ => .fulfilled answer) (fun _ => .fulfilled prices) rawPools
      errors = .ok (filled, errors)) ↔
      (∀ i, i < (lpTokens rawPools answer.data).length → HasPool rawPools i) ∧
      ∀ asset ∈ fullTokens rawPools answer.data,
        ∃ ref token, tokenAt rawPools ref = some token ∧ MissesData token.toERC20Token ∧
          token.address = asset.address := by
  rw [← succeeds_fillTokens, handleMissedData_eq h]
  constructor
  · rintro ⟨filled, hfilled⟩
    obtain ⟨filled', htokens, -⟩ := bind_eq_ok.mp hfilled
    exact ⟨filled', htokens⟩
  · rintro ⟨filled', htokens⟩
    obtain ⟨filled, hprices⟩ : Succeeds (updateGroups (groupTokens PoolToken.missesPrice rawPools)
        PoolToken.setPrice prices filled') := by
      apply succeeds_updateGroups.mpr
      intro price hprice
      have hrequested := h.prices_requested price.1 (List.mem_map_of_mem hprice)
      rw [← mem_unique, ← keys_groupTokens]
      cases hkeys : (groupTokens PoolToken.missesPrice rawPools).keys with
      | nil =>
        rw [pricesRequest, hkeys] at hrequested
        exact hrequested
      | cons key keys =>
        rw [pricesRequest, hkeys] at hrequested
        exact hrequested
    exact ⟨filled, by rw [htokens, ok_bind, hprices]; rfl⟩

/-- Where every token has ended with what is its own, the assets are aligned. -/
theorem aligned_of_ownData (hdata : (data.map fun asset => asset.address).Nodup)
    (hpools : ∀ i, i < (lpTokens rawPools data).length → HasPool rawPools i)
    (hothers : ∀ asset ∈ fullTokens rawPools data, ∃ ref token, tokenAt rawPools ref = some token ∧
      MissesData token.toERC20Token ∧ token.address = asset.address)
    (hlpToken : ∀ i lpToken, lpTokenAt rawPools i = some lpToken →
      OwnData data lpToken (((lpTokens rawPools data)[i]?.map fun asset =>
        objectUpdate lpToken asset.toERC20Token).getD lpToken))
    (hpoolToken : ∀ ref token, tokenAt rawPools ref = some token → MissesData token.toERC20Token →
      OwnData data token.toERC20Token (ownLpToken (fullTokens rawPools data) token.toERC20Token)) :
    Aligned rawPools data := by
  refine ⟨fun i asset hi => ?_, hothers, fun i lpToken asset hi hmem ha => ?_,
    fun ref token asset htoken hmissed hmem ha => ?_⟩
  · obtain ⟨hlength, -⟩ := List.getElem?_eq_some_iff.mp hi
    refine ⟨hpools i hlength, ?_⟩
    cases htarget : lpTokenAt rawPools i with
    | none =>
      have hposition := hpools i hlength
      rw [HasPool, Option.map_eq_none_iff.mp htarget] at hposition
      cases hposition
    | some lpToken =>
      have haddress := (hlpToken i lpToken htarget).address
      rw [hi, Option.map_some, Option.getD_some, address_objectUpdate] at haddress
      exact congrArg some haddress.symm
  · apply or_iff_not_imp_left.mpr
    intro hlength
    have hown := hlpToken i lpToken hi
    rw [List.getElem?_eq_none (Nat.not_lt.mp hlength)] at hown
    exact hown.complete hdata hmem ha
  · apply or_iff_not_imp_left.mpr
    intro hfull
    have hown := hpoolToken ref token htoken hmissed
    rw [ownLpToken_of_notMem fun other hother he => ?_] at hown
    · exact hown.complete hdata hmem ha
    · have hsame := eq_of_address hdata (mem_fullTokens hother) hmem (he.trans ha.symm)
      exact hfull (hsame ▸ hother)

/-- Where the assets are aligned, an LP token is filled with its own, or lacks nothing of it. -/
theorem Aligned.getD_lpTokens (H : Aligned rawPools data)
    (hdata : (data.map fun asset => asset.address).Nodup) {i : Nat} {lpToken : ERC20Token}
    (hlpToken : lpTokenAt rawPools i = some lpToken) :
    (((lpTokens rawPools data)[i]?.map fun asset =>
      objectUpdate lpToken asset.toERC20Token).getD lpToken) = ownLpToken data lpToken := by
  cases hi : (lpTokens rawPools data)[i]? with
  | some asset =>
    obtain ⟨-, haddress⟩ := H.last i asset hi
    rw [hlpToken] at haddress
    exact (ownLpToken_of_mem hdata (mem_lpTokens (List.mem_of_getElem? hi))
      (Option.some.inj haddress).symm).symm
  | none =>
    by_cases hown : ∃ asset ∈ data, asset.address = lpToken.address
    · obtain ⟨asset, hmem, ha⟩ := hown
      have hcomplete := (H.lpToken i lpToken asset hlpToken hmem ha).resolve_left
        (Nat.not_lt.mpr (List.getElem?_eq_none_iff.mp hi))
      rw [ownLpToken_of_mem hdata hmem ha, objectUpdate_complete ha hcomplete]
      rfl
    · exact (ownLpToken_of_notMem fun asset hmem ha => hown ⟨asset, hmem, ha⟩).symm

end

/-- Tokens are filled by identity exactly if the assets of the LP tokens come last, in the order of
the positions, and all others are of pool tokens that miss data. -/
theorem filledByIdentity_iff {rawPools : List LiquidityPosition} {answer : DetailedResponse}
    {prices : Prices} (h : Answers rawPools answer prices) (errors : List JsValue) :
    FilledByIdentity rawPools answer prices errors ↔ Aligned rawPools answer.data := by
  constructor
  · rintro ⟨filled, hfilled, hlpTokens, hpoolTokens⟩
    obtain ⟨hpools, hothers⟩ := (succeeds_handleMissedData h errors).mp ⟨filled, hfilled⟩
    obtain ⟨hlp, hpool⟩ := handleMissedData_frame h hfilled
    refine aligned_of_ownData h.data_nodup hpools hothers (fun i lpToken hi => ?_)
      fun ref token htoken hmissed => ?_
    · have hrel := hlpTokens i
      rw [hlp, hi, Option.map_some] at hrel
      cases hrel with
      | some hown => exact hown
    · have hrel := hpoolTokens ref
      rw [hpool, htoken, Option.map_some] at hrel
      cases hrel with
      | some hown =>
        have hdata := hown.missed hmissed
        rwa [if_pos (missesData_iff.mpr hmissed)] at hdata
  · intro haligned
    obtain ⟨filled, hfilled⟩ := (succeeds_handleMissedData h errors).mpr
      ⟨fun i hi => (haligned.last i _ (List.getElem?_eq_getElem hi)).1, haligned.others⟩
    obtain ⟨hlp, hpool⟩ := handleMissedData_frame h hfilled
    refine ⟨filled, hfilled, fun i => ?_, fun ref => ?_⟩
    · rw [hlp, Option.map_congr fun lpToken hi => haligned.getD_lpTokens h.data_nodup hi]
      exact rel_map (ownData_ownLpToken h.data_nodup) _
    · rw [hpool, Option.map_congr fun token htoken => ?_]
      · exact rel_map (ownPoolToken_spec h.data_nodup) _
      · rw [ownPoolToken]
        by_cases hmissed : token.missesData
        · simp only [hmissed, if_true, ownLpToken_fullTokens h.data_nodup fun asset hmem ha =>
            haligned.poolToken ref token asset htoken (missesData_iff.mp hmissed) hmem ha]
        · simp only [if_neg hmissed]

end

/-! ## One position -/

/-- A position whose pool token misses its data and its price. -/
def samplePools : List LiquidityPosition :=
  [{ lpToken := ⟨"0xa478c2975ab1ea89e8196811f51a7b7ade33eb11", []⟩
     poolTokens := some [⟨⟨"0x6b175474e89094c44da98b954eedeac495271d0f", []⟩, .undefined⟩]
     pool := some ⟨"0xa478c2975ab1ea89e8196811f51a7b7ade33eb11", .undefined⟩ }]

def daiAsset : Asset where
  address := "0x6b175474e89094c44da98b954eedeac495271d0f"
  fields := [("name", .str "Dai"), ("symbol", .str "DAI"), ("decimals", .num 18)]
  present := by decide
  names_nodup := by decide

def lpAsset : Asset where
  address := "0xa478c2975ab1ea89e8196811f51a7b7ade33eb11"
  fields := [("name", .str "Uniswap V2"), ("symbol", .str "UNI-V2"), ("decimals", .num 18)]
  present := by decide
  names_nodup := by decide

def fullAnswer : DetailedResponse := ⟨true, [], [daiAsset, lpAsset]⟩

/-- The service does not know the LP token. -/
def omittedAnswer : DetailedResponse := ⟨true, [], [daiAsset]⟩

theorem fullAnswer_answers : Answers samplePools fullAnswer [] where
  ok := rfl
  data_nodup := by decide
  data_requested := by decide
  prices_nodup := .nil
  prices_requested _ h := nomatch h

theorem tokenAt_samplePools {ref : TokenRef} {token : PoolToken}
    (h : tokenAt samplePools ref = some token) : token.address = daiAsset.address := by
  obtain ⟨_ | i, _ | j⟩ := ref
  · cases h
    rfl
  all_goals cases h

theorem fullAnswer_filled : FilledByIdentity samplePools fullAnswer [] [] := by
  have hlast : lpTokens samplePools fullAnswer.data = [lpAsset] := rfl
  have hfull : fullTokens samplePools fullAnswer.data = [daiAsset] := rfl
  refine (filledByIdentity_iff fullAnswer_answers []).mpr ⟨?_, ?_, ?_, ?_⟩
  · intro i asset hi
    rw [hlast] at hi
    obtain _ | i := i
    · cases hi
      exact ⟨rfl, rfl⟩
    · cases hi
  · intro asset hasset
    rw [hfull] at hasset
    obtain rfl := List.mem_singleton.mp hasset
    exact ⟨(0, 0), _, rfl, missesData_iff.mp rfl, rfl⟩
  · intro i lpToken asset hi _ _
    rw [hlast]
    obtain _ | i := i
    · exact .inl Nat.one_pos
    · cases hi
  · intro ref token asset htoken _ hmem ha
    rw [hfull]
    rw [tokenAt_samplePools htoken] at ha
    exact .inl (List.mem_singleton.mpr (eq_of_address fullAnswer_answers.data_nodup hmem
      (List.mem_cons_self ..) ha))

theorem asset_omitted :
    Answers samplePools omittedAnswer [] ∧ ¬ FilledByIdentity samplePools omittedAnswer [] [] := by
  refine ⟨⟨rfl, by decide, by decide, .nil, fun _ h => nomatch h⟩, ?_⟩
  rintro ⟨filled, hfilled, hlp, -⟩
  have hrun : ∃ filled, handleMissedData (fun _ => .fulfilled omittedAnswer)
      (fun _ => .fulfilled []) samplePools [] = .ok (filled, []) ∧
      (lpTokenAt filled 0).map ERC20Token.address = some daiAsset.address := ⟨_, rfl, rfl⟩
  obtain ⟨filled', hfilled', haddress⟩ := hrun
  rw [hfilled] at hfilled'
  cases hfilled'
  -- the LP token has another address
  cases hlpToken : lpTokenAt filled 0 with
  | none =>
    rw [hlpToken] at haddress
    cases haddress
  | some lpToken =>
    have hrel := hlp 0
    rw [hlpToken] at haddress hrel
    cases hrel with
    | some hown => exact absurd (hown.address.symm.trans (Option.some.inj haddress)) (by decide)

end MissedData
end Integration
end DefiBackend
