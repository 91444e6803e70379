import DefiBackend.Integration.Support.Opportunity
import DefiBackend.Integration.UniswapV3.PoolCoherence
import Mathlib.Data.List.ReduceOption

/-! # FraxStaking

`getUsersData` of `FraxStaking`: what users have staked, of which the Uniswap V3 NFTs are valued by
`UniswapProtocolV3.getUserPositions`. That leaves some of them out, and the others are taken from
its list by the places of the NFTs in the list that it was given.

* `getUserPositions_response`: the list for a user, NFT by NFT;
* `formatV3UserData`: the pairing by places, which fails at the end of a list that has become
  shorter (`formatV3UserData_succeeds`);
* `keepsOwnNumbers_iff`: when every NFT that is not left out is reported with its own numbers.

Pools are copied through JSON before the amounts of a user are assigned to them. -/

namespace DefiBackend
namespace Integration
open Theory UniswapV3

namespace FraxStaking

/-! ## Pools and their copies -/

/-- A numeric field in an arithmetic expression. -/
def number : Field JsNumber → JsNumber
  | .absent => .nan
  | .null => 0
  | .value n => n

/-- A numeric field after `JSON.parse(JSON.stringify(…))`. -/
def throughJson : Field JsNumber → Field JsNumber
  | .absent => .absent
  | .value (.finite q) => .value (.finite q)
  | .null | .value _ => .null

def fieldOf : Option JsNumber → Field JsNumber
  | some n => .value n
  | none => .absent

structure Underlying where
  address : Address
  name : String
  decimals : Nat
  symbol : String
  price : Field JsNumber
  reserve : Field JsNumber
  balance : Field JsNumber
  value : Field JsNumber
  position : Field JsNumber
  weight : Field JsNumber

structure SuppliedToken where
  address : Address
  name : String
  decimals : Nat
  price : Field JsNumber
  totalSupply : Field JsNumber
  underlying : Option (List Underlying)

structure Supplied where
  token : SuppliedToken
  totalSupplied : Field JsNumber
  tvl : Field JsNumber
  amount : Field JsNumber
  value : Field JsNumber

structure RewardToken where
  address : Address
  decimals : Nat
  price : Field JsNumber

structure Reward where
  token : RewardToken
  amount : Field JsNumber
  value : Field JsNumber

/-- A hydrated opportunity, and also the entry of a user that is made of its copy. -/
structure Pool where
  id : Address
  supplied : List Supplied
  rewarded : List Reward

def Underlying.copy (u : Underlying) : Underlying :=
  { u with
    price := throughJson u.price
    reserve := throughJson u.reserve
    balance := throughJson u.balance
    value := throughJson u.value
    position := throughJson u.position
    weight := throughJson u.weight }

def Supplied.copy (s : Supplied) : Supplied where
  token :=
    { s.token with
      price := throughJson s.token.price
      totalSupply := throughJson s.token.totalSupply
      underlying := s.token.underlying.map (·.map Underlying.copy) }
  totalSupplied := throughJson s.totalSupplied
  tvl := throughJson s.tvl
  amount := throughJson s.amount
  value := throughJson s.value

def Reward.copy (r : Reward) : Reward where
  token := { r.token with price := throughJson r.token.price }
  amount := throughJson r.amount
  value := throughJson r.value

/-- `JSON.parse(JSON.stringify(poolItem))`. -/
def Pool.copy (pool : Pool) : Pool :=
  { pool with supplied := pool.supplied.map Supplied.copy, rewarded := pool.rewarded.map Reward.copy }

/-! ## What the contracts answer -/

structure LockedNft where
  token_id : TokenId
  liquidity : JsNumber

/-- The output of a `userBalance` call: a list of locked NFTs, or a number or record. -/
inductive UserBalance
  | nfts (list : List LockedNft)
  | data (datum : Datum)

/-- The output of an `earned` call. -/
inductive Earned
  | one (n : JsNumber)
  | each (list : List JsNumber)

namespace Earned

/-- `new BigNumber(earned)`; a list of one number reads as this number. -/
def number : Earned → JsNumber
  | one n | each [n] => n
  | each _ => .nan

/-- `new BigNumber(earned[index] || earned)`. -/
def numberAt (earned : Earned) (index : Nat) : JsNumber :=
  match earned with
  | one n => n
  | each list => (list[index]?).getD earned.number

end Earned

/-- The outputs by user and pool. -/
structure UserCalls where
  userBalance : Address → Address → Option UserBalance
  earned : Address → Address → Option Earned

/-- A locked NFT with the copy of its pool. -/
structure LockedPosition where
  id : TokenId
  liquidity : JsNumber
  pool : Pool

/-- A stake in a pool, with its copy. -/
structure Stake where
  liquidity : JsNumber
  pool : Pool

section
variable (calls : UserCalls) (pools : List Pool)

/-- The NFTs of a list that have liquidity. -/
def positionsIn (pool : Pool) (list : List LockedNft) : List LockedPosition :=
  list.filterMap fun position =>
    if position.liquidity.falsy then none
    else some { id := position.token_id, liquidity := position.liquidity, pool := pool.copy }

/-- The liquidity of a balance that is not a list. -/
def stakedLiquidity : Datum → Option JsNumber
  | .number n => if n.falsy then none else some n
  | .text _ n => if n.falsy then none else some n
  | .record fields =>
    match fields.lookup "amount" with
    | some amount => if amount.toNumber.falsy then none else some amount.toStringNumber
    | none => none
  | .flag b => if b then some .nan else none

/-- `setArrayItemToMap(key, value, map)`, for a list. -/
def setArrayToMap (map : JsMap Address (List α)) (key : Address) (value : List α) :
    JsMap Address (List α) :=
  map.set key ((map.get key).getD [] ++ value)

/-- The lists of NFTs of a user, one for each pool that has answered with one. -/
def nftLists (a : Address) : List (Address × List LockedPosition) :=
  pools.filterMap fun pool =>
    match calls.userBalance a pool.id with
    | some (.nfts list) => some (a, positionsIn pool list)
    | _ => none

/-- `v3UsersPositionsMap`. -/
def v3UsersPositionsMap (addresses : List Address) : JsMap Address (List LockedPosition) :=
  (addresses.flatMap (nftLists calls pools)).foldl (fun map e => setArrayToMap map e.1 e.2) []

/-- The other stakes of a user. -/
def stakes (a : Address) : List (Address × Stake) :=
  pools.filterMap fun pool =>
    match calls.userBalance a pool.id with
    | some (.data datum) =>
      (stakedLiquidity datum).map fun liquidity => (a, { liquidity, pool := pool.copy })
    | _ => none

/-- `userPositionsMap`. -/
def userPositionsMap (addresses : List Address) : JsMap Address (List Stake) :=
  JsMap.collect (addresses.flatMap (stakes calls pools))

end

/-! ## Formatting -/

section
variable (calls : UserCalls) (fxsToken : Address) (a : Address)

def underlyingOf (token : PoolTokenDto) : Underlying where
  address := token.address
  name := token.name
  decimals := token.decimals
  symbol := token.symbol
  price := fieldOf token.price
  reserve := .value token.reserve
  balance := .value token.balance
  value := .value token.value
  position := .value (.finite token.positionInPool)
  weight := .value token.weight

/-- The reward of an NFT: the FXS that the contract answers, and else the fees of the position. -/
def formatV3Reward (poolId : Address) (respItem : LiquidityPoolFeature) (reward : Reward) :
    Except String Reward :=
  if reward.token.address = fxsToken then
    match calls.earned a poolId with
    | none => .error typeError
    | some earned =>
      let amount := earned.number.toDecimals reward.token.decimals
      .ok { reward with
        amount := .value amount
        value := .value (amount * number reward.token.price) }
  else
    match respItem.rewards.find? (·.address = reward.token.address) with
    | none => .error typeError
    | some v3Reward => .ok { reward with
        amount := .value v3Reward.balance
        value := .value v3Reward.value }

/-- The entry of an NFT, from its liquidity, the copy of its pool and the item of the response. -/
def formatV3Position (position : LockedPosition) (respItem : LiquidityPoolFeature) :
    Except String Pool :=
  match position.pool.supplied with
  | [] => .error typeError
  | supplied :: rest => do
    let rewarded ← position.pool.rewarded.mapM
      (formatV3Reward calls fxsToken a position.pool.id respItem)
    let symbols := "/".intercalate (respItem.tokens.map PoolTokenDto.symbol)
    return {
      id := position.pool.id
      supplied := {
        supplied with
        token := {
          supplied.token with
          address := respItem.lpToken.address
          name := "Uniswap V3 " ++ symbols
          underlying := some (respItem.tokens.map underlyingOf) }
        amount := .value position.liquidity
        value := .value ((respItem.tokens.map PoolTokenDto.value).foldl (· + ·) 0) } :: rest
      rewarded }

def formatV3UserData (rawUniV3 : List LockedPosition) (data : Option BaseDataLp) :
    Except String (List Pool) :=
  rawUniV3.zipIdx.mapM fun (position, index) =>
    match data.bind fun data => data.items[index]? with
    | none => .error typeError
    | some respItem => formatV3Position calls fxsToken a position respItem

/-- The amount and the value of the supplied token of a stake. -/
def formatSupplied (liquidity : JsNumber) (supplied : Supplied) : Supplied :=
  let liquidityDec := liquidity.toDecimals supplied.token.decimals
  match supplied.token.underlying with
  | some [u0, u1] =>
    let poolShare := liquidityDec / number supplied.token.totalSupply
    let underlying := [u0, u1].map fun u =>
      { u with
        balance := .value (poolShare * number u.reserve)
        value := .value (poolShare * number u.reserve * number u.price) }
    let value := (underlying.map fun u => number u.value).foldl (· + ·) 0
    { supplied with
      token := { supplied.token with underlying := some underlying }
      amount := .value liquidityDec
      value := if value.falsy then .null else .value value }
  | _ =>
    { supplied with
      amount := .value liquidityDec
      value := .value (liquidityDec * number supplied.token.price) }

/-- The entry of another stake. -/
def formatStake (stake : Stake) : Except String Pool :=
  match stake.pool.supplied, calls.earned a stake.pool.id with
  | supplied :: rest, some earned =>
    .ok {
      id := stake.pool.id
      supplied := formatSupplied stake.liquidity supplied :: rest
      rewarded := stake.pool.rewarded.zipIdx.map fun (reward, index) =>
        let amount := (earned.numberAt index).toDecimals reward.token.decimals
        { reward with
          amount := .value amount
          value := .value (amount * number reward.token.price) } }
  | _, _ => .error typeError

end

def formatUserData (calls : UserCalls) (fxsToken : Address) (uniV3Resp : List BaseDataLp)
    (usersPositions : JsMap Address (List Stake)) (uniV3Raw : JsMap Address (List LockedPosition))
    (addresses : List Address) : Except String (JsMap Address (List Pool)) := do
  let entries ← addresses.mapM fun a => do
    let userV3Data := uniV3Resp.find? (·.userAddress = a)
    let userPools ← ((usersPositions.get a).getD []).mapM (formatStake calls a)
    let userV3Pools ←
      formatV3UserData calls fxsToken a ((uniV3Raw.get a).getD []) userV3Data
    return (a, userV3Pools ++ userPools)
  return .ofEntries entries

structure Response where
  data : JsMap Address (List Pool)
  errors : List String

section
variable {κ : Type} [DecidableEq κ] (K : PositionKeys κ) (C : Contracts κ) (S : AssetServices)
  (fxsToken : Address) (pools : List Pool) (addresses : List Address)

/-- The ids that `getUserPositions` is asked for. -/
def userTokens (calls : UserCalls) : JsMap Address (List TokenId) :=
  (v3UsersPositionsMap calls pools addresses).map fun e => (e.1, e.2.map LockedPosition.id)

/-- The part of `getUsersData` whose exceptions are caught. -/
def formattedData (calls : UserCalls) : Except String (JsMap Address (List Pool)) := do
  let uniV3PositionsResp ← getUserPositions K C S (userTokens pools addresses calls)
  formatUserData calls fxsToken uniV3PositionsResp (userPositionsMap calls pools addresses)
    (v3UsersPositionsMap calls pools addresses) addresses

/-- `getUsersData`, for the pools and errors of `getPoolData`. -/
def getUsersData (errors : List String) (multicallUserData : Except String UserCalls) : Response :=
  match multicallUserData.bind (formattedData K C S fxsToken pools addresses) with
  | .ok data => ⟨data, errors⟩
  | .error e => ⟨[], errors ++ [e]⟩

end

/-! ## The values of the NFTs -/

section
variable {κ : Type} [DecidableEq κ] (K : PositionKeys κ) (C : Contracts κ) (S : AssetServices)

/-- How an NFT of a request is valued, `none` if it is left out. -/
def valuedItem (tokens : JsMap Address (List TokenId)) (tokenId : TokenId) :
    Except String (Option LiquidityPoolFeature) := do
  let userPositions ← getTokenDetails K C tokens
  let pools ← getPoolDetails C userPositions
  let (position, pool) ← positionAndPool userPositions pools tokenId
  (getUnderlyingAssets C S userPositions).positionItem position pool

/-- The item of an NFT in the response, if it has one. -/
def itemOf (tokens : JsMap Address (List TokenId)) (tokenId : TokenId) :
    Option LiquidityPoolFeature :=
  match valuedItem K C S tokens tokenId with
  | .ok item => item
  | .error _ => none

variable {K C S} {tokens : JsMap Address (List TokenId)}

theorem itemOf_of_valuedItem {tokenId : TokenId} {item : Option LiquidityPoolFeature}
    (h : valuedItem K C S tokens tokenId = .ok item) : item = itemOf K C S tokens tokenId := by
  rw [itemOf, h]

/-- The items for a user are those of the NFTs that are not left out, in their order. -/
theorem getUserPositions_response {response : List BaseDataLp}
    (h : getUserPositions K C S tokens = .ok response) :
    response = tokens.map fun user =>
      { userAddress := user.1, items := (user.2.map (itemOf K C S tokens)).reduceOption } := by
  unfold getUserPositions at h
  obtain ⟨userPositions, hpositions, h⟩ := bind_eq_ok.mp h
  obtain ⟨pools, hpools, h⟩ := bind_eq_ok.mp h
  refine eq_map_of_mapM h fun user _ data hdata => ?_
  obtain ⟨items, hitems, hdata⟩ := bind_eq_ok.mp hdata
  cases hdata
  rw [eq_map_of_mapM hitems fun tokenId _ item hitem => ?_]
  apply itemOf_of_valuedItem
  rw [valuedItem, hpositions, ok_bind, hpools, ok_bind]
  exact hitem

theorem find?_response (tokens : JsMap Address (List TokenId))
    (items : List TokenId → List LiquidityPoolFeature) (a : Address) :
    (tokens.map fun user => (⟨user.1, items user.2⟩ : BaseDataLp)).find? (·.userAddress = a) =
      (tokens.get a).map fun ids => ⟨a, items ids⟩ := by
  induction tokens with
  | nil => rfl
  | cons user tokens ih =>
    rw [List.map_cons, List.find?_cons, JsMap.get_cons, ih]
    by_cases ha : user.1 = a
    · simp [ha]
    · simp [ha]

end

/-! ## The positions of a user -/

section
variable {calls : UserCalls} {pools : List Pool} {addresses : List Address} {a : Address}

/-- The NFTs that a user has locked, in the order in which they are found. -/
def locked (calls : UserCalls) (pools : List Pool) (a : Address) : List LockedPosition :=
  ((nftLists calls pools a).map Prod.snd).flatten

theorem foldl_setArrayToMap_get (entries : List (Address × List α)) (map : JsMap Address (List α))
    (a : Address) :
    ((entries.foldl (fun map e => setArrayToMap map e.1 e.2) map).get a).getD [] =
      (map.get a).getD [] ++ ((entries.filter (·.1 = a)).map Prod.snd).flatten := by
  induction entries generalizing map with
  | nil => simp
  | cons e entries ih =>
    rw [List.foldl_cons, ih, setArrayToMap, JsMap.get_set, List.filter_cons]
    by_cases ha : e.1 = a
    · subst ha
      simp
    · simp [ha]

/-- Of the entries of some users, those of one of them. -/
theorem filter_entries {f : Address → List (Address × α)} (hf : ∀ b, ∀ e ∈ f b, e.1 = b)
    (haddresses : addresses.Nodup) (ha : a ∈ addresses) :
    (addresses.flatMap f).filter (·.1 = a) = f a := by
  have hother : ∀ b, b ≠ a → (f b).filter (·.1 = a) = [] := fun b hb =>
    List.filter_eq_nil_iff.mpr fun e he hof => hb ((hf b e he).symm.trans (of_decide_eq_true hof))
  have hnone : ∀ l : List Address, a ∉ l → (l.flatMap f).filter (·.1 = a) = [] := by
    intro l hl
    rw [List.filter_flatMap]
    exact List.flatMap_eq_nil_iff.mpr fun b hb => hother b fun h => hl (h ▸ hb)
  induction addresses with
  | nil => cases ha
  | cons b addresses ih =>
    obtain ⟨hb, haddresses⟩ := List.nodup_cons.mp haddresses
    rw [List.flatMap_cons, List.filter_append]
    by_cases hba : b = a
    · subst hba
      rw [hnone addresses hb, List.append_nil, List.filter_eq_self.mpr]
      exact fun e he => decide_eq_true (hf b e he)
    · rw [hother b hba, List.nil_append]
      exact ih haddresses ((List.mem_cons.mp ha).resolve_left (Ne.symm hba))

theorem fst_of_mem_nftLists (b : Address) : ∀ e ∈ nftLists calls pools b, e.1 = b := by
  intro e he
  obtain ⟨pool, -, hpool⟩ := List.mem_filterMap.mp he
  split at hpool
  · cases hpool
    rfl
  · cases hpool

theorem fst_of_mem_stakes (b : Address) : ∀ e ∈ stakes calls pools b, e.1 = b := by
  intro e he
  obtain ⟨pool, -, hpool⟩ := List.mem_filterMap.mp he
  split at hpool
  · obtain ⟨liquidity, -, rfl⟩ := Option.map_eq_some_iff.mp hpool
    rfl
  · cases hpool

theorem get_v3UsersPositionsMap (haddresses : addresses.Nodup) (ha : a ∈ addresses) :
    ((v3UsersPositionsMap calls pools addresses).get a).getD [] = locked calls pools a := by
  rw [v3UsersPositionsMap, foldl_setArrayToMap_get, JsMap.get_nil,
    filter_entries fst_of_mem_nftLists haddresses ha]
  rfl

theorem get_userPositionsMap (haddresses : addresses.Nodup) (ha : a ∈ addresses) :
    ((userPositionsMap calls pools addresses).get a).getD [] =
      (stakes calls pools a).map Prod.snd := by
  rw [userPositionsMap, JsMap.collect, JsMap.foldl_pushTo_get, JsMap.get_nil,
    filter_entries fst_of_mem_stakes haddresses ha]
  rfl

end

/-! ## Pairing by places -/

section
variable {calls : UserCalls} {fxsToken a : Address}
  {g : LockedPosition → Option LiquidityPoolFeature}

/-- The positions that are not left out, with their items. -/
def kept (g : LockedPosition → Option LiquidityPoolFeature) (positions : List LockedPosition) :
    List (LockedPosition × LiquidityPoolFeature) :=
  positions.filterMap fun position => (g position).map fun item => (position, item)

theorem kept_items (g : LockedPosition → Option LiquidityPoolFeature)
    (positions : List LockedPosition) :
    (kept g positions).map Prod.snd = (positions.map g).reduceOption := by
  unfold kept
  induction positions with
  | nil => rfl
  | cons position positions ih =>
    rw [List.filterMap_cons, List.map_cons]
    cases hitem : g position with
    | none =>
      rw [List.reduceOption_cons_of_none]
      exact ih
    | some item =>
      rw [List.reduceOption_cons_of_some]
      exact congrArg (item :: ·) ih

theorem kept_positions {positions : List LockedPosition}
    (h : ∀ position ∈ positions, (g position).isSome) :
    (kept g positions).map Prod.fst = positions := by
  unfold kept
  induction positions with
  | nil => rfl
  | cons position positions ih =>
    obtain ⟨hposition, hpositions⟩ := List.forall_mem_cons.mp h
    obtain ⟨item, hitem⟩ := Option.isSome_iff_exists.mp hposition
    rw [List.filterMap_cons, hitem]
    exact congrArg (position :: ·) (ih hpositions)

/-- When no position is left out, every one is formatted with its own item. -/
theorem formatV3UserData_of_kept {positions : List LockedPosition}
    (h : ∀ position ∈ positions, (g position).isSome) :
    formatV3UserData calls fxsToken a positions (some ⟨a, (positions.map g).reduceOption⟩) =
      (kept g positions).mapM fun e => formatV3Position calls fxsToken a e.1 e.2 := by
  have hpositions := kept_positions h
  rw [← kept_items]
  generalize kept g positions = pairs at hpositions ⊢
  subst hpositions
  have hplaces : (pairs.mapM fun e => formatV3Position calls fxsToken a e.1 e.2) =
      pairs.zipIdx.mapM fun p => formatV3Position calls fxsToken a p.1.1 p.1.2 := by
    conv_lhs => rw [← List.zipIdx_map_fst 0 pairs]
    rw [List.mapM_map]
    rfl
  rw [formatV3UserData, List.zipIdx_map, List.mapM_map, hplaces]
  apply mapM_congr
  intro p hp
  have hget : pairs[p.2]? = some p.1 := List.mk_mem_zipIdx_iff_getElem?.mp hp
  have hitem : (pairs.map Prod.snd)[p.2]? = some p.1.2 := by rw [List.getElem?_map, hget]; rfl
  change (match (pairs.map Prod.snd)[p.2]? with
    | none => _
    | some respItem => _) = _
  rw [hitem]

/-- When a position is left out, the list of the items ends too early. -/
theorem not_succeeds_formatV3UserData {positions : List LockedPosition}
    {position : LockedPosition} (hmem : position ∈ positions) (h : g position = none) :
    ¬ Succeeds (formatV3UserData calls fxsToken a positions
      (some ⟨a, (positions.map g).reduceOption⟩)) := by
  intro hsucceeds
  have hlength : (positions.map g).reduceOption.length < positions.length := by
    rw [← List.length_map g, List.reduceOption_length_lt_iff]
    exact List.mem_map.mpr ⟨position, hmem, h⟩
  have hlast := succeeds_mapM.mp hsucceeds
    (positions[(positions.map g).reduceOption.length], (positions.map g).reduceOption.length)
    (List.mk_mem_zipIdx_iff_getElem?.mpr (List.getElem?_eq_getElem hlength))
  simp at hlast

/-! ## The law -/

/-- The reward of an NFT is the FXS that the contract answers, or the fees of the position. -/
def OwnReward (calls : UserCalls) (fxsToken a : Address) (position : LockedPosition)
    (item : LiquidityPoolFeature) (reward reward' : Reward) : Prop :=
  reward'.token = reward.token ∧
    if reward.token.address = fxsToken then
      ∃ earned, calls.earned a position.pool.id = some earned ∧
        reward'.amount = .value (earned.number.toDecimals reward.token.decimals) ∧
        reward'.value = .value (earned.number.toDecimals reward.token.decimals *
          number reward.token.price)
    else
      ∃ v3Reward ∈ item.rewards, v3Reward.address = reward.token.address ∧
        reward'.amount = .value v3Reward.balance ∧ reward'.value = .value v3Reward.value

/-- An entry reports an NFT with its own liquidity and the underlying tokens, the value and the
rewards of its own item. -/
structure Reports (calls : UserCalls) (fxsToken a : Address) (position : LockedPosition)
    (item : LiquidityPoolFeature) (entry : Pool) : Prop where
  id : entry.id = position.pool.id
  supplied : ∃ s, entry.supplied.head? = some s ∧ s.amount = .value position.liquidity ∧
    s.token.underlying = some (item.tokens.map underlyingOf) ∧
    s.value = .value ((item.tokens.map PoolTokenDto.value).foldl (· + ·) 0)
  rewarded : List.Forall₂ (OwnReward calls fxsToken a position item) position.pool.rewarded
    entry.rewarded

theorem formatV3Reward_own {position : LockedPosition} {item : LiquidityPoolFeature}
    {reward reward' : Reward}
    (h : formatV3Reward calls fxsToken a position.pool.id item reward = .ok reward') :
    OwnReward calls fxsToken a position item reward reward' := by
  unfold formatV3Reward at h
  unfold OwnReward
  by_cases hfxs : reward.token.address = fxsToken
  · rw [if_pos hfxs] at h ⊢
    split at h
    · cases h
    · next earned hearned =>
      cases h
      exact ⟨rfl, earned, hearned, rfl, rfl⟩
  · rw [if_neg hfxs] at h ⊢
    split at h
    · cases h
    · next v3Reward hfind =>
      cases h
      have haddress : v3Reward.address = reward.token.address := by
        simpa using List.find?_some hfind
      exact ⟨rfl, v3Reward, List.mem_of_find?_eq_some hfind, haddress, rfl, rfl⟩

theorem formatV3Position_reports {position : LockedPosition} {item : LiquidityPoolFeature}
    {entry : Pool} (h : formatV3Position calls fxsToken a position item = .ok entry) :
    Reports calls fxsToken a position item entry := by
  unfold formatV3Position at h
  split at h
  · cases h
  · obtain ⟨rewarded, hrewarded, h⟩ := bind_eq_ok.mp h
    cases h
    refine ⟨rfl, ⟨_, rfl, rfl, rfl, rfl⟩, ?_⟩
    exact (mapM_forall₂.mp hrewarded).imp fun reward reward' hreward => formatV3Reward_own hreward

end

section
variable {κ : Type} [DecidableEq κ] (K : PositionKeys κ) (C : Contracts κ) (S : AssetServices)
  (fxsToken : Address) (pools : List Pool) (addresses : List Address) (calls : UserCalls)

/-- The item of a locked position in the response for the request. -/
def itemFor (position : LockedPosition) : Option LiquidityPoolFeature :=
  itemOf K C S (userTokens pools addresses calls) position.id

/-- Every NFT that is not left out is reported once, in order, with its own numbers, before the
other stakes, and nothing is thrown. -/
def KeepsOwnNumbers (errors : List String) : Prop :=
  (getUsersData K C S fxsToken pools addresses errors (.ok calls)).errors = errors ∧
  ∀ a ∈ addresses, ∃ entries others,
    (getUsersData K C S fxsToken pools addresses errors (.ok calls)).data.get a =
      some (entries ++ others) ∧
    List.Forall₂ (fun e entry => Reports calls fxsToken a e.1 e.2 entry)
      (kept (itemFor K C S pools addresses calls) (locked calls pools a)) entries ∧
    ((stakes calls pools a).map Prod.snd).mapM (formatStake calls a) = .ok others

/-- What the pools and the contracts give: a supplied token in each pool, an answer for each user
and pool, and for each NFT the rewards of its pool, which are FXS and the tokens of the NFT. -/
structure WellFormed : Prop where
  supplied : ∀ pool ∈ pools, pool.supplied ≠ []
  earned : ∀ a ∈ addresses, ∀ pool ∈ pools, (calls.earned a pool.id).isSome
  rewards : ∀ a ∈ addresses, ∀ position ∈ locked calls pools a, ∀ item,
    itemFor K C S pools addresses calls position = some item →
      ∀ reward ∈ position.pool.rewarded, reward.token.address = fxsToken ∨
        ∃ v3Reward ∈ item.rewards, v3Reward.address = reward.token.address

variable {K C S fxsToken pools addresses calls} {a : Address}

theorem pool_of_locked {position : LockedPosition} (h : position ∈ locked calls pools a) :
    ∃ pool ∈ pools, position.pool = pool.copy := by
  obtain ⟨list, hlist, hmem⟩ := List.mem_flatten.mp h
  obtain ⟨e, he, rfl⟩ := List.mem_map.mp hlist
  obtain ⟨pool, hpool, hlists⟩ := List.mem_filterMap.mp he
  split at hlists
  · cases hlists
    obtain ⟨nft, -, hnft⟩ := List.mem_filterMap.mp hmem
    simp only [Option.ite_none_left_eq_some, Option.some.injEq] at hnft
    obtain ⟨-, rfl⟩ := hnft
    exact ⟨pool, hpool, rfl⟩
  · cases hlists

theorem pool_of_stake {e : Address × Stake} (h : e ∈ stakes calls pools a) :
    ∃ pool ∈ pools, e.2.pool = pool.copy := by
  obtain ⟨pool, hpool, hstake⟩ := List.mem_filterMap.mp h
  split at hstake
  · obtain ⟨liquidity, -, rfl⟩ := Option.map_eq_some_iff.mp hstake
    exact ⟨pool, hpool, rfl⟩
  · cases hstake

theorem exists_supplied_copy {pool : Pool} (h : pool.supplied ≠ []) :
    ∃ s rest, pool.copy.supplied = s :: rest := by
  cases hsupplied : pool.supplied with
  | nil => exact absurd hsupplied h
  | cons s rest => exact ⟨s.copy, rest.map Supplied.copy, by rw [Pool.copy, hsupplied]; rfl⟩

/-- Each of the other stakes is formatted. -/
theorem WellFormed.stakes (H : WellFormed K C S fxsToken pools addresses calls)
    (ha : a ∈ addresses) :
    Succeeds (((FraxStaking.stakes calls pools a).map Prod.snd).mapM (formatStake calls a)) := by
  apply succeeds_mapM.mpr
  intro stake hstake
  obtain ⟨e, he, rfl⟩ := List.mem_map.mp hstake
  obtain ⟨pool, hpool, hcopy⟩ := pool_of_stake he
  obtain ⟨s, rest, hs⟩ := exists_supplied_copy (H.supplied pool hpool)
  obtain ⟨earned, hearned⟩ := Option.isSome_iff_exists.mp (H.earned a ha pool hpool)
  have hid : pool.copy.id = pool.id := rfl
  unfold formatStake
  rw [hcopy, hs, hid, hearned]
  exact succeeds_ok

/-- Each NFT is formatted with its own item. -/
theorem WellFormed.positions (H : WellFormed K C S fxsToken pools addresses calls)
    (ha : a ∈ addresses) :
    Succeeds ((kept (itemFor K C S pools addresses calls) (locked calls pools a)).mapM fun e =>
      formatV3Position calls fxsToken a e.1 e.2) := by
  apply succeeds_mapM.mpr
  intro e he
  obtain ⟨position, hposition, hpair⟩ := List.mem_filterMap.mp he
  obtain ⟨item, hitem, rfl⟩ := Option.map_eq_some_iff.mp hpair
  obtain ⟨pool, hpool, hcopy⟩ := pool_of_locked hposition
  obtain ⟨s, rest, hs⟩ := exists_supplied_copy (H.supplied pool hpool)
  have hsupplied : position.pool.supplied = s :: rest := hcopy ▸ hs
  have hrewards : Succeeds (position.pool.rewarded.mapM
      (formatV3Reward calls fxsToken a position.pool.id item)) := by
    apply succeeds_mapM.mpr
    intro reward hreward
    unfold formatV3Reward
    by_cases hfxs : reward.token.address = fxsToken
    · obtain ⟨earned, hearned⟩ := Option.isSome_iff_exists.mp (H.earned a ha pool hpool)
      have hid : position.pool.id = pool.id := hcopy ▸ rfl
      rw [if_pos hfxs, hid, hearned]
      exact succeeds_ok
    · obtain hfxs' | ⟨v3Reward, hmem, haddress⟩ :=
        H.rewards a ha position hposition item hitem reward hreward
      · exact absurd hfxs' hfxs
      · have hfind : (item.rewards.find? (·.address = reward.token.address)).isSome :=
          List.find?_isSome.mpr ⟨v3Reward, hmem, decide_eq_true haddress⟩
        obtain ⟨found, hfound⟩ := Option.isSome_iff_exists.mp hfind
        rw [if_neg hfxs, hfound]
        exact succeeds_ok
  obtain ⟨rewarded, hrewarded⟩ := hrewards
  unfold formatV3Position
  rw [hsupplied]
  exact succeeds_bind.mpr ⟨rewarded, hrewarded, succeeds_pure⟩

/-- The part of a user that is made of the NFTs. -/
theorem formatV3UserData_find {response : List BaseDataLp} (haddresses : addresses.Nodup)
    (ha : a ∈ addresses)
    (hvalued : getUserPositions K C S (userTokens pools addresses calls) = .ok response) :
    formatV3UserData calls fxsToken a
      (((v3UsersPositionsMap calls pools addresses).get a).getD [])
      (response.find? (·.userAddress = a)) =
        formatV3UserData calls fxsToken a (locked calls pools a)
          (some ⟨a, ((locked calls pools a).map
            (itemFor K C S pools addresses calls)).reduceOption⟩) := by
  have hget : (userTokens pools addresses calls).get a =
      ((v3UsersPositionsMap calls pools addresses).get a).map (·.map LockedPosition.id) :=
    JsMap.get_map_values _ _
  have hlocked : ((v3UsersPositionsMap calls pools addresses).get a).getD [] =
      locked calls pools a := get_v3UsersPositionsMap haddresses ha
  have hfind := find?_response (userTokens pools addresses calls) (fun ids =>
    (ids.map (itemOf K C S (userTokens pools addresses calls))).reduceOption) a
  rw [getUserPositions_response hvalued, hfind, hget, hlocked]
  cases hpositions : (v3UsersPositionsMap calls pools addresses).get a with
  | none =>
    rw [hpositions] at hlocked
    rw [← hlocked]
    rfl
  | some positions =>
    rw [hpositions] at hlocked
    obtain rfl : positions = locked calls pools a := hlocked
    rw [Option.map_some, Option.map_some, List.map_map]
    rfl

variable (K C S fxsToken pools addresses calls) in
/-- What `formatUserData` makes of a user, in terms of its stakes. -/
def formatUser (a : Address) : Except String (Address × List Pool) := do
  let userPools ← ((FraxStaking.stakes calls pools a).map Prod.snd).mapM (formatStake calls a)
  let userV3Pools ← formatV3UserData calls fxsToken a (locked calls pools a)
    (some ⟨a, ((locked calls pools a).map (itemFor K C S pools addresses calls)).reduceOption⟩)
  return (a, userV3Pools ++ userPools)

theorem formattedData_eq {response : List BaseDataLp} (haddresses : addresses.Nodup)
    (hvalued : getUserPositions K C S (userTokens pools addresses calls) = .ok response) :
    formattedData K C S fxsToken pools addresses calls = (do
      let entries ← addresses.mapM (formatUser K C S fxsToken pools addresses calls)
      return .ofEntries entries) := by
  unfold formattedData formatUserData
  rw [hvalued, ok_bind]
  refine congrArg (· >>= _) (mapM_congr fun a ha => ?_)
  dsimp only
  rw [get_userPositionsMap haddresses ha, formatV3UserData_find haddresses ha hvalued]
  rfl

/-- A user of which no NFT is left out. -/
theorem formatUser_of_kept (H : WellFormed K C S fxsToken pools addresses calls)
    (ha : a ∈ addresses) (hkept : ∀ position ∈ locked calls pools a,
      (itemFor K C S pools addresses calls position).isSome) :
    ∃ entries others,
      formatUser K C S fxsToken pools addresses calls a = .ok (a, entries ++ others) ∧
      List.Forall₂ (fun e entry => Reports calls fxsToken a e.1 e.2 entry)
        (kept (itemFor K C S pools addresses calls) (locked calls pools a)) entries ∧
      ((FraxStaking.stakes calls pools a).map Prod.snd).mapM (formatStake calls a) = .ok others := by
  obtain ⟨others, hothers⟩ := H.stakes ha
  obtain ⟨entries, hentries⟩ := H.positions ha
  refine ⟨entries, others, ?_, ?_, hothers⟩
  · unfold formatUser
    rw [hothers, ok_bind, formatV3UserData_of_kept hkept, hentries, ok_bind]
    rfl
  · exact (mapM_forall₂.mp hentries).imp fun e entry h => formatV3Position_reports h

/-- A user of which an NFT is left out. -/
theorem not_succeeds_formatUser {position : LockedPosition}
    (hposition : position ∈ locked calls pools a)
    (hleft : itemFor K C S pools addresses calls position = none) :
    ¬ Succeeds (formatUser K C S fxsToken pools addresses calls a) := by
  intro hsucceeds
  obtain ⟨_, -, hv3⟩ := succeeds_bind.mp hsucceeds
  obtain ⟨entries, hentries, -⟩ := succeeds_bind.mp hv3
  exact not_succeeds_formatV3UserData hposition hleft ⟨entries, hentries⟩

/-- When an NFT is left out, the response is an error for everybody; else every NFT is reported with
its own numbers. -/
theorem keepsOwnNumbers_iff {response : List BaseDataLp} (haddresses : addresses.Nodup)
    (hvalued : getUserPositions K C S (userTokens pools addresses calls) = .ok response)
    (H : WellFormed K C S fxsToken pools addresses calls) (errors : List String) :
    KeepsOwnNumbers K C S fxsToken pools addresses calls errors ↔
      ∀ a ∈ addresses, ∀ position ∈ locked calls pools a,
        (itemFor K C S pools addresses calls position).isSome := by
  have hdata : formattedData K C S fxsToken pools addresses calls = _ :=
    formattedData_eq haddresses hvalued
  have hresponse : getUsersData K C S fxsToken pools addresses errors (.ok calls) =
      match formattedData K C S fxsToken pools addresses calls with
      | .ok data => ⟨data, errors⟩
      | .error e => ⟨[], errors ++ [e]⟩ := rfl
  unfold KeepsOwnNumbers
  constructor
  · rintro ⟨hnone, -⟩ a ha position hposition
    by_contra hleft
    have hfails : ¬ Succeeds (formattedData K C S fxsToken pools addresses calls) := by
      rw [hdata]
      intro hsucceeds
      obtain ⟨entries, hentries, -⟩ := succeeds_bind.mp hsucceeds
      exact not_succeeds_formatUser hposition (Option.not_isSome_iff_eq_none.mp hleft)
        (succeeds_mapM.mp ⟨entries, hentries⟩ a ha)
    rw [hresponse] at hnone
    cases hformatted : formattedData K C S fxsToken pools addresses calls with
    | ok data => exact hfails ⟨data, hformatted⟩
    | error e =>
      rw [hformatted] at hnone
      simp at hnone
  · intro hkept
    choose! entries others huser hreports hothers using fun a ha =>
      formatUser_of_kept H ha (hkept a ha)
    have hentries : addresses.mapM (formatUser K C S fxsToken pools addresses calls) =
        .ok (addresses.map fun a => (a, entries a ++ others a)) := mapM_eq_ok huser
    rw [hresponse, hdata, hentries]
    refine ⟨rfl, fun a ha => ⟨entries a, others a, ?_, hreports a ha, hothers a ha⟩⟩
    exact JsMap.get_ofEntries_graph (fun a => entries a ++ others a) ha

end

/-! ## Two locked NFTs -/

/-- A farm for positions of the two tokens. -/
def sampleFarm : Pool where
  id := "farm"
  supplied := [⟨⟨"nft", "", 0, .null, .null, none⟩, .null, .null, .absent, .absent⟩]
  rewarded :=
    [⟨⟨"weth", 18, .value 1⟩, .absent, .absent⟩, ⟨⟨"fxs", 18, .value 1⟩, .absent, .absent⟩]

/-- A user has locked the NFTs 1 and 2. -/
def sampleLocked : UserCalls where
  userBalance _ _ := some (.nfts [⟨1, 1000⟩, ⟨2, 1000⟩])
  earned _ _ := some (.one 5)

def sampleServices : AssetServices where
  getAssets addresses := addresses.map fun address => ⟨address, address, address, 0⟩
  getTokenPricesFetch addresses := addresses.map fun address => (address, 1)

/-- The position of the first NFT in its pool has been withdrawn. -/
def withdrawnFirst : Contracts (ℤ × ℤ) :=
  { twoFeeTiers with poolPositions := fun _ key => ⟨if key.1 = -60 then 0 else 1000, 0, 0, 0, 0⟩ }

theorem wellFormed_sample :
    WellFormed tickKeys twoFeeTiers sampleServices "fxs" [sampleFarm] ["user"] sampleLocked where
  supplied := List.forall_mem_singleton.mpr (List.cons_ne_nil _ _)
  earned _ _ _ _ := rfl
  rewards a ha position hposition item hitem reward hreward := by
    cases List.mem_singleton.mp ha
    have hweth : ∀ id ∈ [1, 2], (itemOf tickKeys twoFeeTiers sampleServices
        (userTokens [sampleFarm] ["user"] sampleLocked) id).all fun item =>
          item.rewards.any (·.address = "weth") := by decide +kernel
    have hid : position.id ∈ [1, 2] := by
      obtain rfl | hposition := List.mem_cons.mp hposition
      · exact List.mem_cons_self ..
      · cases List.mem_singleton.mp hposition
        exact List.mem_cons_of_mem _ (List.mem_singleton_self _)
    obtain ⟨pool, hpool, hcopy⟩ := pool_of_locked hposition
    cases List.mem_singleton.mp hpool
    rw [hcopy] at hreward
    obtain rfl | hreward := List.mem_cons.mp hreward
    · have hall := hweth position.id hid
      change itemOf _ _ _ _ _ = some item at hitem
      rw [hitem] at hall
      obtain ⟨v3Reward, hmem, haddress⟩ := List.any_eq_true.mp hall
      exact .inr ⟨v3Reward, hmem, of_decide_eq_true haddress⟩
    · cases List.mem_singleton.mp hreward
      exact .inl rfl

/-- Both NFTs are valued, and reported. -/
theorem keepsOwnNumbers_sample :
    KeepsOwnNumbers tickKeys twoFeeTiers sampleServices "fxs" [sampleFarm] ["user"] sampleLocked
      [] := by
  have hok : (getUserPositions tickKeys twoFeeTiers sampleServices
      (userTokens [sampleFarm] ["user"] sampleLocked)).isOk := by decide +kernel
  cases hvalued : getUserPositions tickKeys twoFeeTiers sampleServices
    (userTokens [sampleFarm] ["user"] sampleLocked) with
  | error e =>
    rw [hvalued] at hok
    cases hok
  | ok response =>
    refine (keepsOwnNumbers_iff (List.nodup_singleton _) hvalued wellFormed_sample []).mpr ?_
    intro a ha position hposition
    have hsome : ∀ id ∈ [1, 2], (itemOf tickKeys twoFeeTiers sampleServices
        (userTokens [sampleFarm] ["user"] sampleLocked) id).isSome := by decide +kernel
    refine hsome position.id ?_
    obtain rfl | hposition := List.mem_cons.mp hposition
    · exact List.mem_cons_self ..
    · cases List.mem_singleton.mp hposition
      exact List.mem_cons_of_mem _ (List.mem_singleton_self _)

/-- The first NFT is left out, and the second one is not reported. -/
theorem withdrawnFirst_not_reported :
    (itemOf tickKeys withdrawnFirst sampleServices
      (userTokens [sampleFarm] ["user"] sampleLocked) 2).isSome ∧
    ¬ KeepsOwnNumbers tickKeys withdrawnFirst sampleServices "fxs" [sampleFarm] ["user"] sampleLocked
      [] := by
  refine ⟨by decide +kernel, fun ⟨hnone, _⟩ => ?_⟩
  have herrors : (getUsersData tickKeys withdrawnFirst sampleServices "fxs" [sampleFarm] ["user"] []
      (.ok sampleLocked)).errors = [typeError] := by decide +kernel
  rw [herrors] at hnone
  cases hnone

end FraxStaking
end Integration
end DefiBackend
