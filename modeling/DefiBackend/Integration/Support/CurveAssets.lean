import DefiBackend.Common.Address
import DefiBackend.Common.BigNumber
import DefiBackend.Common.MulticallAggregator

/-! # Assets of Curve pools

`curve.assets.manager.ts`: LP tokens are priced by what their pools hold, level by level. All that
this takes from the chain is collected first and read in one batch, under labels; the prices of the
tokens that are no LP tokens are fetched at once.

* `Source`: what is read from the chain; `sources`: what a token and those under it take;
* `processTokenBalancesRecursively`: the formatting of a token, given what is read and the prices;
* `getTokens_eq`: with the labelled batch each token is formatted as with calls of its own, made
  when it needs them. -/

namespace DefiBackend
namespace Integration
namespace CurveAssets
open Theory MulticallAggregator

/-! ## Tokens -/

/-- A token of the account service. -/
inductive Token
  | mk (address : Address) (decimals positionInPool : Nat) (isLp : Bool)
      (underlyingAssets : List Token)

/-- A formatted token. What a pool holds of it is there for underlying assets, the supply and the
underlying assets for LP tokens. -/
inductive Formatted
  | mk (address : Address) (decimals : Nat) (price : JsNumber) (totalSupply : Option JsNumber)
      (underlying : List Formatted) (reserve value : Option JsNumber) (position : Option Nat)

namespace Token

def address : Token → Address
  | mk address .. => address

def decimals : Token → Nat
  | mk _ decimals .. => decimals

def positionInPool : Token → Nat
  | mk _ _ positionInPool .. => positionInPool

def isLp : Token → Bool
  | mk _ _ _ isLp _ => isLp

end Token

namespace Formatted

def price : Formatted → JsNumber
  | mk _ _ price .. => price

/-- `Object.assign(token, { reserve, value, position })`. -/
def assign (reserve value : JsNumber) (position : Option Nat) : Formatted → Formatted
  | mk address decimals price totalSupply underlying _ _ _ =>
    mk address decimals price totalSupply underlying (some reserve) (some value) position

end Formatted

/-! ## Calls -/

def Minter.minter : AbiItem := ⟨"minter", [], [⟨"", "address"⟩]⟩

def Minter.balances : AbiItem := ⟨"balances", [⟨"arg0", "uint256"⟩], [⟨"", "uint256"⟩]⟩

def ERC20.totalSupply : AbiItem := ⟨"totalSupply", [], [⟨"", "uint256"⟩]⟩

/-- What is read from the chain: what a pool holds at a position, and the supply of an LP token. -/
inductive Source
  | balance (lpAddress : Address) (positionInPool : Nat)
  | totalSupply (tokenAddress : Address)
  deriving DecidableEq

namespace Source

/-- `getBalancesLabel` and `getTotalSupplyLabel`. -/
def label : Source → String
  | balance lpAddress positionInPool => lpAddress ++ "_" ++ toString positionInPool
  | totalSupply tokenAddress => tokenAddress ++ "_" ++ "totalSupply"

/-- The call for what is read, given the minters of the LP tokens. -/
def call (minter : Address → Address) : Source → CallData
  | balance lpAddress positionInPool =>
    createCall (minter lpAddress) Minter.balances [.num positionInPool]
  | totalSupply tokenAddress => createCall tokenAddress ERC20.totalSupply []

end Source

mutual
def getLpTokenAddressesRecursively : Token → List Address
  | .mk address _ _ _ underlyingAssets => addLpTokenAddresses underlyingAssets [address]

def addLpTokenAddresses : List Token → List Address → List Address
  | [], addresses => addresses
  | ua :: underlyingAssets, addresses =>
    addLpTokenAddresses underlyingAssets
      (if ua.isLp then (getLpTokenAddressesRecursively ua).foldl addToSet addresses else addresses)
end

mutual
def getUnderlyingTokenAddressesRecursively : Token → List Address
  | .mk address _ _ isLp underlyingAssets =>
    addUnderlyingTokenAddresses underlyingAssets (if isLp then [] else [address])

def addUnderlyingTokenAddresses : List Token → List Address → List Address
  | [], addresses => addresses
  | ua :: underlyingAssets, addresses =>
    addUnderlyingTokenAddresses underlyingAssets
      (if ua.isLp then
        (getUnderlyingTokenAddressesRecursively ua).foldl addToSet (addToSet addresses ua.address)
      else addToSet addresses ua.address)
end

/-- `new Map([...calls.entries(), ...others.entries()])`. -/
def mergeCalls (calls others : JsMap String CallData) : JsMap String CallData :=
  others.foldl (fun calls e => calls.set e.1 e.2) calls

section
variable (minter : Address → Address)

def setCall (calls : JsMap String CallData) (source : Source) : JsMap String CallData :=
  calls.set source.label (source.call minter)

mutual
def buildCallsForLpToken : Token → JsMap String CallData
  | .mk address _ _ _ underlyingAssets =>
    addUnderlyingCalls address underlyingAssets (setCall minter [] (.totalSupply address))

def addUnderlyingCalls (lpAddress : Address) : List Token → JsMap String CallData →
    JsMap String CallData
  | [], calls => calls
  | ua :: underlyingAssets, calls =>
    let calls := setCall minter calls (.balance lpAddress ua.positionInPool)
    addUnderlyingCalls lpAddress underlyingAssets
      (if ua.isLp then mergeCalls calls (buildCallsForLpToken ua) else calls)
end

def buildCalls (lpTokens : List Token) : JsMap String CallData :=
  lpTokens.foldl (fun calls t => mergeCalls calls (buildCallsForLpToken minter t)) []

end

/-! ## Formatting -/

/-- The number in `output.data.toString()`. -/
def dataNumber : Option OutputData → Except String JsNumber
  | some (.bigNumber n) | some (.value (.text _ n)) => .ok n
  | some _ => .ok .nan
  | none => .error typeError

section
variable (dataFrom : Source → Except String (Option OutputData)) (price : Address → JsNumber)

mutual
def processTokenBalancesRecursively : Token → Except String Formatted
  | .mk address decimals _ isLp underlyingAssets =>
    if isLp then do
      let (underlyingAssetsValue, underlying) ← processUnderlyingAssets address underlyingAssets 0
      let lpTokenTotalSupply ← dataFrom (.totalSupply address)
      let lpTokenTotalSupply ← dataNumber lpTokenTotalSupply
      let lpTokenTotalSupplyNormalized := lpTokenTotalSupply.normalizeDecimals decimals
      let lpTokenPrice := underlyingAssetsValue / lpTokenTotalSupplyNormalized
      pure (.mk address decimals lpTokenPrice (some lpTokenTotalSupplyNormalized) underlying none none
        none)
    else pure (.mk address decimals (price address) none [] none none none)

/-- The callback for the underlying assets. An LP token has lost its position when it is read. -/
def processUnderlyingAssets (lpAddress : Address) : List Token → JsNumber →
    Except String (JsNumber × List Formatted)
  | [], underlyingAssetsValue => pure (underlyingAssetsValue, [])
  | ua :: underlyingAssets, underlyingAssetsValue => do
    let balance ← dataFrom (.balance lpAddress ua.positionInPool)
    let balance ← dataNumber balance
    let balanceNormalized := balance.normalizeDecimals ua.decimals
    let formatted ← processTokenBalancesRecursively ua
    let value := balanceNormalized * formatted.price
    let position := if ua.isLp then none else some ua.positionInPool
    let rest ← processUnderlyingAssets lpAddress underlyingAssets (underlyingAssetsValue + value)
    pure (rest.1, formatted.assign balanceNormalized value position :: rest.2)
end

end

/-! ## The manager -/

section
variable (provider : Provider)

/-- `m.toLowerCase()`. -/
def lowerCaseText : Option OutputData → Except String Address
  | some (.value (.text m _)) => .ok (lowerCase m)
  | _ => .error typeError

def fetchMinters (tokenAddresses : List Address) : Except String (List Address) := do
  let minters ← provider.callArray (tokenAddresses.map fun tAddress =>
    createCall tAddress Minter.minter [])
  minters.mapM lowerCaseText

/-- The service has prices for those of the addresses that it knows. -/
def getTokenPricesFetch (known : Address → Option JsNumber) (addresses : List Address) :
    JsMap Address JsNumber :=
  addresses.filterMap fun address => (known address).map (address, ·)

/-- `Number(prices[address])`. -/
def priceIn (prices : JsMap Address JsNumber) (address : Address) : JsNumber :=
  (prices.get address).getD .nan

def getTokens (known : Address → Option JsNumber) (tokens : List Token) :
    Except String (List (Address × Formatted × Option Address)) := do
  let lpTokens := tokens.filter (·.isLp)
  let lpTokenAddresses := lpTokens.foldl
    (fun addresses lpToken => (getLpTokenAddressesRecursively lpToken).foldl addToSet addresses) []
  let tokenMinters ← fetchMinters provider lpTokenAddresses
  let mintersMap := JsMap.ofEntries (lpTokenAddresses.zip tokenMinters)
  -- an address without a minter is none that a call is made for
  let calls := buildCalls (fun lpAddress => (mintersMap.get lpAddress).getD "") lpTokens
  let callsResult ← provider.handleInBatches calls
  let tokenAddresses := tokens.foldl
    (fun addresses t => (getUnderlyingTokenAddressesRecursively t).foldl addToSet addresses) []
  let prices := getTokenPricesFetch known tokenAddresses
  tokens.mapM fun t => do
    let formatted ← processTokenBalancesRecursively
      (fun source => output callsResult source.label) (priceIn prices) t
    pure (t.address, formatted, mintersMap.get t.address)

end

/-! ## What is read -/

/-- The LP token for which something is read. -/
def Source.lp : Source → Address
  | balance lpAddress _ => lpAddress
  | totalSupply tokenAddress => tokenAddress

mutual
/-- What is read for an LP token and those under it. -/
def sources : Token → List Source
  | .mk address _ _ _ underlyingAssets => .totalSupply address :: sourcesOf address underlyingAssets

def sourcesOf (lpAddress : Address) : List Token → List Source
  | [] => []
  | ua :: underlyingAssets =>
    .balance lpAddress ua.positionInPool ::
      ((if ua.isLp then sources ua else []) ++ sourcesOf lpAddress underlyingAssets)
end

mutual
/-- The tokens whose prices are taken from the service. -/
def leaves : Token → List Address
  | .mk address _ _ isLp underlyingAssets => if isLp then leavesOf underlyingAssets else [address]

def leavesOf : List Token → List Address
  | [] => []
  | ua :: underlyingAssets => leaves ua ++ leavesOf underlyingAssets
end

section
variable {read read' : Source → Except String (Option OutputData)}
  {price price' : Address → JsNumber}

mutual
/-- A token is formatted by what is read for it and by the prices of its leaves. -/
theorem process_congr : ∀ t : Token, (t.isLp → ∀ s ∈ sources t, read s = read' s) →
    (∀ a ∈ leaves t, price a = price' a) →
    processTokenBalancesRecursively read price t = processTokenBalancesRecursively read' price' t
  | .mk address decimals position isLp underlyingAssets, hread, hprice => by
    rw [processTokenBalancesRecursively, processTokenBalancesRecursively]
    rw [leaves] at hprice
    cases isLp with
    | false =>
      rw [if_neg Bool.false_ne_true] at hprice
      rw [if_neg Bool.false_ne_true, if_neg Bool.false_ne_true,
        hprice address (List.mem_singleton_self _)]
    | true =>
      have hread := hread rfl
      rw [sources] at hread
      obtain ⟨hsupply, hread⟩ := List.forall_mem_cons.mp hread
      rw [if_pos rfl] at hprice
      rw [if_pos rfl, if_pos rfl, processUnderlying_congr address underlyingAssets 0 hread hprice,
        hsupply]

theorem processUnderlying_congr (lpAddress : Address) : ∀ (uas : List Token) (value : JsNumber),
    (∀ s ∈ sourcesOf lpAddress uas, read s = read' s) → (∀ a ∈ leavesOf uas, price a = price' a) →
    processUnderlyingAssets read price lpAddress uas value =
      processUnderlyingAssets read' price' lpAddress uas value
  | [], value, _, _ => rfl
  | ua :: uas, value, hread, hprice => by
    rw [sourcesOf] at hread
    rw [leavesOf] at hprice
    obtain ⟨hbalance, hread⟩ := List.forall_mem_cons.mp hread
    obtain ⟨hfirst, hrest⟩ := List.forall_mem_append.mp hread
    obtain ⟨hleaves, hleavesOf⟩ := List.forall_mem_append.mp hprice
    have hua := process_congr ua (fun hlp => by rwa [if_pos hlp] at hfirst) hleaves
    have huas := fun value => processUnderlying_congr lpAddress uas value hrest hleavesOf
    simp only [processUnderlyingAssets, hbalance, hua, huas]
end

end

mutual
/-- The minters are fetched of all LP tokens for which something is read. -/
theorem mem_getLpTokenAddresses {a : Address} : ∀ t : Token,
    a ∈ getLpTokenAddressesRecursively t ↔ a ∈ (sources t).map Source.lp
  | .mk address _ _ _ underlyingAssets => by
    rw [getLpTokenAddressesRecursively, mem_addLpTokenAddresses underlyingAssets address _
      (List.mem_singleton_self _), List.mem_singleton, sources, List.map_cons, List.mem_cons]
    rfl

theorem mem_addLpTokenAddresses {a : Address} : ∀ (uas : List Token) (lpAddress : Address)
    (addresses : List Address), lpAddress ∈ addresses →
    (a ∈ addLpTokenAddresses uas addresses ↔
      a ∈ addresses ∨ a ∈ (sourcesOf lpAddress uas).map Source.lp)
  | [], lpAddress, addresses, _ => by
    rw [addLpTokenAddresses, sourcesOf]
    simp
  | ua :: uas, lpAddress, addresses, hlp => by
    have hself : a = (Source.balance lpAddress ua.positionInPool).lp → a ∈ addresses := by
      rintro rfl
      exact hlp
    rw [addLpTokenAddresses, sourcesOf, List.map_cons, List.mem_cons, List.map_append,
      List.mem_append]
    cases ua.isLp with
    | true =>
      rw [if_pos rfl, if_pos rfl, mem_addLpTokenAddresses uas lpAddress _
        (mem_foldl_addToSet.mpr (.inl hlp)), mem_foldl_addToSet, mem_getLpTokenAddresses ua, or_assoc]
      exact ⟨fun h => h.imp_right .inr, fun h => h.elim .inl fun h => h.elim (.inl ∘ hself) .inr⟩
    | false =>
      rw [if_neg Bool.false_ne_true, if_neg Bool.false_ne_true,
        mem_addLpTokenAddresses uas lpAddress addresses hlp]
      refine ⟨fun h => h.imp_right fun h => .inr (.inr h), fun h => h.elim .inl fun h => ?_⟩
      exact h.elim (.inl ∘ hself) fun h => h.elim (fun h => absurd h List.not_mem_nil) .inr
end

mutual
/-- Prices are fetched for all leaves. -/
theorem mem_getUnderlying {a : Address} : ∀ t : Token, a ∈ leaves t →
    a ∈ getUnderlyingTokenAddressesRecursively t
  | .mk address _ _ isLp underlyingAssets, ha => by
    rw [getUnderlyingTokenAddressesRecursively]
    rw [leaves] at ha
    cases isLp with
    | true => exact mem_addUnderlying underlyingAssets [] (.inr (by rwa [if_pos rfl] at ha))
    | false =>
      rw [if_neg Bool.false_ne_true] at ha
      rw [if_neg Bool.false_ne_true]
      exact mem_addUnderlying underlyingAssets [address] (.inl ha)

theorem mem_addUnderlying {a : Address} : ∀ (uas : List Token) (addresses : List Address),
    a ∈ addresses ∨ a ∈ leavesOf uas → a ∈ addUnderlyingTokenAddresses uas addresses
  | [], addresses, h => by
    rw [addUnderlyingTokenAddresses]
    exact h.resolve_right List.not_mem_nil
  | ua :: uas, addresses, h => by
    rw [addUnderlyingTokenAddresses]
    rw [leavesOf, List.mem_append] at h
    apply mem_addUnderlying uas
    rcases h with h | h | h
    · left
      split
      · exact mem_foldl_addToSet.mpr (.inl (mem_addToSet.mpr (.inl h)))
      · exact mem_addToSet.mpr (.inl h)
    · left
      split
      · exact mem_foldl_addToSet.mpr (.inr (mem_getUnderlying ua h))
      · next hlp =>
        refine mem_addToSet.mpr (.inr ?_)
        obtain ⟨address, decimals, position, isLp, underlyingAssets⟩ := ua
        obtain rfl : isLp = false := Bool.eq_false_iff.mpr hlp
        rw [leaves, if_neg Bool.false_ne_true] at h
        exact List.mem_singleton.mp h
    · exact .inr h
end

/-! ## Labels -/

/-- What stands behind the last underscore of a label. -/
def Source.suffix : Source → List Char
  | balance _ positionInPool => Nat.toDigits 10 positionInPool
  | totalSupply _ => "totalSupply".toList

theorem Source.label_toList (s : Source) : s.label.toList = s.lp.toList ++ '_' :: s.suffix := by
  cases s with
  | balance _ n =>
    rw [label, String.toList_append, String.toList_append, List.append_assoc, Nat.toString_eq_repr,
      Nat.toList_repr]
    rfl
  | totalSupply =>
    rw [label, String.toList_append, String.toList_append, List.append_assoc]
    rfl

theorem Source.suffix_no_sep (s : Source) : '_' ∉ s.suffix := by
  cases s with
  | balance a n =>
    have hsuffix : (balance a n).suffix = Nat.toDigits 10 n := rfl
    rw [hsuffix]
    exact Nat.underscore_not_in_toDigits
  | totalSupply a =>
    have hsuffix : (totalSupply a).suffix = "totalSupply".toList := rfl
    rw [hsuffix]
    decide

theorem suffix_ne (n : Nat) : Nat.toDigits 10 n ≠ "totalSupply".toList := by
  intro h
  have hword : 't' ∈ "totalSupply".toList := by decide
  have hdigit : 't'.isDigit = true :=
    Nat.isDigit_of_mem_toDigits (by decide) (by decide) (h.symm.subst hword)
  exact absurd hdigit (by decide)

/-- The label tells what is read: a number stands behind its last underscore, or not. -/
theorem Source.label_inj {s s' : Source} (h : s.label = s'.label) : s = s' := by
  have hlist := congrArg String.toList h
  rw [label_toList, label_toList] at hlist
  obtain ⟨hlp, hsuffix⟩ := append_last_sep_inj s.suffix_no_sep s'.suffix_no_sep hlist
  have hlp := String.toList_inj.mp hlp
  cases s with
  | balance a n =>
    cases s' with
    | balance a' n' =>
      obtain rfl : a = a' := hlp
      rw [toDigits_inj hsuffix]
    | totalSupply => exact absurd hsuffix (suffix_ne n)
  | totalSupply a =>
    cases s' with
    | balance a' n' => exact absurd hsuffix.symm (suffix_ne n')
    | totalSupply a' =>
      obtain rfl : a = a' := hlp
      rfl

/-- A map of calls for what is read, each under its label. -/
structure Asks (minter : Address → Address) (asked : List Source) (calls : JsMap String CallData) :
    Prop where
  nodup : calls.keys.Nodup
  get : ∀ k call, calls.get k = some call ↔ ∃ s ∈ asked, s.label = k ∧ s.call minter = call

section
variable {minter : Address → Address} {asked asked' : List Source}
  {calls others : JsMap String CallData}

theorem Asks.nil : Asks minter [] [] := ⟨List.nodup_nil, fun _ _ => by simp⟩

theorem Asks.setCall (H : Asks minter asked calls) (s : Source) :
    Asks minter (asked ++ [s]) (setCall minter calls s) := by
  refine ⟨JsMap.nodup_keys_set H.nodup, fun k call => ?_⟩
  rw [CurveAssets.setCall, JsMap.get_set]
  split
  · next hk =>
    subst hk
    constructor
    · rintro ⟨⟩
      exact ⟨s, List.mem_append_right _ (List.mem_singleton_self _), rfl, rfl⟩
    · rintro ⟨s', -, hlabel, rfl⟩
      rw [Source.label_inj hlabel]
  · next hk =>
    rw [H.get]
    constructor
    · rintro ⟨s', hs', h⟩
      exact ⟨s', List.mem_append_left _ hs', h⟩
    · rintro ⟨s', hs', hlabel, hcall⟩
      rcases List.mem_append.mp hs' with hs' | hs'
      · exact ⟨s', hs', hlabel, hcall⟩
      · obtain rfl := List.mem_singleton.mp hs'
        exact absurd hlabel hk

theorem Asks.merge (H : Asks minter asked calls) (H' : Asks minter asked' others) :
    Asks minter (asked ++ asked') (mergeCalls calls others) := by
  have hreverse : ∀ k, others.reverse.lookup k = others.get k := by
    intro k
    apply Option.ext
    intro call
    have hnodup : (JsMap.keys others.reverse).Nodup := by
      rw [JsMap.keys, List.map_reverse]
      exact List.nodup_reverse.mpr H'.nodup
    exact (JsMap.get_eq_some_iff hnodup).trans
      (List.mem_reverse.trans (JsMap.get_eq_some_iff H'.nodup).symm)
  have hnodup : ∀ (entries : JsMap String CallData) (m : JsMap String CallData), m.keys.Nodup →
      (mergeCalls m entries).keys.Nodup := by
    intro entries
    induction entries with
    | nil => exact fun _ h => h
    | cons e entries ih => exact fun m h => ih _ (JsMap.nodup_keys_set h)
  refine ⟨hnodup others calls H.nodup, fun k call => ?_⟩
  rw [mergeCalls, JsMap.foldl_set_get, hreverse]
  cases hother : others.get k with
  | some other =>
    obtain ⟨s, hs, hlabel, rfl⟩ := (H'.get k other).mp hother
    rw [Option.some_or, Option.some.injEq]
    constructor
    · rintro rfl
      exact ⟨s, List.mem_append_right _ hs, hlabel, rfl⟩
    · rintro ⟨s', -, hlabel', rfl⟩
      rw [Source.label_inj (hlabel.trans hlabel'.symm)]
  | none =>
    rw [Option.none_or, H.get]
    constructor
    · rintro ⟨s, hs, h⟩
      exact ⟨s, List.mem_append_left _ hs, h⟩
    · rintro ⟨s, hs, hlabel, hcall⟩
      rcases List.mem_append.mp hs with hs | hs
      · exact ⟨s, hs, hlabel, hcall⟩
      · rw [(H'.get k call).mpr ⟨s, hs, hlabel, hcall⟩] at hother
        cases hother

mutual
/-- The calls for a token are those for what is read for it. -/
theorem asks_buildCallsForLpToken : ∀ t : Token,
    Asks minter (sources t) (buildCallsForLpToken minter t)
  | .mk address _ _ _ underlyingAssets => by
    rw [sources, buildCallsForLpToken]
    exact asks_addUnderlyingCalls address underlyingAssets (Asks.nil.setCall (.totalSupply address))

theorem asks_addUnderlyingCalls (lpAddress : Address) : ∀ (uas : List Token) {asked : List Source}
    {calls : JsMap String CallData}, Asks minter asked calls →
    Asks minter (asked ++ sourcesOf lpAddress uas) (addUnderlyingCalls minter lpAddress uas calls)
  | [], asked, calls, H => by
    rw [sourcesOf, addUnderlyingCalls, List.append_nil]
    exact H
  | ua :: uas, asked, calls, H => by
    have hset := H.setCall (.balance lpAddress ua.positionInPool)
    rw [sourcesOf, addUnderlyingCalls, ← List.singleton_append, ← List.append_assoc,
      ← List.append_assoc]
    apply asks_addUnderlyingCalls lpAddress uas
    cases ua.isLp with
    | true => exact hset.merge (asks_buildCallsForLpToken ua)
    | false =>
      rw [if_neg Bool.false_ne_true, if_neg Bool.false_ne_true, List.append_nil]
      exact hset
end

theorem asks_buildCalls (lpTokens : List Token) :
    Asks minter (lpTokens.flatMap sources) (buildCalls minter lpTokens) := by
  have hfold : ∀ {asked calls}, Asks minter asked calls → Asks minter
      (asked ++ lpTokens.flatMap sources)
      (lpTokens.foldl (fun calls t => mergeCalls calls (buildCallsForLpToken minter t)) calls) := by
    induction lpTokens with
    | nil =>
      intro asked calls H
      rw [List.flatMap_nil, List.append_nil]
      exact H
    | cons t lpTokens ih =>
      intro asked calls H
      rw [List.flatMap_cons, ← List.append_assoc]
      exact ih (H.merge (asks_buildCallsForLpToken t))
  exact hfold .nil

end

/-! ## With calls of its own -/

section
variable (provider : Provider)

/-- The minter of an LP token, by a call of its own. -/
def minterOf (lpAddress : Address) : Except String Address := do
  let minter ← provider.call (createCall lpAddress Minter.minter [])
  lowerCaseText minter

/-- Something is read by a call of its own, to the minter where it is a balance. -/
def readDirectly : Source → Except String (Option OutputData)
  | .balance lpAddress positionInPool => do
    let minter ← minterOf provider lpAddress
    provider.call (createCall minter Minter.balances [.num positionInPool])
  | .totalSupply tokenAddress => provider.call (createCall tokenAddress ERC20.totalSupply [])

/-- The LP tokens under some tokens for which something is read. -/
def lpAddresses (tokens : List Token) : List Address :=
  ((tokens.filter (·.isLp)).flatMap sources).map Source.lp

/-- The minter of an address, if it is that of an LP token. -/
def minterIfLp (tokens : List Token) (address : Address) : Except String (Option Address) :=
  if address ∈ lpAddresses tokens then (minterOf provider address).map some else .ok none

/-- A token, formatted with calls made when it needs them, and its minter if it has one. -/
def getTokenDirectly (known : Address → Option JsNumber) (tokens : List Token) (t : Token) :
    Except String (Address × Formatted × Option Address) := do
  let formatted ← processTokenBalancesRecursively (readDirectly provider)
    (fun address => (known address).getD .nan) t
  let minter ← minterIfLp provider tokens t.address
  pure (t.address, formatted, minter)

end

section
variable {provider : Provider} {known : Address → Option JsNumber} {tokens : List Token}

theorem mem_lpTokenAddresses {a : Address} (lpTokens : List Token) (addresses : List Address) :
    a ∈ lpTokens.foldl (fun addresses lpToken =>
      (getLpTokenAddressesRecursively lpToken).foldl addToSet addresses) addresses ↔
      a ∈ addresses ∨ a ∈ (lpTokens.flatMap sources).map Source.lp := by
  induction lpTokens generalizing addresses with
  | nil => simp
  | cons t lpTokens ih =>
    rw [List.foldl_cons, ih, mem_foldl_addToSet, mem_getLpTokenAddresses, List.flatMap_cons,
      List.map_append, List.mem_append, or_assoc]

theorem mem_tokenAddresses {a : Address} (addresses : List Address)
    (h : a ∈ addresses ∨ ∃ t ∈ tokens, a ∈ leaves t) :
    a ∈ tokens.foldl (fun addresses t =>
      (getUnderlyingTokenAddressesRecursively t).foldl addToSet addresses) addresses := by
  induction tokens generalizing addresses with
  | nil =>
    rcases h with h | ⟨t, ht, -⟩
    · exact h
    · cases ht
  | cons t tokens ih =>
    refine ih _ ?_
    rcases h with h | ⟨t', ht', ha⟩
    · exact .inl (mem_foldl_addToSet.mpr (.inl h))
    · rcases List.mem_cons.mp ht' with rfl | ht'
      · exact .inl (mem_foldl_addToSet.mpr (.inr (mem_getUnderlying t' ha)))
      · exact .inr ⟨t', ht', ha⟩

/-- The minter of an LP token, where there is one. -/
def minterAt (provider : Provider) (lpAddress : Address) : Address :=
  (minterOf provider lpAddress).toOption.getD ""

theorem minterOf_eq {a : Address} (h : Succeeds (minterOf provider a)) :
    minterOf provider a = .ok (minterAt provider a) := by
  obtain ⟨m, hm⟩ := h
  rw [minterAt, hm]
  rfl

theorem fetchMinters_eq {addresses : List Address}
    (h : ∀ a ∈ addresses, Succeeds (minterOf provider a)) :
    fetchMinters provider addresses = .ok (addresses.map (minterAt provider)) := by
  have hcall : ∀ a ∈ addresses, ∃ data,
      provider.call (createCall a Minter.minter []) = .ok data ∧
        lowerCaseText data = .ok (minterAt provider a) := by
    intro a ha
    have hm := minterOf_eq (h a ha)
    rw [minterOf] at hm
    exact bind_eq_ok.mp hm
  have hdata : addresses.mapM (fun a => provider.call (createCall a Minter.minter [])) =
      .ok (addresses.map fun a =>
        (provider.call (createCall a Minter.minter [])).toOption.getD none) := by
    refine mapM_eq_ok fun a ha => ?_
    obtain ⟨data, hdata, -⟩ := hcall a ha
    rw [hdata]
    rfl
  have hall : provider.callArray (addresses.map fun a => createCall a Minter.minter []) =
      addresses.mapM fun a => provider.call (createCall a Minter.minter []) := by
    refine Provider.callArray_map (fun a => (rfl : _ = Minter.minter)) (fun a b hab => ?_)
      fun a ha => ?_
    · rw [createCall_key_inj hab]
    · obtain ⟨data, hdata, -⟩ := hcall a ha
      exact ⟨data, hdata⟩
  rw [fetchMinters, hall, hdata, ok_bind, List.mapM_map]
  refine mapM_eq_ok fun a ha => ?_
  obtain ⟨data, hdata, hlower⟩ := hcall a ha
  rw [Function.comp_apply, hdata]
  exact hlower

/-- The minters by their LP tokens. -/
theorem get_mintersMap {addresses : List Address} {f : Address → Address} {a : Address} :
    (JsMap.ofEntries (addresses.zip (addresses.map f))).get a =
      if a ∈ addresses then some (f a) else none := by
  rw [← List.map_prod_left_eq_zip]
  split
  · next h => exact JsMap.get_ofEntries_graph f h
  · next h =>
    rw [JsMap.get_eq_none, JsMap.keys_ofEntries, mem_unique, List.map_map]
    simpa using h

/-- What has been asked for in a batch is what calls of its own read. -/
theorem output_eq {minter : Address → Address} {asked : List Source} {calls : JsMap String CallData}
    (H : Asks minter asked calls)
    (hselector : ∀ position : Nat, provider.encodeFunctionCall ERC20.totalSupply [] ≠
      provider.encodeFunctionCall Minter.balances [.num position])
    (hminter : ∀ s ∈ asked, minterOf provider s.lp = .ok (minter s.lp))
    (hread : ∀ s ∈ asked, Succeeds (readDirectly provider s)) :
    ∃ callsResult, provider.handleInBatches calls = .ok callsResult ∧
      ∀ s ∈ asked, output callsResult s.label = readDirectly provider s := by
  have hdirect : ∀ s ∈ asked, readDirectly provider s = provider.result (s.call minter) := by
    intro s hs
    have hm := hminter s hs
    cases s with
    | balance lpAddress position =>
      rw [Source.lp] at hm
      rw [readDirectly, hm, ok_bind, Provider.call_eq]
      rfl
    | totalSupply tokenAddress =>
      rw [readDirectly, Provider.call_eq]
      rfl
  have hentry : ∀ e ∈ calls, ∃ s ∈ asked, s.label = e.1 ∧ s.call minter = e.2 := by
    intro e he
    exact (H.get e.1 e.2).mp ((JsMap.get_eq_some_iff H.nodup).mpr he)
  have hsucceeds : ∀ e ∈ calls, Succeeds (provider.result e.2) := by
    intro e he
    obtain ⟨s, hs, -, hcall⟩ := hentry e he
    rw [← hcall, ← hdirect s hs]
    exact hread s hs
  have hagree : provider.Agree calls.values := by
    intro call hcall call' hcall' halike
    obtain ⟨e, he, rfl⟩ := List.mem_map.mp hcall
    obtain ⟨e', he', rfl⟩ := List.mem_map.mp hcall'
    obtain ⟨s, -, -, hs⟩ := hentry e he
    obtain ⟨s', -, -, hs'⟩ := hentry e' he'
    refine Provider.result_eq_of_alike ?_ halike
    rw [← hs, ← hs'] at halike ⊢
    cases s with
    | balance _ position =>
      cases s' with
      | balance => rfl
      | totalSupply => exact absurd halike.2.symm (hselector position)
    | totalSupply =>
      cases s' with
      | balance _ position => exact absurd halike.2 (hselector position)
      | totalSupply => rfl
  obtain ⟨callsResult, hresults, hown⟩ :=
    (Provider.map_transparent_iff H.nodup).mpr (fun _ => hagree) hsucceeds
  refine ⟨callsResult, hresults, fun s hs => ?_⟩
  have hmem := JsMap.mem_of_get ((H.get s.label (s.call minter)).mpr ⟨s, hs, rfl, rfl⟩)
  rw [hdirect s hs]
  exact hown _ hmem

/-- Where all calls have results, and no call for a supply is sent like one for a balance, all
tokens are formatted as with calls of their own. -/
theorem getTokens_eq
    (hselector : ∀ position : Nat, provider.encodeFunctionCall ERC20.totalSupply [] ≠
      provider.encodeFunctionCall Minter.balances [.num position])
    (hminter : ∀ a ∈ lpAddresses tokens, Succeeds (minterOf provider a))
    (hread : ∀ t ∈ tokens, t.isLp → ∀ s ∈ sources t, Succeeds (readDirectly provider s)) :
    getTokens provider known tokens = tokens.mapM (getTokenDirectly provider known tokens) := by
  have hall : ∀ a, a ∈ (tokens.filter (·.isLp)).foldl (fun addresses lpToken =>
      (getLpTokenAddressesRecursively lpToken).foldl addToSet addresses) [] ↔
        a ∈ lpAddresses tokens := by
    intro a
    rw [mem_lpTokenAddresses, lpAddresses]
    exact or_iff_right List.not_mem_nil
  rw [getTokens]
  generalize (tokens.filter (·.isLp)).foldl (fun addresses lpToken =>
    (getLpTokenAddressesRecursively lpToken).foldl addToSet addresses) [] = addresses at hall ⊢
  have hminters := fetchMinters_eq fun a ha => hminter a ((hall a).mp ha)
  rw [hminters, ok_bind]
  have hat : ∀ s ∈ (tokens.filter (·.isLp)).flatMap sources, minterOf provider s.lp =
      .ok (((JsMap.ofEntries (addresses.zip (addresses.map (minterAt provider)))).get s.lp).getD
        "") := by
    intro s hs
    have hmem : s.lp ∈ lpAddresses tokens := List.mem_map_of_mem hs
    rw [get_mintersMap, if_pos ((hall _).mpr hmem)]
    exact minterOf_eq (hminter _ hmem)
  have hreads : ∀ s ∈ (tokens.filter (·.isLp)).flatMap sources, Succeeds (readDirectly provider s) := by
    intro s hs
    obtain ⟨t, ht, hs⟩ := List.mem_flatMap.mp hs
    obtain ⟨ht, hlp⟩ := List.mem_filter.mp ht
    exact hread t ht hlp s hs
  have hasks : Asks (fun lpAddress =>
      ((JsMap.ofEntries (addresses.zip (addresses.map (minterAt provider)))).get lpAddress).getD "")
      _ _ := asks_buildCalls (tokens.filter (·.isLp))
  obtain ⟨callsResult, hresults, houtput⟩ := output_eq hasks hselector hat hreads
  dsimp only
  rw [hresults, ok_bind]
  refine mapM_congr fun t ht => ?_
  have hformatted : processTokenBalancesRecursively (fun source => output callsResult source.label)
      (priceIn (getTokenPricesFetch known (tokens.foldl (fun addresses t =>
        (getUnderlyingTokenAddressesRecursively t).foldl addToSet addresses) []))) t =
      processTokenBalancesRecursively (readDirectly provider)
        (fun address => (known address).getD .nan) t := by
    refine process_congr t (fun hlp s hs => ?_) fun a ha => ?_
    · exact houtput s (List.mem_flatMap.mpr ⟨t, List.mem_filter.mpr ⟨ht, hlp⟩, hs⟩)
    · rw [priceIn, getTokenPricesFetch, JsMap.get_filterMap_graph,
        if_pos (mem_tokenAddresses [] (.inr ⟨t, ht, ha⟩))]
  have hown : minterIfLp provider tokens t.address =
      .ok (if t.address ∈ addresses then some (minterAt provider t.address) else none) := by
    unfold minterIfLp
    by_cases hmem : t.address ∈ lpAddresses tokens
    · rw [if_pos hmem, if_pos ((hall _).mpr hmem), minterOf_eq (hminter _ hmem)]
      rfl
    · rw [if_neg hmem, if_neg fun h => hmem ((hall _).mp h)]
  rw [getTokenDirectly, hformatted, get_mintersMap, hown]
  rfl

end

/-! ## A pool -/

/-- A chain with one minter, which holds a thousand at its first position. -/
def sampleProvider : Provider where
  chain := 56
  encodeFunctionCall abi _ :=
    .ok (if abi.name = "minter" then "0x07546172"
      else if abi.name = "totalSupply" then "0x18160ddd"
      else "0x4903b0d10000000000000000000000000000000000000000000000000000000000000000")
  decodeParameters outputs _ :=
    .ok ⟨outputs.map fun o =>
      if o.type = "address" then .text "0x160CAed03795365F3A589f10C379FfA7d75d4E76" .nan
      else .text "1000" (.finite 1000), fun _ => none⟩
  execute _ _ := .ok "0x03e8"
  hex h := by
    cases h
    split
    · decide
    · split <;> decide

/-- An LP token over an LP token. -/
def samplePool : Token :=
  .mk "0xaf4de8e872131ae328ce21d909c74705d3aaf452" 18 0 true
    [.mk "0x5b5bd8913d766d005859ce002533d4838b0ebbb5" 18 0 true
      [.mk "0xe9e7cea3dedca5984780bafc599bd69add087d56" 18 0 false []]]

theorem getTokens_eq_sample : getTokens sampleProvider (fun _ => some 1) [samplePool] =
    [samplePool].mapM (getTokenDirectly sampleProvider (fun _ => some 1) [samplePool]) := by
  have hcall : ∀ call, Succeeds (sampleProvider.call call) := by
    intro call
    rw [Provider.call_eq]
    exact ⟨_, rfl⟩
  have hminter : ∀ a, Succeeds (minterOf sampleProvider a) := by
    intro a
    rw [minterOf, Provider.call_eq]
    exact ⟨_, rfl⟩
  refine getTokens_eq (fun _ h => ?_) (fun a _ => hminter a) fun t _ _ s _ => ?_
  · exact absurd (Except.ok.inj h) (by decide)
  · cases s with
    | balance lpAddress _ =>
      rw [readDirectly, minterOf_eq (hminter lpAddress), ok_bind]
      exact hcall _
    | totalSupply =>
      rw [readDirectly]
      exact hcall _

end CurveAssets
end Integration
end DefiBackend
