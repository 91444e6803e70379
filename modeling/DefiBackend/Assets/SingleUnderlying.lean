import DefiBackend.Assets.SpecificPrices
import DefiBackend.Common.BigNumber
import DefiBackend.Common.MulticallAggregator
import Mathlib.Algebra.Order.Field.Power
import Mathlib.Tactic.LinearCombination

/-! # Prices of receipt tokens

`SingleUnderlyingGenericPriceProvider`: the price of a token that is issued for one underlying
token, from its total supply and from what it holds of the underlying token.

* `getPrices_eq`: every asset is priced from its own amounts;
* `conservesValue_iff`: the price is the reciprocal of the one that conserves the value, so that it
  is right where both amounts are the same. -/

namespace DefiBackend
namespace Assets
namespace SingleUnderlying
open MulticallAggregator SpecificPrices Theory JsNumber

namespace ERC20

def totalSupply : AbiItem := ⟨"totalSupply", [], [⟨"", "uint256"⟩]⟩

def balanceOf : AbiItem := ⟨"balanceOf", [⟨"", "address"⟩], [⟨"", "uint256"⟩]⟩

end ERC20

structure AssetReference where
  chainId : ChainId
  address : Address

/-- A text of a number is the number. -/
structure AssetPriceWithUnderlyingReserves where
  asset : AssetReference
  reserves : List JsNumber
  price : JsNumber

/-- `asset.underlying[0]`, of which properties are read. -/
def firstUnderlying (asset : ComplexAsset) : Except String UnderlyingAsset :=
  match asset.underlying with
  | some (underlying :: _) => pure underlying
  | _ => throw typeError

/-- A single output of type `uint256` is a big number. -/
def bigNumber : Option OutputData → Except String JsNumber
  | some (.bigNumber n) => pure n
  | _ => throw typeError

def totalSupplyCall (asset : ComplexAsset) : CallData :=
  createCall asset.address ERC20.totalSupply []

def balanceOfCall (x : Address × Address) : CallData :=
  createCall x.1 ERC20.balanceOf [.str x.2]

/-! `quotient a b` is `a.dividedBy(b)`: the code's is `dividedBy`, which keeps twenty decimal
places, and over exact decimals it is the plain quotient. -/

section
variable (quotient : JsNumber → JsNumber → JsNumber) (provider : Provider)

def normalizeDecimals (number : JsNumber) (decimals : Nat) : JsNumber :=
  quotient number (tenPow decimals)

def getPrice (asset : ComplexAsset) (totalSupply held : Option OutputData) :
    Except String AssetPriceWithUnderlyingReserves := do
  let underlying ← firstUnderlying asset
  let baseTokenTotalSupply ← bigNumber totalSupply
  let underlyingTokenHeldByBaseContract ← bigNumber held
  return {
    asset := ⟨provider.chain, asset.address⟩
    reserves := [underlyingTokenHeldByBaseContract]
    price := quotient (normalizeDecimals quotient baseTokenTotalSupply asset.decimals)
      (normalizeDecimals quotient underlyingTokenHeldByBaseContract underlying.decimals) *
        underlying.price.getD nan }

/-- The answers of both batches are joined by their places. -/
def getPrices (assets : List ComplexAsset) :
    Except String (List AssetPriceWithUnderlyingReserves) := do
  let held ← assets.mapM fun asset => do
    let underlying ← firstUnderlying asset
    return (underlying.address, asset.address)
  let baseTokenTotalSupply ← provider.callArray (assets.map totalSupplyCall)
  let underlyingTokenHeldByBaseContract ← provider.callArray (held.map balanceOfCall)
  assets.zipIdx.mapM fun (asset, index) =>
    getPrice quotient provider asset (baseTokenTotalSupply[index]?).join
      (underlyingTokenHeldByBaseContract[index]?).join

end

/-! ## Assets with one underlying token -/

/-- An asset with one underlying token, and the amounts that the chain has for it. -/
structure BackedAsset (provider : Provider) where
  address : Address
  decimals : Nat
  underlying : Address
  underlyingDecimals : Nat
  underlyingPrice : ℚ
  totalSupply : ℚ
  underlyingBalance : ℚ
  totalSupply_pos : 0 < totalSupply
  underlyingBalance_pos : 0 < underlyingBalance
  call_totalSupply : provider.call (createCall address ERC20.totalSupply []) =
    .ok (some (.bigNumber (finite totalSupply)))
  call_balanceOf : provider.call (createCall underlying ERC20.balanceOf [.str address]) =
    .ok (some (.bigNumber (finite underlyingBalance)))

namespace BackedAsset
variable {provider : Provider} (b : BackedAsset provider)

def asset : ComplexAsset :=
  ⟨b.address, b.decimals,
    some [⟨b.underlying, b.underlyingDecimals, some (finite b.underlyingPrice)⟩]⟩

/-- The total supply, normalised. -/
def supply : ℚ := b.totalSupply / 10 ^ (b.decimals : ℤ)

/-- The balance of the underlying token, normalised. -/
def balance : ℚ := b.underlyingBalance / 10 ^ (b.underlyingDecimals : ℤ)

theorem supply_pos : 0 < b.supply := div_pos b.totalSupply_pos (zpow_pos (by norm_num) _)

theorem balance_pos : 0 < b.balance :=
  div_pos b.underlyingBalance_pos (zpow_pos (by norm_num) _)

/-- What is answered for the asset. -/
def answer (quotient : JsNumber → JsNumber → JsNumber) : AssetPriceWithUnderlyingReserves where
  asset := ⟨provider.chain, b.address⟩
  reserves := [finite b.underlyingBalance]
  price := quotient (normalizeDecimals quotient (finite b.totalSupply) b.decimals)
    (normalizeDecimals quotient (finite b.underlyingBalance) b.underlyingDecimals) *
      finite b.underlyingPrice

end BackedAsset

section
variable {quotient : JsNumber → JsNumber → JsNumber} {provider : Provider}

theorem callArray_totalSupplyCall (assets : List ComplexAsset)
    (h : ∀ asset ∈ assets, Succeeds (provider.call (totalSupplyCall asset))) :
    provider.callArray (assets.map totalSupplyCall) =
      assets.mapM fun asset => provider.call (totalSupplyCall asset) := by
  refine Provider.callArray_map (fun _ => rfl) (fun asset asset' hkey => ?_) h
  rw [totalSupplyCall, totalSupplyCall, createCall_key_inj hkey]

theorem callArray_balanceOfCall (held : List (Address × Address))
    (h : ∀ x ∈ held, Succeeds (provider.call (balanceOfCall x))) :
    provider.callArray (held.map balanceOfCall) =
      held.mapM fun x => provider.call (balanceOfCall x) := by
  refine Provider.callArray_map (fun _ => rfl) (fun x y hkey => ?_) h
  obtain ⟨haddress, htext⟩ := createCall_text_key_inj hkey
  rw [balanceOfCall, balanceOfCall, haddress, htext]

/-- Every asset is answered for with its own amounts. -/
theorem getPrices_eq (backed : List (BackedAsset provider)) :
    getPrices quotient provider (backed.map BackedAsset.asset) =
      .ok (backed.map (·.answer quotient)) := by
  have hheld : (backed.map BackedAsset.asset).mapM (fun asset => do
      let underlying ← firstUnderlying asset
      return (underlying.address, asset.address)) =
        (.ok (backed.map fun b => (b.underlying, b.address)) : Except String _) := by
    rw [List.mapM_map]
    exact mapM_eq_ok fun _ _ => rfl
  have hsupplies : provider.callArray ((backed.map BackedAsset.asset).map totalSupplyCall) =
      .ok (backed.map fun b => some (.bigNumber (finite b.totalSupply))) := by
    rw [callArray_totalSupplyCall, List.mapM_map]
    · exact mapM_eq_ok fun b _ => b.call_totalSupply
    · exact List.forall_mem_map.mpr fun b _ => ⟨_, b.call_totalSupply⟩
  have hbalances : provider.callArray ((backed.map fun b => (b.underlying, b.address)).map
      balanceOfCall) = .ok (backed.map fun b => some (.bigNumber (finite b.underlyingBalance))) := by
    rw [callArray_balanceOfCall, List.mapM_map]
    · exact mapM_eq_ok fun b _ => b.call_balanceOf
    · exact List.forall_mem_map.mpr fun b _ => ⟨_, b.call_balanceOf⟩
  rw [getPrices, hheld, ok_bind, hsupplies, ok_bind, hbalances, ok_bind]
  have hanswers : backed.mapM (fun b => (.ok (b.answer quotient) : Except String _)) =
      .ok (backed.map (·.answer quotient)) := mapM_eq_ok fun _ _ => rfl
  rw [← hanswers]
  apply mapM_zipIdx_eq
  intro idx b hidx
  simp only [List.getElem?_map, hidx, Option.map_some, Option.join_some]
  rfl

end

/-! ## The value -/

/-- Every asset is answered for with its own reserve and with the price at which its supply is worth
what is held for it. -/
def ConservesValue (quotient : JsNumber → JsNumber → JsNumber) {provider : Provider}
    (backed : List (BackedAsset provider)) : Prop :=
  ∃ prices, getPrices quotient provider (backed.map BackedAsset.asset) = .ok prices ∧
    List.Forall₂ (fun b price => price.asset = ⟨provider.chain, b.address⟩ ∧
      price.reserves = [finite b.underlyingBalance] ∧
      price.price * finite b.supply = finite (b.balance * b.underlyingPrice)) backed prices

theorem BackedAsset.answer_price {provider : Provider} (b : BackedAsset provider) :
    (b.answer (· / ·)).price = finite (b.supply / b.balance * b.underlyingPrice) := by
  have hnormalize (q : ℚ) (decimals : Nat) :
      normalizeDecimals (· / ·) (finite q) decimals = finite (q / 10 ^ (decimals : ℤ)) :=
    finite_div q (zpow_ne_zero _ (by norm_num))
  rw [answer, hnormalize, hnormalize]
  have hdiv := finite_div b.supply b.balance_pos.ne'
  exact congrArg (· * finite b.underlyingPrice) hdiv

/-- The supply over the balance is the right price of one underlying token only where they are the
same. -/
theorem price_mul_supply_eq {S B p : ℚ} (hS : 0 < S) (hB : 0 < B) :
    S / B * p * S = B * p ↔ p = 0 ∨ S = B := by
  have hsquares : S * S = B * B ↔ S = B := mul_self_inj hS.le hB.le
  rw [← hsquares, div_mul_eq_mul_div, div_mul_eq_mul_div, div_eq_iff hB.ne']
  constructor
  · intro h
    rcases eq_or_ne p 0 with hp | hp
    · exact .inl hp
    · exact .inr (mul_right_cancel₀ hp (by linear_combination h))
  · rintro (rfl | h)
    · ring
    · linear_combination p * h

/-- Over exact decimals the value of the assets is conserved exactly where the normalised total
supply is the normalised balance, or the underlying token is worth nothing. -/
theorem conservesValue_iff {provider : Provider} (backed : List (BackedAsset provider)) :
    ConservesValue (· / ·) backed ↔
      ∀ b ∈ backed, b.underlyingPrice = 0 ∨ b.supply = b.balance := by
  have hvalue (b : BackedAsset provider) : (b.answer (· / ·)).price * finite b.supply =
      finite (b.balance * b.underlyingPrice) ↔ b.underlyingPrice = 0 ∨ b.supply = b.balance := by
    rw [b.answer_price, ← price_mul_supply_eq b.supply_pos b.balance_pos]
    exact ⟨finite.inj, congrArg finite⟩
  rw [ConservesValue, getPrices_eq]
  constructor
  · rintro ⟨_, h, hprices⟩ b hb
    cases h
    rw [List.forall₂_map_right_iff, List.forall₂_same] at hprices
    exact (hvalue b).mp (hprices b hb).2.2
  · intro h
    refine ⟨_, rfl, ?_⟩
    rw [List.forall₂_map_right_iff, List.forall₂_same]
    exact fun b hb => ⟨rfl, rfl, (hvalue b).mpr (h b hb)⟩

/-! ## Two underlying tokens for each token -/

/-- A chain on which two tokens are issued for four that are held. -/
def sampleProvider : Provider where
  chain := 1
  encodeFunctionCall abi _ := .ok (if abi.name = "totalSupply" then "0x2" else "0x4")
  decodeParameters _ plain :=
    .ok ⟨[if plain = "0x2" then .text "2" 2 else .text "4" 4], fun _ => none⟩
  execute _ plain := .ok plain
  hex h := by
    cases h
    split <;> decide

def receiptToken : BackedAsset sampleProvider where
  address := "0xa"
  decimals := 0
  underlying := "0xb"
  underlyingDecimals := 0
  underlyingPrice := 1
  totalSupply := 2
  underlyingBalance := 4
  totalSupply_pos := by decide
  underlyingBalance_pos := by decide
  call_totalSupply := Provider.call_eq _
  call_balanceOf := Provider.call_eq _

/-- A token that two underlying tokens are held for is given half of their price, by exact quotients
and by those of the code. -/
theorem receiptToken_halved :
    ¬ ConservesValue (· / ·) [receiptToken] ∧ ¬ ConservesValue dividedBy [receiptToken] := by
  have hvalue : ∀ quotient, ConservesValue quotient [receiptToken] →
      (receiptToken.answer quotient).price * finite receiptToken.supply = finite 4 := by
    rintro quotient ⟨_, h, hprices⟩
    rw [getPrices_eq] at h
    cases h
    have hown := (List.forall₂_cons.mp hprices).1.2.2
    rwa [show receiptToken.balance * receiptToken.underlyingPrice = 4 by decide +kernel] at hown
  constructor
  · intro h
    exact absurd (hvalue _ h) (by decide +kernel)
  · intro h
    exact absurd (hvalue _ h) (by decide +kernel)

end SingleUnderlying
end Assets
end DefiBackend
