import Mathlib.Data.List.Basic

/-! # Addresses

`unifyAddress` and the filter by the validator of a chain. Which texts are Ethereum addresses is
decided elsewhere; of that this development uses that they contain no space, and that writing one in
lower case gives one. -/

namespace DefiBackend

abbrev Address := String

/-- `address.toLowerCase()`. -/
def lowerCase (a : Address) : Address := String.ofList (a.toList.map Char.toLower)

/-- `address.trim()`. -/
def trim (a : Address) : Address :=
  String.ofList
    (((a.toList.dropWhile Char.isWhitespace).reverse.dropWhile Char.isWhitespace).reverse)

/-- The checks made elsewhere: of Ethereum addresses, and the validator of each chain that has
one. -/
structure AddressChecks where
  isETHAddress : Address → Bool
  validator : Nat → Option (Address → Bool)
  lowerCase_isETHAddress : isETHAddress a → isETHAddress (lowerCase a)
  no_space : isETHAddress a → ∀ c ∈ a.toList, c.isWhitespace = false

namespace AddressChecks
variable (A : AddressChecks)

def unifyAddress (address : Address) : Address :=
  if A.isETHAddress address then trim (lowerCase address) else address

/-- `keepAddressesByChainId`, for a list. -/
def keepAddressesByChainId (addresses : List Address) (chainId : Nat) : List Address :=
  let addressArray := addresses.map A.unifyAddress
  match A.validator chainId with
  | some validator => addressArray.filter validator
  | none => addressArray

/-- An address is kept for a chain. -/
def validFor (chainId : Nat) (address : Address) : Bool :=
  match A.validator chainId with
  | some validator => validator address
  | none => true

theorem keepAddressesByChainId_eq (addresses : List Address) (chainId : Nat) :
    A.keepAddressesByChainId addresses chainId =
      (addresses.map A.unifyAddress).filter (A.validFor chainId) := by
  unfold keepAddressesByChainId validFor
  cases A.validator chainId <;> simp

end AddressChecks

theorem no_space_of_all {a : Address} (h : a.toList.all (!·.isWhitespace) = true) :
    ∀ c ∈ a.toList, c.isWhitespace = false :=
  fun c hc => by simpa using List.all_eq_true.mp h c hc

namespace AddressChecks
variable (A : AddressChecks)

end AddressChecks
end DefiBackend
