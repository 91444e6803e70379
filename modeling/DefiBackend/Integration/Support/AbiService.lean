import DefiBackend.Common.Address
import DefiBackend.Common.MulticallAggregator
import DefiBackend.Theory.Pointers

/-! # ABIs of contracts behind proxies

`AbiService.fetchAbi`: the ABI of an address is taken from the cache or loaded. Where the contract
turns out to be a proxy, the ABI of the address behind it is fetched in the same way, and cached for
both. Log messages and the time to live are left out.

* `fetchAbi_isSome`: fetching finishes when the way along the proxies ends;
* `fetchAbi_keeps`: what is cached are ABIs of contracts that are no proxies, if it was so before;
* `resolves_iff`: when an address gets the ABI of such a contract or an error;
* `own_implementation`: a proxy that is its own implementation gets neither. -/

namespace DefiBackend
namespace Integration
open MulticallAggregator Theory

/-- `AbiSource`, at a chain. -/
abbrev AbiSource := Address → Except String (Option (List AbiItem))

/-- The strategies and the contracts of a chain. Only finitely many of these have an ABI that a
strategy knows. A word of the storage is read as a number. -/
structure AbiService where
  strategies : List AbiSource
  provider : Provider
  getStorageAt : Address → String → Except String Nat
  contracts : Finset Address
  known : ∀ strategy ∈ strategies, strategy address = .ok (some abi) → address ∈ contracts

namespace AbiService

def logicContractAddress : String :=
  "0x360894a13ba1a3210667c828492db98dca3e2076cc3735a920a3ca505d382bbc"

def beaconContractAddress : String :=
  "0xa3f0ad74e5423aebfd80d3ef4346578335a9a72aeaee59ff6cb3582b35133d50"

def ZERO_ADDRESS : Address := "0x0000000000000000000000000000000000000000"

/-- What `fetchAbi` returns or throws, and the cache that it leaves. -/
abbrev Outcome := Except String (List AbiItem) × JsMap String (List AbiItem)

def isNonZeroAddress : OutputData → Bool
  | .value (.text address _) => address != ZERO_ADDRESS && address != "0x0"
  | _ => true

/-- What is returned for an address may be no text, and then it has no lower case. -/
def addressText : OutputData → Option Address
  | .value (.text address _) => some address
  | _ => none

/-- `'0x' + web3.utils.padLeft(new BigNumber(rawTarget).toString(16), 40, '0')`. -/
def storedAddress (rawTarget : Nat) : OutputData :=
  .value (.text ("0x" ++ String.ofList ((Nat.toDigits 16 rawTarget).leftpad 40 '0'))
    (.finite rawTarget))

variable (S : AbiService)

/-- A strategy that fails is passed over. -/
def loadAbi (address : Address) : Except String (List AbiItem) :=
  match S.strategies.findSome? fun strategy => (strategy address).toOption.join with
  | some abi => .ok abi
  | none => .error s!"ABI not found using any strategy - {S.provider.chain}/{address}"

/-- The address that a function without inputs returns. A function that is not there cannot be
called, and every failure is caught. -/
def attemptProxyFunction (name : String) (address : Address) (abi : List AbiItem) :
    Option OutputData :=
  match abi.find? (·.name = name) with
  | some implementation =>
    match S.provider.call (createCall address implementation []) with
    | .ok target => target.filter isNonZeroAddress
    | .error _ => none
  | none => none

def attemptEIP897ProxyAddress : Address → List AbiItem → Option OutputData :=
  S.attemptProxyFunction "implementation"

def attemptCustomComptrollerProxyAddress : Address → List AbiItem → Option OutputData :=
  S.attemptProxyFunction "comptrollerImplementation"

def attemptEIP1967ProxyAddress (address : Address) : Option OutputData :=
  match S.getStorageAt address logicContractAddress, S.getStorageAt address beaconContractAddress with
  | .ok logic, .ok beacon => [storedAddress logic, storedAddress beacon].find? isNonZeroAddress
  | _, _ => none

def checkForProxyAddress (address : Address) (abi : List AbiItem) : Option OutputData :=
  [S.attemptEIP897ProxyAddress address abi, S.attemptEIP1967ProxyAddress address,
    S.attemptCustomComptrollerProxyAddress address abi].reduceOption.find? OutputData.truthy

def getCacheKey (address : Address) : String := s!"{S.provider.chain}/{lowerCase address}"

/-- In the event of an error, nothing is cached. -/
def getOrSet (key : String) (callback : JsMap String (List AbiItem) → Option Outcome)
    (cache : JsMap String (List AbiItem)) : Option Outcome :=
  match cache.get key with
  | some cached => some (.ok cached, cache)
  | none =>
    match callback cache with
    | some (.ok data, cache) => some (.ok data, cache.set key data)
    | some (.error e, cache) => some (.error e, cache)
    | none => none

/-- Undefined where more proxies are on the way than the number allows. -/
def fetchAbi : Nat → Address → JsMap String (List AbiItem) → Option Outcome
  | 0, _, _ => none
  | fuel + 1, address, cache =>
    getOrSet (S.getCacheKey address) (fun cache =>
      match S.loadAbi address with
      | .error e => some (.error e, cache)
      | .ok abi =>
        match S.checkForProxyAddress address abi with
        | some proxyAddress =>
          match addressText proxyAddress with
          | some proxyAddress => fetchAbi fuel proxyAddress cache
          | none => some (.error typeError, cache)
        | none => some (.ok abi, cache)) cache

/-! ## The way along the proxies -/

/-- The address that is gone on to from one that is not cached. -/
def nextAddress (cache : JsMap String (List AbiItem)) (address : Address) : Option Address :=
  match cache.get (S.getCacheKey address), S.loadAbi address with
  | none, .ok abi => (S.checkForProxyAddress address abi).bind addressText
  | _, _ => none

/-- What is returned or thrown at an address that is the last one. -/
def answer (cache : JsMap String (List AbiItem)) (address : Address) :
    Except String (List AbiItem) :=
  match cache.get (S.getCacheKey address) with
  | some cached => .ok cached
  | none =>
    match S.loadAbi address with
    | .error e => .error e
    | .ok abi =>
      match S.checkForProxyAddress address abi with
      | some _ => .error typeError
      | none => .ok abi

/-- An ABI of a contract that is no proxy. -/
def Implements (abi : List AbiItem) : Prop :=
  ∃ contract, S.loadAbi contract = .ok abi ∧ S.checkForProxyAddress contract abi = none

/-- Fetching finishes, with an ABI of a contract that is no proxy or with an error. -/
def Resolves (address : Address) (cache : JsMap String (List AbiItem)) : Prop :=
  ∃ fuel result cache', S.fetchAbi fuel address cache = some (result, cache') ∧
    ∀ abi, result = .ok abi → S.Implements abi

section
variable {S : AbiService} {cache cache' : JsMap String (List AbiItem)} {address : Address}

theorem mem_contracts (h : S.loadAbi address = .ok abi) : address ∈ S.contracts := by
  unfold loadAbi at h
  split at h
  · next abi' hfind =>
    obtain ⟨strategy, hmem, hstrategy⟩ := List.exists_of_findSome?_eq_some hfind
    cases hresult : strategy address with
    | error e => rw [hresult] at hstrategy; cases hstrategy
    | ok data =>
      rw [hresult] at hstrategy
      exact S.known strategy hmem (hresult.trans (congrArg _ hstrategy))
  · cases h

/-- Only the contracts point to others. -/
theorem finite_nextAddress : {b | (S.nextAddress cache b).isSome}.Finite := by
  apply S.contracts.finite_toSet.subset
  intro b hb
  rw [Set.mem_ofPred_eq, nextAddress] at hb
  split at hb
  · next hload => exact mem_contracts hload
  · cases hb

/-- One call of `fetchAbi`. -/
theorem fetchAbi_of_next (h : S.nextAddress cache address = some target) :
    S.fetchAbi (fuel + 1) address cache =
      getOrSet (S.getCacheKey address) (S.fetchAbi fuel target) cache := by
  unfold nextAddress at h
  split at h
  · next abi hget hload =>
    obtain ⟨proxyAddress, hproxy, htext⟩ := Option.bind_eq_some_iff.mp h
    simp only [fetchAbi, getOrSet, hget, hload, hproxy, htext]
  · cases h

/-- At the last address, an ABI is cached only if it is of a contract that is no proxy. -/
theorem fetchAbi_of_last (h : S.nextAddress cache address = none) :
    ∃ cache', S.fetchAbi (fuel + 1) address cache = some (S.answer cache address, cache') ∧
      (cache' = cache ∨
        ∃ abi, S.Implements abi ∧ cache' = cache.set (S.getCacheKey address) abi) := by
  unfold nextAddress at h
  cases hget : cache.get (S.getCacheKey address) with
  | some cached => exact ⟨cache, by simp only [fetchAbi, getOrSet, answer, hget], .inl rfl⟩
  | none =>
    cases hload : S.loadAbi address with
    | error e => exact ⟨cache, by simp only [fetchAbi, getOrSet, answer, hget, hload], .inl rfl⟩
    | ok abi =>
      simp only [hget, hload] at h
      cases hproxy : S.checkForProxyAddress address abi with
      | none =>
        refine ⟨_, ?_, .inr ⟨abi, ⟨address, hload, hproxy⟩, rfl⟩⟩
        simp only [fetchAbi, getOrSet, answer, hget, hload, hproxy]
      | some target =>
        rw [hproxy, Option.bind_some] at h
        exact ⟨cache, by simp only [fetchAbi, getOrSet, answer, hget, hload, hproxy, h], .inl rfl⟩

theorem getOrSet_isSome {callback : JsMap String (List AbiItem) → Option Outcome}
    (h : cache.get key = none) :
    (getOrSet key callback cache).isSome ↔ (callback cache).isSome := by
  rw [getOrSet, h]
  cases callback cache with
  | none => rfl
  | some outcome =>
    obtain ⟨data | data, cache'⟩ := outcome <;> exact ⟨fun _ => rfl, fun _ => rfl⟩

/-- What has been set has been returned by the callback. -/
theorem getOrSet_eq_some {callback : JsMap String (List AbiItem) → Option Outcome}
    (hget : cache.get key = none) (h : getOrSet key callback cache = some (result, cache')) :
    ∃ cache₁, callback cache = some (result, cache₁) ∧
      (cache' = cache₁ ∨ ∃ abi, result = .ok abi ∧ cache' = cache₁.set key abi) := by
  rw [getOrSet, hget] at h
  cases hcallback : callback cache with
  | none => rw [hcallback] at h; cases h
  | some outcome =>
    obtain ⟨data | data, cache₁⟩ := outcome
    · rw [hcallback] at h
      cases h
      exact ⟨_, rfl, .inl rfl⟩
    · rw [hcallback] at h
      cases h
      exact ⟨_, rfl, .inr ⟨_, rfl, rfl⟩⟩

theorem get_of_next (h : S.nextAddress cache address = some target) :
    cache.get (S.getCacheKey address) = none := by
  unfold nextAddress at h
  split at h
  · next hget _ => exact hget
  · cases h

/-- Fetching finishes when the number allows all proxies on the way to be followed. -/
theorem fetchAbi_isSome :
    (S.fetchAbi fuel address cache).isSome ↔ follow (S.nextAddress cache) fuel address = none := by
  induction fuel generalizing address with
  | zero => exact ⟨nofun, nofun⟩
  | succ fuel ih =>
    cases hnext : S.nextAddress cache address with
    | none =>
      obtain ⟨cache', hlast, -⟩ := @fetchAbi_of_last S cache address fuel hnext
      rw [hlast, follow_succ_of_none hnext]
      exact ⟨fun _ => rfl, fun _ => rfl⟩
    | some target =>
      rw [fetchAbi_of_next hnext, getOrSet_isSome (get_of_next hnext), follow_succ hnext, ih]

/-- What fetching ends with is the answer at the end of the way. -/
theorem fetchAbi_eq_answer (h : S.fetchAbi fuel address cache = some (result, cache')) :
    ∃ b, EndsAt (S.nextAddress cache) address b ∧ result = S.answer cache b := by
  induction fuel generalizing address cache' with
  | zero => cases h
  | succ fuel ih =>
    cases hnext : S.nextAddress cache address with
    | none =>
      obtain ⟨cache₁, hlast, -⟩ := @fetchAbi_of_last S cache address fuel hnext
      rw [hlast] at h
      cases h
      exact ⟨address, .of_none hnext, rfl⟩
    | some target =>
      rw [fetchAbi_of_next hnext] at h
      obtain ⟨cache₁, hfetch, -⟩ := getOrSet_eq_some (get_of_next hnext) h
      obtain ⟨b, hends, hresult⟩ := ih hfetch
      exact ⟨b, hends.cons hnext, hresult⟩

/-- An answer that is not cached is of a contract that is no proxy. -/
theorem implements_of_answer (hget : cache.get (S.getCacheKey address) = none)
    (h : S.answer cache address = .ok abi) : S.Implements abi := by
  unfold answer at h
  simp only [hget] at h
  split at h
  · cases h
  · next hload =>
    split at h
    · cases h
    · next hproxy =>
      cases h
      exact ⟨address, hload, hproxy⟩

/-- An address resolves exactly if the way along the proxies never comes to an address again, and
what is cached at its end, if anything, is an ABI of a contract that is no proxy. -/
theorem resolves_iff (S : AbiService) (address : Address) (cache : JsMap String (List AbiItem)) :
    S.Resolves address cache ↔
      ¬ Returns (S.nextAddress cache) address ∧
        ∀ b, EndsAt (S.nextAddress cache) address b →
          ∀ abi, cache.get (S.getCacheKey b) = some abi → S.Implements abi := by
  rw [← finishes_iff_not_returns finite_nextAddress]
  constructor
  · rintro ⟨fuel, result, cache', hfetch, hresult⟩
    refine ⟨⟨fuel, fetchAbi_isSome.mp (hfetch ▸ rfl)⟩, fun b hends abi hget => hresult abi ?_⟩
    obtain ⟨b', hends', rfl⟩ := fetchAbi_eq_answer hfetch
    rw [hends'.unique hends, answer, hget]
  · rintro ⟨⟨fuel, hfuel⟩, hcached⟩
    obtain ⟨⟨result, cache'⟩, hfetch⟩ := Option.isSome_iff_exists.mp (fetchAbi_isSome.mpr hfuel)
    refine ⟨fuel, result, cache', hfetch, fun abi hresult => ?_⟩
    obtain ⟨b, hends, rfl⟩ := fetchAbi_eq_answer hfetch
    cases hget : cache.get (S.getCacheKey b) with
    | none => exact implements_of_answer hget hresult
    | some cached =>
      rw [answer, hget] at hresult
      cases hresult
      exact hcached b hends _ hget

/-! ## What is cached -/

/-- All ABIs in the cache are of contracts that are no proxies. -/
def Sound (S : AbiService) (cache : JsMap String (List AbiItem)) : Prop :=
  ∀ key abi, cache.get key = some abi → S.Implements abi

theorem Sound.set (h : S.Sound cache) (habi : S.Implements abi) :
    S.Sound (cache.set key abi) := by
  intro key' abi' hget
  rw [JsMap.get_set] at hget
  split at hget
  · cases hget
    exact habi
  · exact h key' abi' hget

/-- Fetching caches only ABIs of contracts that are no proxies, and returns no others. -/
theorem fetchAbi_keeps (hsound : S.Sound cache)
    (h : S.fetchAbi fuel address cache = some (result, cache')) :
    S.Sound cache' ∧ ∀ abi, result = .ok abi → S.Implements abi := by
  induction fuel generalizing address result cache' with
  | zero => cases h
  | succ fuel ih =>
    cases hnext : S.nextAddress cache address with
    | none =>
      obtain ⟨cache₁, hlast, hkept⟩ := @fetchAbi_of_last S cache address fuel hnext
      rw [hlast] at h
      cases h
      refine ⟨?_, fun abi habi => ?_⟩
      · rcases hkept with rfl | ⟨abi, habi, rfl⟩
        · exact hsound
        · exact hsound.set habi
      · cases hget : cache.get (S.getCacheKey address) with
        | none => exact implements_of_answer hget habi
        | some cached =>
          rw [answer, hget] at habi
          cases habi
          exact hsound _ _ hget
    | some target =>
      rw [fetchAbi_of_next hnext] at h
      obtain ⟨cache₁, hfetch, hkept⟩ := getOrSet_eq_some (get_of_next hnext) h
      obtain ⟨hsound₁, hresult⟩ := ih hfetch
      refine ⟨?_, hresult⟩
      rcases hkept with rfl | ⟨abi, habi, rfl⟩
      · exact hsound₁
      · exact hsound₁.set (hresult abi habi)

/-- With a cache that has been filled so, only a way that comes to an address again does not
resolve. -/
theorem resolves_of_sound (hsound : S.Sound cache) (h : ¬ Returns (S.nextAddress cache) address) :
    S.Resolves address cache := by
  obtain ⟨fuel, hfuel⟩ := (finishes_iff_not_returns finite_nextAddress).mpr h
  obtain ⟨⟨result, cache'⟩, hfetch⟩ := Option.isSome_iff_exists.mp (fetchAbi_isSome.mpr hfuel)
  exact ⟨fuel, result, cache', hfetch, (fetchAbi_keeps hsound hfetch).2⟩

end

/-! ## A proxy that is its own implementation -/

def implementation : AbiItem := ⟨"implementation", [], [⟨"", "address"⟩]⟩

def sampleProxy : Address := "0x5af0d9827e0c53e4799bb226655a1de152a425a5"

/-- A chain with one contract. What it returns is its own address. -/
def selfProxy : AbiService where
  strategies := [fun address =>
    if address = sampleProxy then .ok (some [implementation]) else .ok none]
  provider := {
    chain := 1
    encodeFunctionCall _ _ := .ok "0x5c60da1b"
    decodeParameters _ _ := .ok ⟨[.text sampleProxy 0], fun _ => none⟩
    execute _ _ := .ok "0x"
    hex h := by
      cases h
      decide }
  getStorageAt _ _ := .ok 0
  contracts := {sampleProxy}
  known strategy hmem habi := by
    rw [List.mem_singleton.mp hmem] at habi
    beta_reduce at habi
    split at habi
    · next heq => exact Finset.mem_singleton.mpr heq
    · cases habi

/-- The first address of the way is come to again. -/
theorem own_implementation : ¬ selfProxy.Resolves sampleProxy [] := by
  rintro ⟨fuel, result, cache', hfetch, -⟩
  have hends := fetchAbi_isSome.mp (Option.isSome_iff_exists.mpr ⟨_, hfetch⟩)
  have hnext : selfProxy.nextAddress [] sampleProxy = some sampleProxy := by
    decide
  exact not_finishes_of_returns ⟨0, 1, sampleProxy, Nat.one_pos, rfl, follow_succ hnext⟩ ⟨fuel, hends⟩

end AbiService
end Integration
end DefiBackend
