import DefiBackend.Integration.Support.RootPlatform

/-! # How protocols find the positions of users

`getUsersData` of the two base classes, for any pools and any answers of the chain:

* `RootProtocolCacheable` calls `fetchUserData` for every address of the request;
* `MultiContractProtocol` formats every pool for every address, and stops at the first failure.

In both, the answer for an address is what it has alone (`positionsOf`), once for every time the
address is processed (`processed`). -/

namespace DefiBackend
namespace Integration

/-- A protocol as the source of users' positions. Pools are given by their ids; the pools and the
errors of `getPoolData`, or its failure, and the answers of the chain are the same for all
requests. -/
inductive UserSource
  | cacheable (poolData : Except String (List String))
      (fetchUserData : Option (Address → Except String (List (Option Position))))
  | multiContract (poolData : Except String (List String × List String))
      (fetchUsersData : Except String Unit)
      (formatUserData : Address → String → Except String (Option Position))

/-- `results.get(address).push(...positions)`. -/
def pushTo (results : Address → List Position) (address : Address) (positions : List Position) :
    Address → List Position :=
  Function.update results address (results address ++ positions)

section
variable (fetchUserData : Option (Address → Except String (List (Option Position))))

/-- One address of `RootProtocolCacheable.getUsersData`; a failure is added to the errors. -/
def fetchStep (acc : (Address → List Position) × List String) (address : Address) :
    (Address → List Position) × List String :=
  match fetchUserData with
  | none => acc
  | some fetchUserData =>
    match fetchUserData address with
    | .ok userPools => (pushTo acc.1 address userPools.reduceOption, acc.2)
    | .error e => (acc.1, acc.2 ++ [e])

/-- `RootProtocolCacheable.getUsersData`. -/
def cacheableUsersData (errors : List String) (addresses : List Address) : Outcome :=
  let (results, errors) := addresses.foldl (fetchStep fetchUserData) (fun _ => [], errors)
  .fulfilled results errors

end

section
variable (formatUserData : Address → String → Except String (Option Position))

/-- The inner loop of `MultiContractProtocol.getUsersData`: what is pushed for an address, and the
failure that ends it. -/
def formatPools (address : Address) : List String → List Position × Option String
  | [] => ([], none)
  | pool :: pools =>
    match formatUserData address pool with
    | .error e => ([], some e)
    | .ok none => formatPools address pools
    | .ok (some userPool) =>
      let (userPools, e) := formatPools address pools
      (userPool :: userPools, e)

/-- The outer loop: it ends with the first failure. -/
def formatUsers (pools : List String) :
    List Address → (Address → List Position) → (Address → List Position) × Option String
  | [], results => (results, none)
  | address :: addresses, results =>
    match formatPools formatUserData address pools with
    | (userPools, some e) => (pushTo results address userPools, some e)
    | (userPools, none) => formatUsers pools addresses (pushTo results address userPools)

/-- `MultiContractProtocol.getUsersData`. -/
def multiContractUsersData (pools errors : List String) (fetchUsersData : Except String Unit)
    (addresses : List Address) : Outcome :=
  match fetchUsersData with
  | .error e => .fulfilled (fun _ => []) (errors ++ [e])
  | .ok () =>
    let (results, e) := formatUsers formatUserData pools addresses fun _ => []
    .fulfilled results (errors ++ e.toList)

end

namespace UserSource

def getUsersData : UserSource → List Address → Outcome
  | cacheable (.error reason) _, _ | multiContract (.error reason) _ _, _ => .rejected reason
  | cacheable (.ok errors) fetchUserData, addresses =>
    cacheableUsersData fetchUserData errors addresses
  | multiContract (.ok (pools, errors)) fetchUsersData formatUserData, addresses =>
    multiContractUsersData formatUserData pools errors fetchUsersData addresses

/-! ## Addresses one by one -/

/-- What is pushed each time an address is processed. -/
def positionsOf : UserSource → Address → List Position
  | cacheable (.ok _) (some fetchUserData), address =>
    match fetchUserData address with
    | .ok userPools => userPools.reduceOption
    | .error _ => []
  | multiContract (.ok (pools, _)) (.ok ()) formatUserData, address =>
    (formatPools formatUserData address pools).1
  | _, _ => []

/-- Whether processing an address ends the whole loop. -/
def stopsAt : UserSource → Address → Bool
  | multiContract (.ok (pools, _)) (.ok ()) formatUserData, address =>
    (formatPools formatUserData address pools).2.isSome
  | _, _ => false

/-- The addresses that are processed, with repetitions. -/
def processed (source : UserSource) : List Address → List Address
  | [] => []
  | address :: addresses =>
    if source.stopsAt address then [address] else address :: processed source addresses

end UserSource

/-- A list several times over. -/
def copies (n : Nat) (list : List α) : List α := (List.replicate n list).flatten

theorem copies_succ (n : Nat) (list : List α) : copies (n + 1) list = list ++ copies n list := rfl

theorem pushTo_apply {results : Address → List Position} {a b : Address} :
    pushTo results a ps b = if b = a then results b ++ ps else results b := by
  by_cases h : b = a
  · subst h; simp [pushTo]
  · simp [pushTo, h]

section
variable {source : UserSource}

/-- Pushing the positions of an address first is having it once more. -/
theorem pushTo_append_copies (source : UserSource) (results : Address → List Position)
    (a b : Address) (list : List Address) :
    pushTo results a (source.positionsOf a) b ++ copies (list.count b) (source.positionsOf b) =
      results b ++ copies ((a :: list).count b) (source.positionsOf b) := by
  rw [pushTo_apply, List.count_cons]
  by_cases h : a = b
  · subst h; simp [copies_succ]
  · simp [h, Ne.symm h]

theorem pushTo_nil {results : Address → List Position} : pushTo results a [] = results := by
  simp [pushTo]

theorem fetchStep_fst (errors : List String)
    (f : Option (Address → Except String (List (Option Position))))
    (acc : (Address → List Position) × List String) (a : Address) :
    (fetchStep f acc a).1 =
      pushTo acc.1 a ((UserSource.cacheable (.ok errors) f).positionsOf a) := by
  cases f with
  | none => simp [fetchStep, UserSource.positionsOf, pushTo_nil]
  | some f => cases h : f a <;> simp [fetchStep, UserSource.positionsOf, pushTo_nil, h]

theorem foldl_fetchStep (errors : List String)
    (f : Option (Address → Except String (List (Option Position)))) (addresses : List Address)
    (acc : (Address → List Position) × List String) (b : Address) :
    (addresses.foldl (fetchStep f) acc).1 b =
      acc.1 b ++ copies (addresses.count b)
        ((UserSource.cacheable (.ok errors) f).positionsOf b) := by
  induction addresses generalizing acc with
  | nil => simp [copies]
  | cons a addresses ih =>
    rw [List.foldl_cons, ih, fetchStep_fst errors, pushTo_append_copies]

theorem formatUsers_fst (errors pools : List String)
    (f : Address → String → Except String (Option Position)) (addresses : List Address)
    (results : Address → List Position) (b : Address) :
    let source : UserSource := .multiContract (.ok (pools, errors)) (.ok ()) f
    (formatUsers f pools addresses results).1 b =
      results b ++ copies ((source.processed addresses).count b) (source.positionsOf b) := by
  intro source
  induction addresses generalizing results with
  | nil => simp [formatUsers, UserSource.processed, copies]
  | cons a addresses ih =>
    have hpos : source.positionsOf a = (formatPools f a pools).1 := rfl
    have hstop : source.stopsAt a = (formatPools f a pools).2.isSome := rfl
    rcases hformat : formatPools f a pools with ⟨userPools, _ | e⟩
    · rw [hformat] at hpos hstop
      simp only [formatUsers, hformat, UserSource.processed, hstop, Option.isSome_none,
        Bool.false_eq_true, if_false]
      rw [ih, ← pushTo_append_copies, hpos]
    · rw [hformat] at hpos hstop
      simp only [formatUsers, hformat, UserSource.processed, hstop, Option.isSome_some, if_true]
      have h := pushTo_append_copies source results a b []
      simpa [copies, hpos] using h

/-- A protocol that does not stop processes all addresses. -/
theorem processed_eq_self (h : ∀ a, source.stopsAt a = false) (addresses : List Address) :
    source.processed addresses = addresses := by
  induction addresses with
  | nil => rfl
  | cons a addresses ih => simp [UserSource.processed, h a, ih]

/-- The answer of a protocol: for every address what it has alone, once for every time it is
processed; a protocol that rejects has nothing for anyone. -/
theorem getUsersData_source (source : UserSource) (addresses : List Address) :
    (∃ wallets errors, source.getUsersData addresses = .fulfilled wallets errors ∧
      ∀ b, wallets b =
        copies ((source.processed addresses).count b) (source.positionsOf b)) ∨
    (∃ reason, source.getUsersData addresses = .rejected reason) ∧
      ∀ b, source.positionsOf b = [] := by
  cases source with
  | cacheable poolData fetchUserData =>
    cases poolData with
    | error reason => exact .inr ⟨⟨reason, rfl⟩, fun b => rfl⟩
    | ok errors =>
      refine .inl ⟨_, _, rfl, fun b => ?_⟩
      rw [processed_eq_self (fun a => rfl), foldl_fetchStep errors, List.nil_append]
  | multiContract poolData fetchUsersData formatUserData =>
    cases poolData with
    | error reason => exact .inr ⟨⟨reason, rfl⟩, fun b => rfl⟩
    | ok data =>
      obtain ⟨pools, errors⟩ := data
      cases fetchUsersData with
      | error e =>
        refine .inl ⟨_, _, rfl, fun b => ?_⟩
        simp [UserSource.positionsOf, copies]
      | ok u =>
        refine .inl ⟨_, _, rfl, fun b => ?_⟩
        rw [formatUsers_fst errors, List.nil_append]

end
end Integration
end DefiBackend
