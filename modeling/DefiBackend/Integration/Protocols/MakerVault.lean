import DefiBackend.Common.BigNumber
import DefiBackend.Common.JsMap
import DefiBackend.Theory.Correspondence
import DefiBackend.Theory.Fallible

/-! # The vaults of Maker

`MakerVault.getUsersData`: for every user the vaults are looked up, for every vault its collateral
and debt, and each vault that is not empty becomes a position in the pool of its collateral type.
Two rounds of settled promises are matched to users and vaults by running counters.

* `getUrns_get`: the counters find for each user and vault the result of its own lookup.
* `Request.isolated_iff`: when the positions of a user do not depend on the lookups of others. A
  user without vaults in the map and a vault without a pool end the whole call.

The contracts' functions are found, and the proxies are resolved. -/

namespace DefiBackend
namespace Integration
namespace MakerVault
open Theory

abbrev Address := String

/-- `RawVaultInterface`. -/
structure RawVault where
  id : Nat
  urn : Address
  ilk : Address
  deriving DecidableEq

/-- The collateral and the normalized debt of a vault. -/
structure Urn where
  ink : Nat
  art : Nat

/-- A vault with its urn. -/
structure Vault extends RawVault where
  name : String
  ink : JsNumber
  art : JsNumber

/-- An opportunity, with the rate and the spot price of its `meta`. -/
structure Pool where
  id : String
  name : String
  rate : JsNumber
  spot : JsNumber
  supplyPrice : JsNumber
  borrowPrice : JsNumber
  deriving DecidableEq

structure Amount where
  amount : JsNumber
  value : JsNumber
  deriving DecidableEq

/-- `ILendingFeatureUserEntry`. -/
structure Position where
  pool : Pool
  debtRatio : JsNumber
  supply : Amount
  borrow : Amount
  deriving DecidableEq

/-- What a call meets. The proxies come from a cache whose key is the sorted list of the addresses.
Lookups that reject have no result. -/
structure Request where
  addresses : List Address
  pools : List Pool
  resolved : List Address
  resolved_perm : resolved.Perm addresses
  proxyOf : Address → Address
  getCdpsAsc : Address → Address → Option (List RawVault)
  urns : Address → RawVault → Option Urn

/-! ## Names of collateral types -/

def hexDigit (c : Char) : Option Nat :=
  if '0' ≤ c ∧ c ≤ '9' then some (c.toNat - '0'.toNat)
  else if 'a' ≤ c ∧ c ≤ 'f' then some (c.toNat - 'a'.toNat + 10)
  else if 'A' ≤ c ∧ c ≤ 'F' then some (c.toNat - 'A'.toNat + 10)
  else none

/-- `chunk(chars, 2)`. -/
def pairs : List Char → List (List Char)
  | [] => []
  | [c] => [[c]]
  | c :: c' :: cs => [c, c'] :: pairs cs

/-- The character of a chunk: none for zero and for what is not a number. -/
def chunkChar (chunk : List Char) : Option Char :=
  match chunk.mapM hexDigit with
  | none => none
  | some digits =>
    let num := digits.foldl (fun num digit => 16 * num + digit) 0
    if num = 0 then none else some (Char.ofNat num)

def ilkToName (ilk : Address) : String :=
  String.ofList ((pairs (ilk.toList.drop 2)).filterMap chunkChar)

def RawVault.withUrn (vault : RawVault) (urn : Urn) : Vault :=
  { vault with
    name := ilkToName vault.ilk
    ink := .finite urn.ink
    art := .finite urn.art }

/-- The position of a vault in a pool: none for an empty vault. -/
def Pool.position (pool : Pool) (vault : Vault) : Option Position :=
  let supply := vault.ink.normalizeDecimals 18
  let borrow := vault.art.normalizeDecimals 18 * pool.rate.normalizeDecimals 27
  if supply.falsy && borrow.falsy then none
  else
    some {
      pool
      debtRatio := pool.spot.normalizeDecimals 27 * pool.borrowPrice * supply /
        (borrow * pool.borrowPrice)
      supply := ⟨supply, supply * pool.supplyPrice⟩
      borrow := ⟨borrow, borrow * pool.borrowPrice⟩ }

namespace Request
variable (r : Request)

/-! ## The lookups -/

def getProxyAddresses : JsMap Address Address :=
  .ofEntries (r.resolved.map fun address => (address, r.proxyOf address))

def getRawVaults (proxies : JsMap Address Address) : JsMap Address (List RawVault) :=
  let results := proxies.map fun e => r.getCdpsAsc e.1 e.2
  (proxies.foldl (fun (st : JsMap Address (List RawVault) × Nat) e =>
    (match results[st.2]?.join with
      | none => st.1
      | some vaults => st.1.set e.1 vaults, st.2 + 1)) ([], 0)).1

/-- The vaults of a user whose results stand from an index on, and the index after them. -/
def userVaults (urnResults : List (Option Urn)) (vaults : List RawVault) (idx : Nat) :
    List Vault × Nat :=
  vaults.foldl (fun (st : List Vault × Nat) vault =>
    (match urnResults[st.2]?.join with
      | none => st.1
      | some urn => st.1 ++ [vault.withUrn urn], st.2 + 1)) ([], idx)

def getUrns (cdps : JsMap Address (List RawVault)) : JsMap Address (List Vault) :=
  let urnResults := cdps.flatMap fun e => e.2.map (r.urns e.1)
  (cdps.foldl (fun (st : JsMap Address (List Vault) × Nat) e =>
    let user := userVaults urnResults e.2 st.2
    (st.1.set e.1 user.1, user.2)) ([], 0)).1

/-- The callback of `vaults.forEach`. -/
def vaultPosition (poolsByIlk : JsMap String Pool) (vault : Vault) : Except String (Option Position) :=
  match poolsByIlk.get vault.name with
  | none => throw "Cannot read properties of undefined (reading 'meta')"
  | some pool => pure (pool.position vault)

/-- The callback of `addresses.map`. -/
def userPositions (poolsByIlk : JsMap String Pool) (urns : JsMap Address (List Vault))
    (address : Address) : Except String (Address × List Position) :=
  match urns.get address with
  | none => throw "Cannot read properties of undefined (reading 'forEach')"
  | some vaults => do
    let positions ← vaults.mapM (vaultPosition poolsByIlk)
    pure (address, positions.filterMap id)

def getUsersData : Except String (JsMap Address (List Position)) := do
  let poolsByIlk := JsMap.ofEntries (r.pools.map fun pool => (pool.name, pool))
  let results := JsMap.ofEntries (r.addresses.map fun address => (address, []))
  let urns := r.getUrns (r.getRawVaults r.getProxyAddresses)
  let rawResults ← r.addresses.mapM (userPositions poolsByIlk urns)
  pure (rawResults.foldl (fun results e => results.set e.1 e.2) results)

/-- The result of the lookup of a user. -/
def cdps (address : Address) : Option (List RawVault) := r.getCdpsAsc address (r.proxyOf address)

/-- The pool of a collateral type: of several with one name, the last. -/
def poolOf (name : String) : Option Pool := JsMap.lastWith Pool.name r.pools name

/-- The position of a vault of a user, by its own lookup alone. -/
def position (address : Address) (vault : RawVault) : Option Position :=
  (r.urns address vault).bind fun urn =>
    (r.poolOf (ilkToName vault.ilk)).bind fun pool => pool.position (vault.withUrn urn)

/-! ## What a user has -/

/-- The debt of a vault, with the interest of its pool. -/
def debt (pool : Pool) (urn : Urn) : JsNumber :=
  .finite (urn.art / 10 ^ 18) * pool.rate.normalizeDecimals 27

/-- A vault that is not empty is in a pool with its own collateral and its own debt. The debt ratio
compares the debt to what its collateral allows. -/
structure Holds (pool : Pool) (urn : Urn) (position : Position) : Prop where
  nonempty : urn.ink ≠ 0 ∨ ¬ (debt pool urn).falsy
  inPool : position.pool = pool
  supply : position.supply.amount = .finite (urn.ink / 10 ^ 18)
  supplyValue : position.supply.value = .finite (urn.ink / 10 ^ 18) * pool.supplyPrice
  borrow : position.borrow.amount = debt pool urn
  borrowValue : position.borrow.value = debt pool urn * pool.borrowPrice
  debtRatio : position.debtRatio =
    pool.spot.normalizeDecimals 27 * pool.borrowPrice * .finite (urn.ink / 10 ^ 18) /
      (debt pool urn * pool.borrowPrice)

/-- A position of a vault of a user whose lookup has succeeded, in the pool of its collateral type. -/
def HasPosition (address : Address) (vault : RawVault) (position : Position) : Prop :=
  ∃ urn pool, r.urns address vault = some urn ∧
    JsMap.lastWith Pool.name r.pools (ilkToName vault.ilk) = some pool ∧ Holds pool urn position

/-- The call resolves, and each user whose lookup succeeded has the positions of its own vaults. -/
def Isolated : Prop :=
  ∃ data, r.getUsersData = .ok data ∧
    ∀ address ∈ r.addresses, ∀ vaults, r.cdps address = some vaults →
      ∃ positions, data.get address = some positions ∧
        Collects (r.HasPosition address) vaults positions

theorem holds_iff {pool : Pool} {vault : RawVault} {urn : Urn} {position : Position} :
    pool.position (vault.withUrn urn) = some position ↔ Holds pool urn position := by
  have hamount : ∀ n : Nat, (JsNumber.finite n).normalizeDecimals 18 = .finite (n / 10 ^ 18) :=
    fun n => JsNumber.normalizeDecimals_natCast n (by decide)
  have hempty : ((JsNumber.finite (urn.ink / 10 ^ 18)).falsy && (debt pool urn).falsy) = true ↔
      ¬ (urn.ink ≠ 0 ∨ ¬ (debt pool urn).falsy) := by
    rw [Bool.and_eq_true, JsNumber.falsy_finite]
    simp
  simp only [Pool.position, RawVault.withUrn, hamount]
  rw [← debt]
  split
  · next h =>
    exact iff_of_false (fun h => nomatch h) fun H => hempty.mp h H.nonempty
  · next h =>
    have hnonempty := not_not.mp (mt hempty.mpr h)
    constructor
    · rintro ⟨⟩
      exact ⟨hnonempty, rfl, rfl, rfl, rfl, rfl, rfl⟩
    · intro H
      obtain ⟨pool', debtRatio, ⟨amount, value⟩, ⟨amount', value'⟩⟩ := position
      obtain ⟨-, hpool, hsupply, hsupplyValue, hborrow, hborrowValue, hdebtRatio⟩ := H
      dsimp only at hpool hsupply hsupplyValue hborrow hborrowValue hdebtRatio
      subst hpool hsupply hsupplyValue hborrow hborrowValue hdebtRatio
      rfl

theorem position_eq_some {address : Address} (vault : RawVault) (position : Position) :
    r.position address vault = some position ↔ r.HasPosition address vault position := by
  simp only [Request.position, Option.bind_eq_some_iff, holds_iff, HasPosition, poolOf]
  constructor
  · rintro ⟨urn, hurn, pool, hpool, h⟩
    exact ⟨urn, pool, hurn, hpool, h⟩
  · rintro ⟨urn, pool, hurn, hpool, h⟩
    exact ⟨urn, hurn, pool, hpool, h⟩

/-! ## The counters -/

theorem getRawVaults_eq (proxies : JsMap Address Address) (h : proxies.keys.Nodup) :
    r.getRawVaults proxies =
      proxies.filterMap fun e => (r.getCdpsAsc e.1 e.2).map fun vaults => (e.1, vaults) := by
  unfold getRawVaults
  have hresults : (proxies.map fun e => r.getCdpsAsc e.1 e.2).drop 0 =
      (proxies.map fun e => r.getCdpsAsc e.1 e.2) ++ [] := (List.append_nil _).symm
  have hcounter := foldl_counter
    (fun (output : JsMap Address (List RawVault)) (e : Address × Address) result =>
      match Option.join result with
      | none => output
      | some vaults => output.set e.1 vaults) hresults []
  refine (congrArg Prod.fst hcounter).trans ?_
  have hfold : ∀ (l : JsMap Address Address) (output : JsMap Address (List RawVault)),
      l.foldl (fun output e =>
        match Option.join (some (r.getCdpsAsc e.1 e.2)) with
        | none => output
        | some vaults => output.set e.1 vaults) output =
      (l.filterMap fun e => (r.getCdpsAsc e.1 e.2).map fun vaults => (e.1, vaults)).foldl
        (fun m e => m.set e.1 e.2) output := by
    intro l
    induction l with
    | nil => exact fun _ => rfl
    | cons e l ih =>
      intro output
      rw [List.foldl_cons, ih, List.filterMap_cons]
      cases r.getCdpsAsc e.1 e.2 <;> simp
  refine (hfold proxies []).trans (JsMap.ofEntries_eq_self ?_)
  exact (JsMap.keys_filterMap_sublist _ proxies).nodup h

/-- The results of a user's vaults stand together. -/
theorem userVaults_eq {urnResults rest : List (Option Urn)} {address : Address}
    {vaults : List RawVault} {idx : Nat}
    (h : urnResults.drop idx = vaults.map (r.urns address) ++ rest) :
    userVaults urnResults vaults idx =
      (vaults.filterMap fun vault => (r.urns address vault).map vault.withUrn,
        idx + vaults.length) := by
  have hcounter := foldl_counter
    (fun (user : List Vault) (vault : RawVault) result =>
      match Option.join result with
      | none => user
      | some urn => user ++ [vault.withUrn urn]) h []
  refine hcounter.trans (congrArg (·, idx + vaults.length) ?_)
  have hfold : ∀ (l : List RawVault) (user : List Vault),
      l.foldl (fun user vault =>
        match Option.join (some (r.urns address vault)) with
        | none => user
        | some urn => user ++ [vault.withUrn urn]) user =
      user ++ l.filterMap fun vault => (r.urns address vault).map vault.withUrn := by
    intro l
    induction l with
    | nil => simp
    | cons vault l ih =>
      intro user
      rw [List.foldl_cons, ih, List.filterMap_cons]
      cases r.urns address vault <;> simp
  exact (hfold vaults []).trans (List.nil_append _)

theorem getUrns_eq (cdps : JsMap Address (List RawVault)) (h : cdps.keys.Nodup) :
    r.getUrns cdps = cdps.map fun e =>
      (e.1, e.2.filterMap fun vault => (r.urns e.1 vault).map vault.withUrn) := by
  have hfold : ∀ (urnResults : List (Option Urn)) (l : JsMap Address (List RawVault)) (n : Nat)
      (output : JsMap Address (List Vault)),
      urnResults.drop n = (l.flatMap fun e => e.2.map (r.urns e.1)) →
      (l.foldl (fun (st : JsMap Address (List Vault) × Nat) e =>
        let user := userVaults urnResults e.2 st.2
        (st.1.set e.1 user.1, user.2)) (output, n)).1 =
      (l.map fun e => (e.1, e.2.filterMap fun vault => (r.urns e.1 vault).map vault.withUrn)).foldl
        (fun m e => m.set e.1 e.2) output := by
    intro urnResults l
    induction l with
    | nil => exact fun _ _ _ => rfl
    | cons e l ih =>
      intro n output hdrop
      rw [List.flatMap_cons] at hdrop
      have hnext : urnResults.drop (n + e.2.length) = l.flatMap fun e => e.2.map (r.urns e.1) := by
        rw [← List.drop_drop, hdrop, List.drop_left' (List.length_map ..)]
      rw [List.foldl_cons, List.map_cons, List.foldl_cons]
      simp only [r.userVaults_eq hdrop]
      exact ih _ _ hnext
  refine (hfold _ cdps 0 [] rfl).trans (JsMap.ofEntries_eq_self ?_)
  rw [List.map_map]
  exact h

/-- Each user of the request whose lookup succeeded has its vaults with their own results. -/
theorem getUrns_get (address : Address) :
    (r.getUrns (r.getRawVaults r.getProxyAddresses)).get address =
      if address ∈ r.addresses then
        (r.cdps address).map fun vaults =>
          vaults.filterMap fun vault => (r.urns address vault).map vault.withUrn
      else none := by
  have hproxies : r.getProxyAddresses.keys.Nodup := JsMap.nodup_keys_ofEntries _
  have hcdps : (r.getRawVaults r.getProxyAddresses).keys.Nodup := by
    rw [r.getRawVaults_eq _ hproxies]
    exact (JsMap.keys_filterMap_sublist _ _).nodup hproxies
  have hgraph : r.getRawVaults r.getProxyAddresses =
      (unique r.resolved).filterMap fun address =>
        (r.cdps address).map fun vaults => (address, vaults) := by
    rw [r.getRawVaults_eq _ hproxies]
    unfold getProxyAddresses
    rw [JsMap.ofEntries_graph, List.filterMap_map]
    rfl
  rw [r.getUrns_eq _ hcdps, hgraph, List.map_filterMap]
  have hmem : address ∈ unique r.resolved ↔ address ∈ r.addresses :=
    mem_unique.trans r.resolved_perm.mem_iff
  simp only [← hmem]
  rw [← JsMap.get_filterMap_graph fun address => (r.cdps address).map fun vaults =>
    vaults.filterMap fun vault => (r.urns address vault).map vault.withUrn]
  simp only [Option.map_map]
  rfl

/-! ## The positions -/

/-- A vault whose pool is listed has the position that its own lookup gives. -/
theorem mapM_vaultPosition {address : Address} {vaults : List RawVault}
    (h : ∀ vault ∈ vaults, (r.urns address vault).isSome → (r.poolOf (ilkToName vault.ilk)).isSome) :
    ∃ positions,
      (vaults.filterMap fun vault => (r.urns address vault).map vault.withUrn).mapM
        (vaultPosition (.ofEntries (r.pools.map fun pool => (pool.name, pool)))) = .ok positions ∧
      positions.filterMap id = vaults.filterMap (r.position address) := by
  induction vaults with
  | nil => exact ⟨[], rfl, rfl⟩
  | cons vault vaults ih =>
    obtain ⟨positions, hpositions, hfilter⟩ := ih fun v hv => h v (List.mem_cons_of_mem _ hv)
    rw [List.filterMap_cons, List.filterMap_cons]
    cases hurn : r.urns address vault with
    | none =>
      have hnone : r.position address vault = none := by
        unfold position
        rw [hurn, Option.bind_none]
      rw [hnone]
      exact ⟨positions, hpositions, hfilter⟩
    | some urn =>
      have hsome := h vault (List.mem_cons_self ..) (by rw [hurn]; rfl)
      obtain ⟨pool, hpool⟩ := Option.isSome_iff_exists.mp hsome
      have hget : (JsMap.ofEntries (r.pools.map fun pool => (pool.name, pool))).get
          (vault.withUrn urn).name = some pool := by
        rw [JsMap.get_ofEntries_self]
        exact hpool
      have hvault : vaultPosition (.ofEntries (r.pools.map fun pool => (pool.name, pool)))
          (vault.withUrn urn) = .ok (pool.position (vault.withUrn urn)) := by
        unfold vaultPosition
        rw [hget]
        rfl
      have hposition : r.position address vault = pool.position (vault.withUrn urn) := by
        unfold position
        rw [hurn, Option.bind_some, hpool, Option.bind_some]
      refine ⟨pool.position (vault.withUrn urn) :: positions, ?_, ?_⟩
      · rw [Option.map_some, List.mapM_cons, hvault, ok_bind, hpositions]
        rfl
      · rw [hposition, List.filterMap_cons, hfilter]
        rfl

/-- A vault without a pool stops the call. -/
theorem poolOf_of_mapM {address : Address} {vaults : List RawVault}
    (h : Succeeds ((vaults.filterMap fun vault => (r.urns address vault).map vault.withUrn).mapM
      (vaultPosition (.ofEntries (r.pools.map fun pool => (pool.name, pool)))))) :
    ∀ vault ∈ vaults, (r.urns address vault).isSome → (r.poolOf (ilkToName vault.ilk)).isSome := by
  intro vault hv hurn
  obtain ⟨urn, hurn⟩ := Option.isSome_iff_exists.mp hurn
  have hmem : vault.withUrn urn ∈
      vaults.filterMap fun vault => (r.urns address vault).map vault.withUrn :=
    List.mem_filterMap.mpr ⟨vault, hv, by rw [hurn]; rfl⟩
  have hvault := succeeds_mapM.mp h _ hmem
  unfold vaultPosition at hvault
  rw [JsMap.get_ofEntries_self] at hvault
  cases hpool : JsMap.lastWith Pool.name r.pools (vault.withUrn urn).name with
  | none =>
    rw [hpool] at hvault
    exact absurd hvault not_succeeds_error
  | some pool => exact Option.isSome_iff_exists.mpr ⟨pool, hpool⟩

/-- A user's lookup has succeeded, and each of its vaults with an urn has a pool. -/
def Served (address : Address) : Prop :=
  ∃ vaults, r.cdps address = some vaults ∧ ∀ vault ∈ vaults, (r.urns address vault).isSome →
    ∃ pool ∈ r.pools, pool.name = ilkToName vault.ilk

theorem poolOf_isSome {name : String} :
    (r.poolOf name).isSome ↔ ∃ pool ∈ r.pools, pool.name = name := by
  constructor
  · intro h
    obtain ⟨pool, hpool⟩ := Option.isSome_iff_exists.mp h
    obtain ⟨hname, hmem⟩ := JsMap.lastWith_eq_some hpool
    exact ⟨pool, hmem, hname⟩
  · rintro ⟨pool, hmem, rfl⟩
    exact Option.isSome_iff_exists.mpr (JsMap.exists_lastWith Pool.name hmem)

/-- What the callback for a user gives. -/
theorem userPositions_spec {address : Address} (ha : address ∈ r.addresses) :
    (Succeeds (userPositions (.ofEntries (r.pools.map fun pool => (pool.name, pool)))
        (r.getUrns (r.getRawVaults r.getProxyAddresses)) address) ↔ r.Served address) ∧
      ∀ vaults, r.cdps address = some vaults → r.Served address →
        userPositions (.ofEntries (r.pools.map fun pool => (pool.name, pool)))
          (r.getUrns (r.getRawVaults r.getProxyAddresses)) address =
            .ok (address, vaults.filterMap (r.position address)) := by
  unfold userPositions Served
  rw [r.getUrns_get, if_pos ha]
  simp only [← r.poolOf_isSome]
  cases hcdps : r.cdps address with
  | none =>
    refine ⟨iff_of_false not_succeeds_error ?_, fun _ h => nomatch h⟩
    rintro ⟨vaults, h, -⟩
    cases h
  | some vaults =>
    simp only [Option.map_some, Option.some.injEq, exists_eq_left']
    rw [succeeds_bind_of_forall fun _ => succeeds_pure]
    refine ⟨⟨r.poolOf_of_mapM, fun h => ?_⟩, ?_⟩
    · obtain ⟨positions, hpositions, -⟩ := r.mapM_vaultPosition h
      exact ⟨positions, hpositions⟩
    · rintro _ rfl h
      obtain ⟨positions, hpositions, hfilter⟩ := r.mapM_vaultPosition h
      rw [hpositions, ok_bind, hfilter]
      rfl

/-- The positions of the users do not depend on each other exactly when no user's lookup has failed
and no vault lacks a pool. -/
theorem isolated_iff : r.Isolated ↔ ∀ address ∈ r.addresses, r.Served address := by
  unfold Isolated getUsersData
  constructor
  · rintro ⟨data, hdata, -⟩ address ha
    obtain ⟨rawResults, hraw, -⟩ := bind_eq_ok.mp hdata
    exact (r.userPositions_spec ha).1.mp (succeeds_mapM.mp ⟨rawResults, hraw⟩ address ha)
  · intro h
    have hmap : r.addresses.mapM (userPositions (.ofEntries (r.pools.map fun pool => (pool.name, pool)))
        (r.getUrns (r.getRawVaults r.getProxyAddresses))) =
          .ok (r.addresses.map fun address =>
            (address, ((r.cdps address).getD []).filterMap (r.position address))) := by
      refine mapM_eq_ok fun address ha => ?_
      obtain ⟨vaults, hcdps, -⟩ := h address ha
      rw [(r.userPositions_spec ha).2 vaults hcdps (h address ha), hcdps]
      rfl
    refine ⟨_, bind_eq_ok.mpr ⟨_, hmap, rfl⟩, fun address ha vaults hcdps => ?_⟩
    refine ⟨_, ?_, collects_filterMap vaults r.position_eq_some⟩
    rw [JsMap.foldl_set_get, ← List.map_reverse]
    have hmem : address ∈ r.addresses.reverse := List.mem_reverse.mpr ha
    have hget := JsMap.get_graph (fun address =>
      ((r.cdps address).getD []).filterMap (r.position address)) hmem
    rw [JsMap.get] at hget
    rw [hget, hcdps]
    rfl

end Request

/-! ## A user whose lookup fails -/

/-- Two users, of whom the first has no vaults and the lookup of the second rejects. -/
def twoUsers : Request where
  addresses := ["0xaa", "0xbb"]
  pools := []
  resolved := ["0xaa", "0xbb"]
  resolved_perm := .refl _
  proxyOf address := address
  getCdpsAsc address _ := if address = "0xaa" then some [] else none
  urns _ _ := none

/-- The call throws for both. -/
theorem twoUsers_not_isolated : ¬ twoUsers.Isolated := by
  rintro ⟨data, hdata, -⟩
  cases hdata

end MakerVault
end Integration
end DefiBackend
