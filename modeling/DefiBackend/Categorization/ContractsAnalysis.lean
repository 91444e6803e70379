import DefiBackend.Categorization.ContractsService
import DefiBackend.Common.Collections
import DefiBackend.Theory.Fallible
import DefiBackend.Theory.KeyValue
import Mathlib.Data.Rat.Defs

/-! # Analysis of contracts

`contracts.analysis.service.v1.ts`: every contract with an ABI is compared with all others. The
contracts are read a page at a time; those of a page are analysed at once, and each of them reads
all contracts again, a page at a time.

* `analyseContracts`: the loops, with what the analyses of a page write;
* `analyseContracts_table`: the loops end, and in whatever order the analyses of a page write, the
  table has each ordered pair of different contracts as it is compared, and nothing else changes. -/

namespace DefiBackend
namespace Categorization
namespace ContractsAnalysis
open Theory

structure Similarity where
  abiCodeSimilarity : ℚ
  abiJsonSimilarity : ℚ
  deriving DecidableEq

/-- The ids of a contract and of its counterpart, and what is written for them. -/
abbrev Upsert := (Int × Int) × Similarity

/-- The table `contracts_analysis`. -/
abbrev Analyses := Store (Int × Int) Similarity

/-- Which texts are ABIs, and how similar two contracts are; nothing if comparing them or writing it
fails. -/
structure Comparison where
  safeJsonParse : String → Bool
  similarity : Contract → Contract → Option Similarity

def contractsFetchLimit : Nat := 50

/-- `findAllWithAbiAndAbiCode` of all pages, which go by the id. Templates have negative ids. -/
def allWithAbiAndAbiCode (contracts : Contracts) : List Contract :=
  contracts.rows.filter fun contract => 0 < contract.id ∧ contract.abi.isSome ∧ contract.abiCode.isSome

section
variable (comparison : Comparison)

def hasValidAbi (contract : Contract) : Bool := contract.abi.any comparison.safeJsonParse

/-- What is written for a contract and some others. -/
def processContractAnalysis (contract : Contract) (contracts : List Contract) : List Upsert :=
  contracts.filterMap fun counterpartContract =>
    if contract.id = counterpartContract.id then none
    else (comparison.similarity contract counterpartContract).map fun similarity =>
      ((contract.id, counterpartContract.id), similarity)

variable (contracts : Contracts)

/-- A round with `getContractsWithValidAbi(skip)`. -/
def analyseContractPage (contract : Contract) (upserts : List Upsert) (fetchedContracts : List Contract) :
    List Upsert :=
  upserts ++ processContractAnalysis comparison contract
    (fetchedContracts.filter (hasValidAbi comparison))

def analyseContract (fuel : Nat) (contract : Contract) : Option (List Upsert) :=
  (doWhilst (nextPage contractsFetchLimit (allWithAbiAndAbiCode contracts)
    (analyseContractPage comparison contract)) fuel ([], 0)).map Prod.fst

/-- A page of contracts, each with what its analysis writes. -/
def analyseContractsPage (fuel : Nat) (pages : Option (List (List (List Upsert))))
    (fetchedContracts : List Contract) : Option (List (List (List Upsert))) := do
  let pages ← pages
  let analyses ← (fetchedContracts.filter (hasValidAbi comparison)).mapM
    (analyseContract comparison contracts fuel)
  pure (pages ++ [analyses])

def analyseContracts (fuel : Nat) : Option (List (List (List Upsert))) := do
  let r ← doWhilst (nextPage contractsFetchLimit (allWithAbiAndAbiCode contracts)
    (analyseContractsPage comparison contracts fuel)) fuel (some [], 0)
  r.1

end

/-- An order of all that is written: the analyses of a page write in turns, before those of the next
page. -/
def InTurns (pages : List (List (List Upsert))) (upserts : List Upsert) : Prop :=
  ∃ parts, upserts = parts.flatten ∧
    List.Forall₂ (fun part analyses => part.Perm analyses.flatten) parts pages

section
variable (comparison : Comparison) (contracts : Contracts)

/-- The contracts that are compared. -/
def analysed : List Contract :=
  (allWithAbiAndAbiCode contracts).filter (hasValidAbi comparison)

/-- What the analysis of a contract writes. -/
def upsertsOf (contract : Contract) : List Upsert :=
  processContractAnalysis comparison contract (analysed comparison contracts)

variable {comparison contracts}

theorem foldl_analyseContractPage (contract : Contract) (pages : List (List Contract))
    (upserts : List Upsert) :
    pages.foldl (analyseContractPage comparison contract) upserts =
      upserts ++ processContractAnalysis comparison contract
        (pages.flatten.filter (hasValidAbi comparison)) := by
  induction pages generalizing upserts with
  | nil => exact (List.append_nil _).symm
  | cons fetched pages ih =>
    rw [List.foldl_cons, ih, analyseContractPage, List.flatten_cons, List.filter_append,
      List.append_assoc, processContractAnalysis, processContractAnalysis, processContractAnalysis,
      List.filterMap_append]

theorem analyseContract_eq {fuel : Nat}
    (hfuel : (allWithAbiAndAbiCode contracts).length + 1 ≤ fuel) (contract : Contract) :
    analyseContract comparison contracts fuel contract = some (upsertsOf comparison contracts contract) := by
  obtain ⟨pages, hpages, hend⟩ := doWhilst_nextPage (by decide : 0 < contractsFetchLimit)
    (allWithAbiAndAbiCode contracts) (analyseContractPage comparison contract) []
  rw [analyseContract, doWhilst_mono hend hfuel, foldl_analyseContractPage, hpages]
  rfl

theorem foldl_analyseContractsPage {fuel : Nat}
    (hfuel : (allWithAbiAndAbiCode contracts).length + 1 ≤ fuel) (fetched : List (List Contract))
    (pages : List (List (List Upsert))) :
    fetched.foldl (analyseContractsPage comparison contracts fuel) (some pages) =
      some (pages ++ fetched.map fun fetchedContracts =>
        (fetchedContracts.filter (hasValidAbi comparison)).map (upsertsOf comparison contracts)) := by
  induction fetched generalizing pages with
  | nil => rw [List.map_nil, List.append_nil]; rfl
  | cons fetchedContracts fetched ih =>
    have hanalyses : (fetchedContracts.filter (hasValidAbi comparison)).mapM
        (analyseContract comparison contracts fuel) =
        some ((fetchedContracts.filter (hasValidAbi comparison)).map (upsertsOf comparison contracts)) :=
      (mapM_congr fun c _ => analyseContract_eq hfuel c).trans List.mapM_pure
    have hpage : analyseContractsPage comparison contracts fuel (some pages) fetchedContracts =
        some (pages ++ [(fetchedContracts.filter (hasValidAbi comparison)).map
          (upsertsOf comparison contracts)]) := by
      rw [analyseContractsPage, Option.bind_eq_bind, Option.bind_some, hanalyses]
      rfl
    rw [List.foldl_cons, hpage, ih, List.map_cons, List.append_assoc, List.singleton_append]

/-- All contracts are analysed, page by page. -/
theorem analyseContracts_eq (comparison : Comparison) (contracts : Contracts) :
    ∃ fuel pages, analyseContracts comparison contracts fuel = some pages ∧
      pages.flatten = (analysed comparison contracts).map (upsertsOf comparison contracts) := by
  obtain ⟨fetched, hfetched, hend⟩ := doWhilst_nextPage (by decide : 0 < contractsFetchLimit)
    (allWithAbiAndAbiCode contracts)
    (analyseContractsPage comparison contracts ((allWithAbiAndAbiCode contracts).length + 1)) (some [])
  rw [foldl_analyseContractsPage (Nat.le_refl _), List.nil_append] at hend
  refine ⟨(allWithAbiAndAbiCode contracts).length + 1, fetched.map fun fetchedContracts =>
    (fetchedContracts.filter (hasValidAbi comparison)).map (upsertsOf comparison contracts), ?_, ?_⟩
  · rw [analyseContracts, hend]
    rfl
  · rw [analysed, ← hfetched, List.filter_flatten, List.map_flatten, List.map_map]
    rfl

theorem InTurns.perm {pages : List (List (List Upsert))} {upserts : List Upsert}
    (h : InTurns pages upserts) : upserts.Perm pages.flatten.flatten := by
  obtain ⟨parts, rfl, hparts⟩ := h
  induction hparts with
  | nil => exact .nil
  | cons hpart _ ih =>
    rw [List.flatten_cons, List.flatten_cons, List.flatten_append]
    exact hpart.append ih

/-! ## The table -/

theorem analysed_ids (comparison : Comparison) (contracts : Contracts) :
    (analysed comparison contracts).Pairwise (·.id ≠ ·.id) :=
  ((contracts.sorted.imp fun h => Int.ne_of_lt h).sublist List.filter_sublist).sublist List.filter_sublist

/-- A contract is told by its id. -/
theorem eq_of_id {a b : Contract} (ha : a ∈ analysed comparison contracts)
    (hb : b ∈ analysed comparison contracts) (hid : a.id = b.id) : a = b :=
  List.inj_on_of_nodup_map (List.pairwise_map.mpr (analysed_ids comparison contracts)) ha hb hid

theorem mem_upsertsOf {a : Contract} {e : Upsert} : e ∈ upsertsOf comparison contracts a ↔
    ∃ b ∈ analysed comparison contracts, a.id ≠ b.id ∧ e.1 = (a.id, b.id) ∧
      comparison.similarity a b = some e.2 := by
  rw [upsertsOf, processContractAnalysis, List.mem_filterMap]
  refine exists_congr fun b => and_congr_right fun _ => ?_
  split
  · next hid => exact iff_of_false nofun fun h => h.1 hid
  · next hid =>
    rw [Option.map_eq_some_iff]
    constructor
    · rintro ⟨v, hv, rfl⟩
      exact ⟨hid, rfl, hv⟩
    · rintro ⟨-, hkey, hv⟩
      exact ⟨e.2, hv, Prod.ext hkey.symm rfl⟩

/-- Each pair is written at most once. -/
theorem nodup_keys : (((analysed comparison contracts).map (upsertsOf comparison contracts)).flatten.map
    Prod.fst).Nodup := by
  have hids := analysed_ids comparison contracts
  rw [List.map_flatten, List.map_map, ← List.flatMap_def, List.nodup_flatMap]
  constructor
  · intro a _
    have hcounterparts : ((analysed comparison contracts).map fun b => (a.id, b.id)).Nodup := by
      rw [List.Nodup, List.pairwise_map]
      exact hids.imp fun h he => h (Prod.mk.inj he).2
    refine hcounterparts.sublist (map_filterMap_sublist (fun b e h => ?_) _)
    split at h
    · cases h
    · obtain ⟨v, -, rfl⟩ := Option.map_eq_some_iff.mp h
      rfl
  · refine hids.imp fun {a b} hne => ?_
    refine List.disjoint_left.mpr fun key ha hb => ?_
    obtain ⟨e, he, rfl⟩ := List.mem_map.mp ha
    obtain ⟨e', he', hkey⟩ := List.mem_map.mp hb
    obtain ⟨_, -, -, hea, -⟩ := mem_upsertsOf.mp he
    obtain ⟨_, -, -, heb, -⟩ := mem_upsertsOf.mp he'
    rw [hea, heb] at hkey
    exact hne (Prod.mk.inj hkey).1.symm

/-- The analysis of all contracts comes to an end. In whatever order the contracts of a page write,
it writes each pair at most once, the table then has for two different contracts with ABIs how
similar they are (or what it had, if comparing them fails), and all else stays. -/
theorem analyseContracts_table (comparison : Comparison) (contracts : Contracts) :
    ∃ fuel pages, analyseContracts comparison contracts fuel = some pages ∧
      ∀ upserts, InTurns pages upserts → (upserts.map Prod.fst).Nodup ∧ ∀ analyses : Analyses,
        (∀ a ∈ analysed comparison contracts, ∀ b ∈ analysed comparison contracts, a.id ≠ b.id →
          analyses.mset upserts (a.id, b.id) =
            (comparison.similarity a b).or (analyses (a.id, b.id))) ∧
        ∀ key, (¬ ∃ a ∈ analysed comparison contracts, ∃ b ∈ analysed comparison contracts,
          a.id ≠ b.id ∧ key = (a.id, b.id)) → analyses.mset upserts key = analyses key := by
  obtain ⟨fuel, pages, hrun, hpages⟩ := analyseContracts_eq comparison contracts
  refine ⟨fuel, pages, hrun, fun upserts hturns => ?_⟩
  have hperm := hturns.perm
  rw [hpages] at hperm
  have hmem : ∀ e, e ∈ upserts ↔ ∃ a ∈ analysed comparison contracts,
      e ∈ upsertsOf comparison contracts a := by
    intro e
    rw [hperm.mem_iff, ← List.flatMap_def, List.mem_flatMap]
  refine ⟨(hperm.map Prod.fst).nodup_iff.mpr nodup_keys, fun analyses =>
    ⟨fun a ha b hb hne => ?_, fun key hkey => ?_⟩⟩
  · cases hsimilarity : comparison.similarity a b with
    | some v =>
      have hentry : ((a.id, b.id), v) ∈ upserts :=
        (hmem _).mpr ⟨a, ha, mem_upsertsOf.mpr ⟨b, hb, hne, rfl, hsimilarity⟩⟩
      obtain ⟨v', hv', hentry'⟩ := Store.mset_of_mem analyses hentry
      obtain ⟨a', ha', h⟩ := (hmem _).mp hentry'
      obtain ⟨b', hb', -, hkey, hsimilarity'⟩ := mem_upsertsOf.mp h
      obtain ⟨hida, hidb⟩ := Prod.mk.inj hkey
      obtain rfl := eq_of_id ha ha' hida
      obtain rfl := eq_of_id hb hb' hidb
      rw [hv', ← hsimilarity', hsimilarity, Option.some_or]
    | none =>
      rw [Option.none_or]
      refine Store.mset_of_notMem fun e he hkey => ?_
      obtain ⟨a', ha', h⟩ := (hmem e).mp he
      obtain ⟨b', hb', -, hkey', hsimilarity'⟩ := mem_upsertsOf.mp h
      obtain ⟨hida, hidb⟩ := Prod.mk.inj (hkey.symm.trans hkey')
      obtain rfl := eq_of_id ha ha' hida
      obtain rfl := eq_of_id hb hb' hidb
      rw [hsimilarity] at hsimilarity'
      cases hsimilarity'
  · refine Store.mset_of_notMem fun e he hek => hkey ?_
    obtain ⟨a, ha, h⟩ := (hmem e).mp he
    obtain ⟨b, hb, hne, hkey', -⟩ := mem_upsertsOf.mp h
    exact ⟨a, ha, b, hb, hne, hek.symm.trans hkey'⟩

end

end ContractsAnalysis
end Categorization
end DefiBackend
