import DefiBackend.Common.Address
import DefiBackend.Theory.Loops

/-! # Fetching of ABIs

`contracts.service.ts`: contracts are selected by their flag `fetchedAbi`, a page at a time and
always from the first one, and each of a page is fetched and flagged.

* `selectedIds_fetchPage`: a page of contracts without the flag is no longer selected.
* `fetchAbiAndAbiCode_perm`: so all of them are fetched, once each.
* `fetchesOnce_iff`: the contracts with the flag stay selected, so the loop ends for them only if
  there are none. -/

namespace DefiBackend
namespace Categorization
open Theory

/-! ## Contracts -/

structure Protocol where
  id : Nat
  name : String
  url : String
  deriving DecidableEq

/-- A page of a protocol. -/
structure Website where
  url : String
  protocol : Protocol
  deriving DecidableEq

structure Contract where
  id : Int
  address : Address
  abi : Option String
  abiCode : Option String
  chain : Option String
  protocol : Option Nat
  fetchedAbi : Bool
  deriving DecidableEq

structure ChainAbi where
  chain : Option String
  abi : Option String
  abiCode : Option String

/-- The table of contracts, in the order of their ids, with the next value of its sequence.
Templates have negative ids. -/
structure Contracts where
  rows : List Contract
  next : Nat
  sorted : rows.Pairwise (·.id < ·.id)
  lt_next : ∀ contract ∈ rows, contract.id < next

/-- The request of a command. -/
structure CommandRequestDto where
  includeProcessed : Option Bool

def Contract.fetch (contract : Contract) (answer : ChainAbi) : Contract :=
  { contract with
    abi := answer.abi
    abiCode := answer.abiCode
    chain := answer.chain
    fetchedAbi := true }

def Contract.updated (id : Int) (answer : ChainAbi) (contract : Contract) : Contract :=
  if contract.id = id then contract.fetch answer else contract

@[simp] theorem Contract.updated_id (contract : Contract) (id : Int) (answer : ChainAbi) :
    (contract.updated id answer).id = contract.id := by
  rw [Contract.updated]
  split <;> rfl

namespace Contracts

/-- `update({ id }, { abi, abiCode, chain, fetchedAbi: true })`. -/
def update (contracts : Contracts) (id : Int) (answer : ChainAbi) : Contracts where
  rows := contracts.rows.map (Contract.updated id answer)
  next := contracts.next
  sorted := by
    rw [List.pairwise_map]
    simpa only [Contract.updated_id] using contracts.sorted
  lt_next := by
    intro contract hcontract
    obtain ⟨row, hrow, rfl⟩ := List.mem_map.mp hcontract
    rw [Contract.updated_id]
    exact contracts.lt_next row hrow

/-- The contracts that a flag selects; templates are not. -/
def selected (contracts : Contracts) (fetchedAbi : Bool) : List Contract :=
  contracts.rows.filter fun contract => 0 < contract.id ∧ contract.fetchedAbi = fetchedAbi

def findByFetchedAbiFlag (contracts : Contracts) (fetchedAbi : Bool) (skip take : Nat) :
    List Contract :=
  page skip take (contracts.selected fetchedAbi)

/-- A new contract gets the next id. -/
def insert (contracts : Contracts) (address : Address) (protocol : Protocol) : Contracts where
  rows := contracts.rows ++
    [⟨contracts.next, address, none, none, none, some protocol.id, false⟩]
  next := contracts.next + 1
  sorted := by
    apply List.pairwise_append.mpr
    refine ⟨contracts.sorted, List.pairwise_singleton _ _, ?_⟩
    intro row hrow contract hcontract
    rw [List.mem_singleton.mp hcontract]
    exact contracts.lt_next row hrow
  lt_next := by
    intro contract hcontract
    rw [List.mem_append, List.mem_singleton] at hcontract
    rcases hcontract with h | rfl
    · have hless := contracts.lt_next contract h
      push_cast
      omega
    · push_cast
      omega

end Contracts

/-! ## Contracts of pages -/

/-- With no contracts, `find` has no conditions. -/
def saveContracts (contracts : Contracts) (listContracts : List (Address × Protocol)) : Contracts :=
  let find := contracts.rows.filter fun contract => listContracts = [] ∨
    ∃ a ∈ listContracts, contract.address = a.1 ∧ contract.protocol = some a.2.id
  let filteredAddresses := listContracts.filter fun a => a.1 ∉ find.map (·.address)
  filteredAddresses.foldl (fun contracts a => contracts.insert a.1 a.2) contracts

/-- `parsing` gives the addresses on a page. -/
def scanWebsitesForContracts (parsing : String → List Address) (contracts : Contracts)
    (websites : List Website) : Contracts :=
  websites.foldl (fun contracts website =>
    saveContracts contracts ((parsing website.url).map (·, website.protocol))) contracts

/-! ## The loop -/

/-- What the loop meets: the answer to each call of the fetcher, by the number of calls before it,
and the order in which the contracts of a page are done. -/
structure Fetching where
  fetchAbiAndAbiCode : Nat → Address → ChainAbi
  order : List Contract → List Contract
  perm : ∀ contracts, (order contracts).Perm contracts

/-- The contracts that were fetched are known by their ids. -/
structure FetchRun where
  contracts : Contracts
  processed : Nat
  fetched : List Int

section
variable (F : Fetching) (request : CommandRequestDto)

/-- The iteratee of `eachLimit`. -/
def fetchContract (s : FetchRun) (contract : Contract) : FetchRun :=
  { s with
    contracts := s.contracts.update contract.id
      (F.fetchAbiAndAbiCode s.fetched.length contract.address)
    fetched := s.fetched ++ [contract.id] }

/-- One round of the loop, and whether there is another one. -/
def fetchPage (s : FetchRun) : FetchRun × Bool :=
  let contracts := s.contracts.findByFetchedAbiFlag (request.includeProcessed.getD false) 0 100
  let s := (F.order contracts).foldl (fetchContract F) s
  ({ s with processed := s.processed + contracts.length }, ¬ contracts.isEmpty)

def fetchAbiAndAbiCode (fuel : Nat) (contracts : Contracts) : Option FetchRun :=
  doWhilst (fetchPage F request) fuel ⟨contracts, 0, []⟩

/-- The contracts that a request selects. -/
def CommandRequestDto.selects (contracts : Contracts) : List Contract :=
  contracts.selected (request.includeProcessed.getD false)

/-- The loop ends, and has then fetched each selected contract exactly once. -/
def FetchesOnce (contracts : Contracts) : Prop :=
  ∃ fuel s, fetchAbiAndAbiCode F request fuel contracts = some s ∧
    ∀ contract ∈ request.selects contracts, s.fetched.count contract.id = 1

end

/-! ## Contracts without the flag -/

/-- The ids of the contracts that a flag selects. -/
def Contracts.selectedIds (contracts : Contracts) (fetchedAbi : Bool) : List Int :=
  (contracts.selected fetchedAbi).map (·.id)

theorem Contracts.nodup_selectedIds (contracts : Contracts) (fetchedAbi : Bool) :
    (contracts.selectedIds fetchedAbi).Nodup := by
  have hnodup : (contracts.rows.map (·.id)).Nodup :=
    (List.pairwise_map.mpr contracts.sorted).imp Int.ne_of_lt
  exact hnodup.sublist (List.filter_sublist.map _)

/-- A contract that has been updated is not selected. -/
theorem Contracts.selectedIds_update (contracts : Contracts) (id : Int) (answer : ChainAbi) :
    (contracts.update id answer).selectedIds false =
      (contracts.selectedIds false).filter (· ≠ id) := by
  rw [selectedIds, selectedIds, selected, selected, update, List.filter_map, List.map_map,
    List.filter_map, List.filter_filter]
  have hid : (fun contract : Contract => contract.id) ∘ Contract.updated id answer =
      fun contract => contract.id := by
    funext contract
    exact contract.updated_id id answer
  rw [hid]
  congr 2
  funext contract
  by_cases h : contract.id = id
  · simp [Contract.updated, Contract.fetch, h]
  · simp [Contract.updated, h]

section
variable {F : Fetching} {request : CommandRequestDto}

theorem foldl_fetchContract (list : List Contract) (s : FetchRun) :
    (list.foldl (fetchContract F) s).fetched = s.fetched ++ list.map (·.id) ∧
      (list.foldl (fetchContract F) s).contracts.selectedIds false =
        (s.contracts.selectedIds false).filter (· ∉ list.map (·.id)) := by
  induction list generalizing s with
  | nil =>
    refine ⟨(List.append_nil _).symm, ?_⟩
    exact (List.filter_eq_self.mpr fun _ _ => decide_eq_true List.not_mem_nil).symm
  | cons contract list ih =>
    obtain ⟨hfetched, hselected⟩ := ih (fetchContract F s contract)
    rw [List.foldl_cons, hfetched, hselected]
    constructor
    · exact List.append_assoc _ _ _
    · rw [fetchContract, Contracts.selectedIds_update, List.filter_filter]
      congr
      funext id
      simp only [List.map_cons, List.mem_cons, not_or, Bool.decide_and, Bool.and_comm]

/-- A page that has been fetched is not selected any more. -/
theorem fetchPage_perm (h : request.includeProcessed.getD false = false) (s : FetchRun) :
    (fetchPage F request s).1.fetched.Perm
        (s.fetched ++ page 0 100 (s.contracts.selectedIds false)) ∧
      (fetchPage F request s).1.contracts.selectedIds false =
        (s.contracts.selectedIds false).drop 100 := by
  have hpage : (page 0 100 (s.contracts.selected false)).map (·.id) =
      page 0 100 (s.contracts.selectedIds false) := by
    rw [page, page, List.drop_zero, List.drop_zero, List.map_take, Contracts.selectedIds]
  have hperm := (F.perm (page 0 100 (s.contracts.selected false))).map (·.id)
  rw [hpage] at hperm
  obtain ⟨hfetched, hselected⟩ :=
    @foldl_fetchContract F (F.order (page 0 100 (s.contracts.selected false))) s
  rw [fetchPage, h, Contracts.findByFetchedAbiFlag]
  constructor
  · rw [hfetched]
    exact hperm.append_left _
  · rw [hselected, ← filter_not_mem_page (s.contracts.nodup_selectedIds false) 100]
    apply List.filter_congr
    intro id _
    rw [decide_eq_decide, hperm.mem_iff]

/-- There is another round exactly when a contract is selected. -/
theorem fetchPage_next {s : FetchRun} :
    (fetchPage F request s).2 = true ↔ request.selects s.contracts ≠ [] := by
  have hnil : page 0 100 (request.selects s.contracts) = [] ↔ request.selects s.contracts = [] := by
    rw [page_eq_nil (by decide), Nat.le_zero, List.length_eq_zero_iff]
  rw [ne_eq, ← hnil, fetchPage, Contracts.findByFetchedAbiFlag, ← CommandRequestDto.selects]
  simp

theorem selects_eq_nil (h : request.includeProcessed.getD false = false) {contracts : Contracts} :
    request.selects contracts = [] ↔ contracts.selectedIds false = [] := by
  rw [CommandRequestDto.selects, h, Contracts.selectedIds, List.map_eq_nil_iff]

/-- What was fetched and what is selected are together what was selected at first. -/
def Fetches (contracts : Contracts) (s : FetchRun) : Prop :=
  (s.fetched ++ s.contracts.selectedIds false).Perm (contracts.selectedIds false)

theorem Fetches.fetchPage (h : request.includeProcessed.getD false = false) {contracts : Contracts}
    {s : FetchRun} (hs : Fetches contracts s) : Fetches contracts (fetchPage F request s).1 := by
  obtain ⟨hfetched, hselected⟩ := @fetchPage_perm F request h s
  apply List.Perm.trans _ hs
  rw [hselected]
  apply (hfetched.append_right _).trans
  rw [List.append_assoc, page_append_drop]

/-- The contracts without the flag get less. -/
theorem exists_endsIn_fetchPage (h : request.includeProcessed.getD false = false)
    (contracts : Contracts) : ∃ s, EndsIn (fetchPage F request) ⟨contracts, 0, []⟩ s := by
  apply exists_endsIn (fun s => (s.contracts.selectedIds false).length) (I := fun _ => True) trivial
  intro s _ hnext
  refine ⟨trivial, ?_⟩
  rw [fetchPage_next, ne_eq, selects_eq_nil h] at hnext
  have hpos := List.length_pos_iff.mpr hnext
  rw [(fetchPage_perm h s).2, List.length_drop]
  omega

/-- All contracts without the flag are fetched, and no others. -/
theorem fetchAbiAndAbiCode_perm (h : request.includeProcessed.getD false = false)
    {contracts : Contracts} {s : FetchRun}
    (hs : EndsIn (fetchPage F request) ⟨contracts, 0, []⟩ s) :
    s.fetched.Perm (contracts.selectedIds false) := by
  apply hs.induction (I := Fetches contracts)
    (Q := fun s => s.fetched.Perm (contracts.selectedIds false))
  · exact List.Perm.refl _
  · intro s hs _
    exact hs.fetchPage h
  · intro s hs hlast
    have hnone : s.contracts.selectedIds false = [] := by
      rw [← selects_eq_nil h]
      by_contra hne
      rw [← ne_eq, ← @fetchPage_next F, hlast] at hne
      cases hne
    have hfinal : Fetches contracts (fetchPage F request s).1 := hs.fetchPage h
    rwa [Fetches, (fetchPage_perm h s).2, hnone, List.drop_nil, List.append_nil] at hfinal

/-- Contracts without the flag are fetched once each. -/
theorem fetchesOnce_of_unprocessed (h : request.includeProcessed.getD false = false)
    (contracts : Contracts) : FetchesOnce F request contracts := by
  obtain ⟨s, hs⟩ := @exists_endsIn_fetchPage F request h contracts
  have hperm := fetchAbiAndAbiCode_perm h hs
  obtain ⟨fuel, hfuel⟩ := hs
  refine ⟨fuel, s, hfuel, ?_⟩
  intro contract hcontract
  rw [CommandRequestDto.selects, h] at hcontract
  rw [hperm.count_eq]
  exact List.count_eq_one_of_mem (contracts.nodup_selectedIds false) (List.mem_map_of_mem hcontract)

/-! ## Contracts with the flag -/

theorem selected_update_ne_nil {contracts : Contracts} (h : contracts.selected true ≠ [])
    (id : Int) (answer : ChainAbi) : (contracts.update id answer).selected true ≠ [] := by
  obtain ⟨contract, hcontract⟩ := List.exists_mem_of_ne_nil _ h
  obtain ⟨hrow, hselected⟩ := List.mem_filter.mp hcontract
  obtain ⟨hpos, hflag⟩ := of_decide_eq_true hselected
  apply List.ne_nil_of_mem (a := contract.updated id answer)
  apply List.mem_filter.mpr
  refine ⟨List.mem_map_of_mem hrow, decide_eq_true ⟨?_, ?_⟩⟩
  · rwa [Contract.updated_id]
  · rw [Contract.updated]
    split
    · rfl
    · exact hflag

/-- A contract with the flag is selected for ever. -/
theorem not_endsIn_fetchPage (h : request.includeProcessed = some true) {contracts : Contracts}
    (hselects : request.selects contracts ≠ []) {s : FetchRun} :
    ¬ EndsIn (fetchPage F request) ⟨contracts, 0, []⟩ s := by
  apply not_endsIn (I := fun s => request.selects s.contracts ≠ [])
  · exact hselects
  · intro s hs
    refine ⟨fetchPage_next.mpr hs, ?_⟩
    rw [CommandRequestDto.selects, h] at hs ⊢
    rw [fetchPage]
    generalize F.order _ = list
    dsimp only
    induction list generalizing s with
    | nil => exact hs
    | cons contract list ih => exact ih _ (selected_update_ne_nil hs _ _)

/-- The loop ends, with each selected contract fetched once, exactly when the contracts with the
flag are not asked for, or when there are none. -/
theorem fetchesOnce_iff (F : Fetching) (request : CommandRequestDto) (contracts : Contracts) :
    FetchesOnce F request contracts ↔
      request.includeProcessed ≠ some true ∨ request.selects contracts = [] := by
  constructor
  · rintro ⟨fuel, s, hs, -⟩
    by_contra hnot
    rw [not_or, not_not] at hnot
    exact not_endsIn_fetchPage hnot.1 hnot.2 ⟨fuel, hs⟩
  · rintro (h | h)
    · apply fetchesOnce_of_unprocessed
      match hflag : request.includeProcessed with
      | none => rfl
      | some false => rfl
      | some true => exact absurd hflag h
    · have hlast : (fetchPage F request ⟨contracts, 0, []⟩).2 = false := by
        rw [← Bool.not_eq_true, fetchPage_next, not_not, h]
      obtain ⟨fuel, hfuel⟩ := endsIn_of_last hlast
      refine ⟨fuel, _, hfuel, ?_⟩
      intro contract hcontract
      rw [h] at hcontract
      cases hcontract

end

/-- A fetcher without answers to give. -/
def noAnswers : Fetching where
  fetchAbiAndAbiCode _ _ := ⟨none, none, none⟩
  order := id
  perm _ := List.Perm.refl _

/-- One contract with the flag. -/
def oneFetched : Contracts where
  rows := [⟨1, "0xc", none, none, none, none, true⟩]
  next := 2
  sorted := List.pairwise_singleton _ _
  lt_next := by decide

theorem oneFetched_not_fetchesOnce : ¬ FetchesOnce noAnswers ⟨some true⟩ oneFetched := by
  rintro ⟨fuel, s, hs, -⟩
  have hselects : CommandRequestDto.selects ⟨some true⟩ oneFetched ≠ [] := by decide
  exact not_endsIn_fetchPage rfl hselects ⟨fuel, hs⟩

end Categorization
end DefiBackend
