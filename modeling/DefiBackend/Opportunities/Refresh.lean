import DefiBackend.Opportunities.Adapters

/-! # A refresh of the opportunities

`OpportunityAdapterService.runInOrder` runs the adapters one after the other, forgets the ones that
throw, and replaces the whole table by what it has collected, unless this is nothing at all. So a
refresh loses no data exactly when it has nothing to lose (`losesNothing_iff`). -/

namespace DefiBackend
namespace Opportunities

variable {δ : Type}

/-! ## The table -/

/-- A row of the table, which keeps its id as long as it stands. -/
structure Row (δ : Type) where
  id : Nat
  opportunity : OpportunityCreate δ
  deriving DecidableEq

/-- The table, with the next id of its sequence. -/
structure OpportunitiesTable (δ : Type) where
  rows : List (Row δ)
  nextId : Nat
  id_lt : ∀ r ∈ rows, r.id < nextId

namespace OpportunitiesTable

/-- The rows of inserted opportunities. -/
def newRows (nextId : Nat) : List (OpportunityCreate δ) → List (Row δ)
  | [] => []
  | o :: os => ⟨nextId, o⟩ :: newRows (nextId + 1) os

theorem mem_newRows {nextId : Nat} {os : List (OpportunityCreate δ)} {r : Row δ}
    (h : r ∈ newRows nextId os) : nextId ≤ r.id ∧ r.id < nextId + os.length := by
  induction os generalizing nextId with
  | nil => cases h
  | cons o os ih =>
    rw [List.length_cons]
    rcases List.mem_cons.mp h with rfl | h
    · exact ⟨Nat.le_refl _, Nat.lt_add_of_pos_right (Nat.succ_pos _)⟩
    · have := ih h
      omega

theorem newRows_opportunity (nextId : Nat) (os : List (OpportunityCreate δ)) :
    (newRows nextId os).map Row.opportunity = os := by
  induction os generalizing nextId with
  | nil => rfl
  | cons o os ih => rw [newRows, List.map_cons, ih]

/-- `replaceAll`, in one transaction. The chunks of the insertion follow one another. -/
def replaceAll (table : OpportunitiesTable δ) (opportunities : List (OpportunityCreate δ)) :
    OpportunitiesTable δ where
  rows := newRows table.nextId opportunities
  nextId := table.nextId + opportunities.length
  id_lt := fun _ h => (mem_newRows h).2

/-- No row stays. -/
theorem notMem_replaceAll {table : OpportunitiesTable δ} {os : List (OpportunityCreate δ)}
    {r : Row δ} (h : r ∈ table.rows) : r ∉ (table.replaceAll os).rows :=
  fun h' => Nat.not_lt.mpr (mem_newRows h').1 (table.id_lt r h)

/-- The rows of each farm come from one adapter. -/
def OneSource (os : List (OpportunityCreate δ)) : Prop :=
  ∀ o ∈ os, ∀ o' ∈ os, o.farm = o'.farm → o.source = o'.source

/-- What the rows hold. -/
def opportunities (table : OpportunitiesTable δ) : List (OpportunityCreate δ) :=
  table.rows.map Row.opportunity

end OpportunitiesTable

open OpportunitiesTable

/-! ## The service -/

/-- One turn of the loop: the farms and the opportunities collected so far grow, unless the adapter
throws. -/
def processAdapter (collected : List String × List (OpportunityCreate δ)) (adapter : Adapter δ) :
    List String × List (OpportunityCreate δ) :=
  match adapter.loadData collected.1 with
  | .ok { farms, opportunities, .. } => (collected.1 ++ farms, collected.2 ++ opportunities)
  | .error _ => collected

def runInOrder (adapters : List (Adapter δ)) (table : OpportunitiesTable δ) :
    OpportunitiesTable δ :=
  let opportunities := (adapters.foldl processAdapter ([], [])).2
  if opportunities.length ≠ 0 then table.replaceAll opportunities else table

/-! ## What happens in a run -/

/-- A turn of the loop. -/
structure Step (δ : Type) where
  adapter : Adapter δ
  processed : List String

namespace Step
variable (s : Step δ)

def results : Except String (AdapterResults δ) := s.adapter.loadData s.processed

/-- The farms that the turn adds. -/
def farms : List String :=
  match s.results with
  | .ok results => results.farms
  | .error _ => []

/-- The opportunities that the turn adds. -/
def opportunities : List (OpportunityCreate δ) :=
  match s.results with
  | .ok results => results.opportunities
  | .error _ => []

/-- The adapter loads a farm: it is to, does not throw, and the farm does not fail in it. -/
def Loads (farm : String) : Prop :=
  farm ∈ s.adapter.serves s.processed ∧ ∃ results, s.results = .ok results ∧ farm ∉ results.failed

/-- The adapter is to load a farm, but throws, or the farm fails in it. -/
def Fails (farm : String) : Prop :=
  farm ∈ s.adapter.serves s.processed ∧ ∀ results, s.results = .ok results → farm ∈ results.failed

end Step

/-- The turns of a run, from some processed farms on. -/
def steps (processed : List String) : List (Adapter δ) → List (Step δ)
  | [] => []
  | adapter :: adapters =>
    let s : Step δ := ⟨adapter, processed⟩
    s :: steps (processed ++ s.farms) adapters

/-- The opportunities that a run collects. -/
def collected (adapters : List (Adapter δ)) : List (OpportunityCreate δ) :=
  (steps [] adapters).flatMap Step.opportunities

/-- Some adapter loads the farm. -/
def Loaded (adapters : List (Adapter δ)) (farm : String) : Prop :=
  ∃ s ∈ steps [] adapters, s.Loads farm

/-- An adapter fails to load the farm, and none loads it. -/
def FailedToLoad (adapters : List (Adapter δ)) (farm : String) : Prop :=
  (∃ s ∈ steps [] adapters, s.Fails farm) ∧ ¬ Loaded adapters farm

/-- After a refresh the table has the previous rows of every farm that failed to load, the fresh
opportunities of every farm that loaded, from an adapter that loaded it, and rows of each farm from
one adapter only. -/
structure LosesNothing (adapters : List (Adapter δ)) (table : OpportunitiesTable δ) : Prop where
  kept : ∀ farm, FailedToLoad adapters farm → ∀ r ∈ table.rows, r.opportunity.farm = farm →
    r ∈ (runInOrder adapters table).rows
  fresh : ∀ farm, Loaded adapters farm → ∃ s ∈ steps [] adapters, s.Loads farm ∧
    ∀ o ∈ s.opportunities, o.farm = farm → o ∈ (runInOrder adapters table).opportunities
  one : OneSource (runInOrder adapters table).opportunities

theorem processAdapter_eq (c : List String × List (OpportunityCreate δ)) (adapter : Adapter δ) :
    processAdapter c adapter =
      (c.1 ++ (Step.mk adapter c.1).farms, c.2 ++ (Step.mk adapter c.1).opportunities) := by
  unfold processAdapter Step.farms Step.opportunities Step.results
  cases adapter.loadData c.1 with
  | ok results => rfl
  | error e => simp

theorem foldl_processAdapter (adapters : List (Adapter δ))
    (c : List String × List (OpportunityCreate δ)) :
    (adapters.foldl processAdapter c).2 =
      c.2 ++ (steps c.1 adapters).flatMap Step.opportunities := by
  induction adapters generalizing c with
  | nil => simp [steps]
  | cons adapter adapters ih =>
    rw [List.foldl_cons, ih, processAdapter_eq, steps, List.flatMap_cons, List.append_assoc]

/-- A run replaces the table by what it collects, unless this is nothing. -/
theorem runInOrder_eq (adapters : List (Adapter δ)) (table : OpportunitiesTable δ) :
    runInOrder adapters table =
      if collected adapters = [] then table else table.replaceAll (collected adapters) := by
  have h : (adapters.foldl processAdapter ([], [])).2 = collected adapters := by
    rw [foldl_processAdapter, List.nil_append, collected]
  rw [runInOrder, h]
  by_cases hc : collected adapters = []
  · simp [hc]
  · simp [hc]

/-- What an adapter that loads a farm adds is collected. -/
theorem opportunities_subset {adapters : List (Adapter δ)} {s : Step δ}
    (hs : s ∈ steps [] adapters) : ∀ o ∈ s.opportunities, o ∈ collected adapters :=
  fun _ ho => List.mem_flatMap.mpr ⟨s, hs, ho⟩

/-- A refresh loses nothing exactly when it collects nothing and the table has the rows of each farm
from one adapter, or it collects something, no farm that failed to load has rows in the table, and
no two adapters have opportunities of one farm. -/
theorem losesNothing_iff (adapters : List (Adapter δ)) (table : OpportunitiesTable δ) :
    LosesNothing adapters table ↔
      (collected adapters = [] ∧ OneSource table.opportunities) ∨
      (collected adapters ≠ [] ∧ OneSource (collected adapters) ∧
        ∀ farm, FailedToLoad adapters farm → ∀ r ∈ table.rows, r.opportunity.farm ≠ farm) := by
  by_cases hc : collected adapters = []
  · have hrun : runInOrder adapters table = table := by rw [runInOrder_eq, if_pos hc]
    constructor
    · exact fun H => .inl ⟨hc, hrun ▸ H.one⟩
    · rintro (⟨-, hone⟩ | ⟨hne, -⟩)
      · refine ⟨fun farm _ r hr _ => by rwa [hrun], fun farm hloaded => ?_, by rwa [hrun]⟩
        obtain ⟨s, hs, hloads⟩ := hloaded
        refine ⟨s, hs, hloads, fun o ho _ => ?_⟩
        have hnil := opportunities_subset hs o ho
        rw [hc] at hnil
        cases hnil
      · exact absurd hc hne
  · have hrun : runInOrder adapters table = table.replaceAll (collected adapters) := by
      rw [runInOrder_eq, if_neg hc]
    have hnew : (runInOrder adapters table).opportunities = collected adapters := by
      rw [hrun]
      exact newRows_opportunity table.nextId (collected adapters)
    constructor
    · intro H
      refine .inr ⟨hc, hnew ▸ H.one, fun farm hfailed r hr heq => ?_⟩
      have hkept := H.kept farm hfailed r hr heq
      rw [hrun] at hkept
      exact notMem_replaceAll hr hkept
    · rintro (⟨hnil, -⟩ | ⟨-, hone, hfailed⟩)
      · exact absurd hnil hc
      · refine ⟨fun farm hf r hr heq => absurd heq (hfailed farm hf r hr), ?_, by rwa [hnew]⟩
        rintro farm ⟨s, hs, hloads⟩
        refine ⟨s, hs, hloads, fun o ho _ => ?_⟩
        rw [hnew]
        exact opportunities_subset hs o ho

/-! ## A request that fails -/

/-- A run of the integrations in which the request for one of two protocols fails. -/
def failedRequest : V3Run Unit where
  requests := .ok ()
  protocols := [⟨"Benqi", .error "timeout"⟩, ⟨"OccamX", .ok [.ok ⟨"pool", 1, 1, ()⟩]⟩]
  known := ["Benqi", "OccamX"]

/-- A run of the vaults without protocols. -/
def noVaults : V2Run Unit where
  requests := .ok ()
  protocols := []
  known := ["Benqi", "OccamX"]
  cache _ := .ok []

def benqiRow : Row Unit := ⟨1, ⟨"Benqi", "internal_v3", "lending", 6, 1, ()⟩⟩

/-- A table with a row of the farm whose request fails. -/
def benqiTable : OpportunitiesTable Unit where
  rows := [benqiRow]
  nextId := 2
  id_lt := by decide

theorem failedRequest_loadData : failedRequest.loadData = .ok
    { farms := ["Benqi", "OccamX"], opportunities := [⟨"OccamX", "internal_v3", "pool", 1, 1, ()⟩]
      failed := ["Benqi"] } := rfl

/-- The row is gone after the refresh. -/
theorem failedRequest_not_losesNothing :
    ¬ LosesNothing [internalV2Adapter noVaults, internalV3Adapter failedRequest] benqiTable := by
  intro H
  have hfails {processed : List String} :
      (Step.mk (internalV3Adapter failedRequest) processed).Fails "Benqi" := by
    refine ⟨List.mem_cons_self .., fun results h => ?_⟩
    cases failedRequest_loadData.symm.trans h
    exact List.mem_cons_self ..
  have hfailed : FailedToLoad [internalV2Adapter noVaults, internalV3Adapter failedRequest]
      "Benqi" := by
    refine ⟨⟨_, List.mem_cons_of_mem _ (List.mem_cons_self ..), hfails⟩, ?_⟩
    rintro ⟨s, hs, hserves, results, hresults, hloaded⟩
    rcases List.mem_cons.mp hs with rfl | hs
    · cases hserves
    · cases List.mem_singleton.mp hs
      exact hloaded (hfails.2 results hresults)
  have hkept := H.kept "Benqi" hfailed benqiRow (List.mem_cons_self ..) rfl
  exact absurd hkept (by decide)

end Opportunities
end DefiBackend
