import Mathlib.Logic.Function.Basic
import Mathlib.Data.List.Basic

/-! # Cells that several sessions write

Sessions run one after the other over one memory of cells, and each writes a list of cells. A
session owns some of the cells it has written: those it reports, as references, when all sessions
are over.

* `store`: the memory after a list of writes;
* `Functional`: a list that writes no two values into one cell;
* `store_sessions_eq_iff`: the sessions that own a cell find their own value in it at the end
  exactly when no session has written another one. -/

namespace DefiBackend
namespace Theory

variable {κ : Type u} {α : Type v} {ι : Type w}

/-- No two values for one cell. -/
def Functional (writes : List (κ × α)) : Prop :=
  ∀ {k v v'}, (k, v) ∈ writes → (k, v') ∈ writes → v = v'

section
variable [DecidableEq κ]

/-- The memory after a list of writes, the last of which counts. -/
def store (memory : κ → Option α) : List (κ × α) → κ → Option α
  | [] => memory
  | (k, v) :: writes => store (Function.update memory k (some v)) writes

variable {memory : κ → Option α} {writes : List (κ × α)}

@[simp] theorem store_nil : store memory [] = memory := rfl

@[simp] theorem store_cons : store memory ((k, v) :: writes) =
    store (Function.update memory k (some v)) writes := rfl

theorem store_append : store memory (writes ++ writes') = store (store memory writes) writes' := by
  induction writes generalizing memory with
  | nil => rfl
  | cons w writes ih => exact ih

/-- A cell that is not written keeps its content. -/
theorem store_of_notMem (h : ∀ v, (k, v) ∉ writes) : store memory writes k = memory k := by
  induction writes generalizing memory with
  | nil => rfl
  | cons w writes ih =>
    obtain ⟨k', v'⟩ := w
    have hk : k ≠ k' := fun hk => h v' (hk ▸ List.mem_cons_self ..)
    rw [store_cons, ih fun v hv => h v (List.mem_cons_of_mem _ hv), Function.update_of_ne hk]

/-- A cell that is written holds one of the values written. -/
theorem exists_mem_store (h : (k, v) ∈ writes) :
    ∃ v', (k, v') ∈ writes ∧ store memory writes k = some v' := by
  induction writes generalizing memory v with
  | nil => exact nomatch h
  | cons w writes ih =>
    obtain ⟨k', v'⟩ := w
    by_cases hlater : ∃ u, (k, u) ∈ writes
    · obtain ⟨u, hu⟩ := hlater
      obtain ⟨u', hu', heq⟩ := @ih (Function.update memory k' (some v')) u hu
      exact ⟨u', List.mem_cons_of_mem _ hu', heq⟩
    · have hnot : ∀ u, (k, u) ∉ writes := fun u hu => hlater ⟨u, hu⟩
      obtain heq | hmem := List.mem_cons.mp h
      · obtain ⟨rfl, rfl⟩ := Prod.mk.inj heq
        refine ⟨v, List.mem_cons_self .., ?_⟩
        rw [store_cons, store_of_notMem hnot, Function.update_self]
      · exact absurd hmem (hnot v)

/-- A cell into which only one value is written holds it. -/
theorem store_of_mem (h : (k, v) ∈ writes) (hone : ∀ v', (k, v') ∈ writes → v' = v) :
    store memory writes k = some v := by
  obtain ⟨v', hv', heq⟩ : ∃ v', (k, v') ∈ writes ∧ store memory writes k = some v' :=
    exists_mem_store h
  rw [heq, hone v' hv']

theorem store_functional (H : Functional writes) (h : (k, v) ∈ writes) :
    store memory writes k = some v :=
  store_of_mem h fun _ h' => H h' h

/-- Every session but the last one owns all it writes. The sessions find their own values exactly
when no session has written another value into a cell that one of them owns. -/
theorem store_sessions_eq_iff {sessions : List ι} {writes : ι → List (κ × α)} {owns : ι → κ → Prop}
    (hfun : ∀ a, Functional (writes a)) (howns : ∀ a k, owns a k → ∃ v, (k, v) ∈ writes a)
    (hlast : ∀ before last, sessions = before ++ [last] →
      ∀ a ∈ before, ∀ k v, (k, v) ∈ writes a → owns a k) :
    (∀ a ∈ sessions, ∀ k, owns a k →
      store memory (sessions.flatMap writes) k = store memory (writes a) k) ↔
    ∀ a ∈ sessions, ∀ k, owns a k → ∀ b ∈ sessions, ∀ v v',
      (k, v) ∈ writes a → (k, v') ∈ writes b → v = v' := by
  constructor
  · intro h a ha k hk b hb v v' hv hv'
    have hfinal := (h a ha k hk).trans (store_functional (hfun a) hv)
    by_cases hown : owns b k
    · exact Option.some.inj (hfinal.symm.trans ((h b hb k hown).trans (store_functional (hfun b) hv')))
    · -- a session that writes a cell it does not own is the last one, so its value stays
      obtain ⟨before, last, rfl⟩ : ∃ before last, sessions = before ++ [last] :=
        ⟨_, _, (List.dropLast_append_getLast (List.ne_nil_of_mem hb)).symm⟩
      obtain hb | hb := List.mem_append.mp hb
      · exact absurd (hlast before last rfl b hb k v' hv') hown
      · obtain rfl := List.mem_singleton.mp hb
        rw [List.flatMap_append, store_append, List.flatMap_singleton,
          store_functional (hfun b) hv'] at hfinal
        exact (Option.some.inj hfinal).symm
  · intro h a ha k hk
    obtain ⟨v, hv⟩ := howns a k hk
    rw [store_functional (hfun a) hv]
    refine store_of_mem (List.mem_flatMap.mpr ⟨a, ha, hv⟩) fun v' hv' => ?_
    obtain ⟨b, hb, hv'⟩ := List.mem_flatMap.mp hv'
    exact (h a ha k hk b hb v v' hv hv').symm

end
end Theory
end DefiBackend
