import Mathlib.Algebra.BigOperators.Group.List.Basic
import Mathlib.Algebra.Order.Ring.Rat
import Mathlib.Data.List.Nodup
import Mathlib.Tactic.Ring

/-! # Counting elements once

Elements with distinct keys, some of them live, and a list of those that were counted.

* `CoveredOnce`: each live element was counted exactly once.
* `coveredOnce_flatMap`: the property is local. It holds of a whole exactly when it holds of every
  part.
* `coveredOnce_left`, `coveredOnce_copies`: what it says where one part is left out, and where
  everything is counted `n` times.
* `filter_multiples_eq_singleton`: the same of the multiples of one amount. -/

namespace DefiBackend
namespace Theory

section
variable [DecidableEq κ] (key : α → κ) (live : α → Prop)

/-- Every live element of `all` occurs exactly once among `counted`, by its key. -/
def CoveredOnce (counted all : List α) : Prop :=
  ∀ a ∈ all, live a → (counted.map key).count (key a) = 1

variable {key live}

theorem count_key_eq_zero {counted part rest : List α} (hd : ((part ++ rest).map key).Nodup)
    (hs : counted ⊆ rest) (ha : a ∈ part) : (counted.map key).count (key a) = 0 := by
  rw [List.map_append, List.nodup_append] at hd
  refine List.count_eq_zero.mpr fun h => ?_
  obtain ⟨b, hb, hk⟩ := List.mem_map.mp h
  exact hd.2.2 _ (List.mem_map_of_mem ha) _ (List.mem_map_of_mem (hs hb)) hk.symm

/-- The parts do not count each other's elements. -/
theorem coveredOnce_append {a b l r : List α} (hd : ((l ++ r).map key).Nodup) (ha : a ⊆ l)
    (hb : b ⊆ r) : CoveredOnce key live (a ++ b) (l ++ r) ↔
      CoveredOnce key live a l ∧ CoveredOnce key live b r := by
  have hd' : ((r ++ l).map key).Nodup :=
    (List.perm_append_comm.map key).nodup_iff.mp hd
  have hl : ∀ x ∈ l, ((a ++ b).map key).count (key x) = (a.map key).count (key x) := fun x hx => by
    rw [List.map_append, List.count_append, count_key_eq_zero hd hb hx, Nat.add_zero]
  have hr : ∀ x ∈ r, ((a ++ b).map key).count (key x) = (b.map key).count (key x) := fun x hx => by
    rw [List.map_append, List.count_append, count_key_eq_zero hd' ha hx, Nat.zero_add]
  constructor
  · intro h
    exact ⟨fun x hx hlive => hl x hx ▸ h x (List.mem_append_left _ hx) hlive,
      fun x hx hlive => hr x hx ▸ h x (List.mem_append_right _ hx) hlive⟩
  · rintro ⟨h, h'⟩ x hx hlive
    rcases List.mem_append.mp hx with hx | hx
    · exact (hl x hx).trans (h x hx hlive)
    · exact (hr x hx).trans (h' x hx hlive)

theorem coveredOnce_flatMap {f g : ι → List α} {parts : List ι}
    (hd : ((parts.flatMap g).map key).Nodup) (hs : ∀ i ∈ parts, f i ⊆ g i) :
    CoveredOnce key live (parts.flatMap f) (parts.flatMap g) ↔
      ∀ i ∈ parts, CoveredOnce key live (f i) (g i) := by
  induction parts with
  | nil => simp [CoveredOnce]
  | cons i parts ih =>
    obtain ⟨hi, hs⟩ := List.forall_mem_cons.mp hs
    rw [List.flatMap_cons] at hd
    have hd' : ((parts.flatMap g).map key).Nodup := by
      rw [List.map_append] at hd
      exact hd.of_append_right
    have hsub : parts.flatMap f ⊆ parts.flatMap g := fun x hx => by
      obtain ⟨j, hj, hx⟩ := List.mem_flatMap.mp hx
      exact List.mem_flatMap.mpr ⟨j, hj, hs j hj hx⟩
    rw [List.flatMap_cons, List.flatMap_cons, coveredOnce_append hd hi hsub, ih hd' hs,
      List.forall_mem_cons]

theorem coveredOnce_self {all : List α} (hd : (all.map key).Nodup) :
    CoveredOnce key live all all :=
  fun _ ha _ => List.count_eq_one_of_mem hd (List.mem_map_of_mem ha)

theorem coveredOnce_nil {all : List α} :
    CoveredOnce key live [] all ↔ ∀ a ∈ all, ¬ live a := by
  simp [CoveredOnce]

/-- What is left out must not be live. -/
theorem coveredOnce_left {l r : List α} (hd : ((l ++ r).map key).Nodup) :
    CoveredOnce key live l (l ++ r) ↔ ∀ a ∈ r, ¬ live a := by
  have h : CoveredOnce key live (l ++ []) (l ++ r) ↔ _ :=
    coveredOnce_append hd (List.Subset.refl l) (List.nil_subset r)
  rw [List.append_nil] at h
  rw [h, coveredOnce_nil]
  refine and_iff_right (coveredOnce_self ?_)
  rw [List.map_append] at hd
  exact hd.of_append_left

/-- A list that is counted `n` times. -/
theorem coveredOnce_copies {all : List α} (hd : (all.map key).Nodup) (n : Nat) :
    CoveredOnce key live (List.replicate n all).flatten all ↔ n = 1 ∨ ∀ a ∈ all, ¬ live a := by
  have hcount : ∀ a ∈ all, ((List.replicate n all).flatten.map key).count (key a) = n := by
    intro a ha
    have h := List.count_eq_one_of_mem hd (List.mem_map_of_mem ha)
    simp [List.map_flatten, List.count_flatten, h]
  constructor
  · intro h
    by_cases hn : n = 1
    · exact .inl hn
    · exact .inr fun a ha hlive => hn ((hcount a ha).symm.trans (h a ha hlive))
  · rintro (rfl | h) a ha hlive
    · exact hcount a ha
    · exact absurd hlive (h a ha)

theorem CoveredOnce.congr_perm {counted counted' all all' : List α} (hc : counted.Perm counted')
    (ha : all.Perm all') :
    CoveredOnce key live counted all ↔ CoveredOnce key live counted' all' := by
  simp only [CoveredOnce, ha.mem_iff, (hc.map key).count_eq]

end

/-! ## Multiples of one amount -/

theorem filter_multiples_eq_nil {v : ℚ} (hv : v ≠ 0) {ns : List Nat} :
    (ns.map fun n : Nat => (n : ℚ) * v).filter (· ≠ 0) = [] ↔ ns.sum = 0 := by
  induction ns with
  | nil => simp
  | cons n ns ih =>
    by_cases hn : n = 0
    · simpa [hn] using ih
    · simp [hn, hv]

/-- One of the multiples is the amount and the others are zero exactly when the factors add up to
one. -/
theorem filter_multiples_eq_singleton {v : ℚ} (hv : v ≠ 0) {ns : List Nat} :
    (ns.map fun n : Nat => (n : ℚ) * v).filter (· ≠ 0) = [v] ↔ ns.sum = 1 := by
  induction ns with
  | nil => simp
  | cons n ns ih =>
    by_cases hn : n = 0
    · simpa [hn] using ih
    · have hnv : (n : ℚ) * v ≠ 0 := mul_ne_zero (Nat.cast_ne_zero.mpr hn) hv
      have hone : (n : ℚ) * v = v ↔ n = 1 := by
        rw [mul_eq_right₀ hv, Nat.cast_eq_one]
      rw [List.map_cons, List.filter_cons_of_pos (by simpa using hnv), List.cons.injEq, hone,
        filter_multiples_eq_nil hv, List.sum_cons]
      omega

end Theory
end DefiBackend
