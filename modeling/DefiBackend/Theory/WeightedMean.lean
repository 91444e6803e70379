import Mathlib.Algebra.BigOperators.Field
import Mathlib.Algebra.Order.BigOperators.Group.List
import Mathlib.Algebra.Order.Field.Basic

/-! # Weighted means

A list of parts, each with a weight and a worth. The worth of all parts over the weight of all parts
is the mean of the quotients of the parts, each taken as often as the part's share of the weight. -/

namespace DefiBackend
namespace Theory

section
variable {𝕜 : Type v} [Field 𝕜] {weight worth : α → 𝕜} {l : List α}

/-- The worth of all parts over the weight of all parts. -/
def mean (weight worth : α → 𝕜) (l : List α) : 𝕜 := (l.map worth).sum / (l.map weight).sum

/-- The weights of the parts cancel in their shares. -/
theorem sum_share (h : ∀ a ∈ l, weight a ≠ 0) (total : 𝕜) :
    (l.map fun a => weight a / total * (worth a / weight a)).sum = (l.map worth).sum / total := by
  have hshare : (l.map fun a => weight a / total * (worth a / weight a)) =
      l.map fun a => worth a * total⁻¹ := by
    apply List.map_congr_left
    intro a ha
    rw [div_mul_div_comm, mul_comm total, mul_div_mul_left _ _ (h a ha), div_eq_mul_inv]
  rw [hshare, List.sum_map_mul_right, div_eq_mul_inv]

theorem sum_share_eq_mean (h : ∀ a ∈ l, weight a ≠ 0) :
    (l.map fun a => weight a / (l.map weight).sum * (worth a / weight a)).sum =
      mean weight worth l :=
  sum_share h _

end

section
variable {𝕜 : Type v} [Field 𝕜] [LinearOrder 𝕜] [IsStrictOrderedRing 𝕜] {weight worth : α → 𝕜}
variable {l : List α}

theorem sum_weight_pos (hne : l ≠ []) (h : ∀ a ∈ l, 0 < weight a) : 0 < (l.map weight).sum := by
  apply List.sum_pos
  · intro w hw
    obtain ⟨a, ha, rfl⟩ := List.mem_map.mp hw
    exact h a ha
  · exact List.map_eq_nil_iff.not.mpr hne

/-- The mean times the weight of all parts is the worth of all parts. -/
theorem sum_mean_mul (hne : l ≠ []) (h : ∀ a ∈ l, 0 < weight a) :
    (l.map fun a => mean weight worth l * weight a).sum = (l.map worth).sum := by
  rw [List.sum_map_mul_left, mean, div_mul_cancel₀ _ (sum_weight_pos hne h).ne']

/-- Some part is worth no more than the mean. -/
theorem exists_le_mean (hne : l ≠ []) (h : ∀ a ∈ l, 0 < weight a) :
    ∃ a ∈ l, worth a / weight a ≤ mean weight worth l := by
  obtain ⟨a, ha, hle⟩ := List.exists_le_of_sum_le hne _ _ (sum_mean_mul hne h).ge
  exact ⟨a, ha, (div_le_iff₀ (h a ha)).mpr hle⟩

/-- Some part is worth no less than the mean. -/
theorem exists_mean_le (hne : l ≠ []) (h : ∀ a ∈ l, 0 < weight a) :
    ∃ a ∈ l, mean weight worth l ≤ worth a / weight a := by
  obtain ⟨a, ha, hle⟩ := List.exists_le_of_sum_le hne _ _ (sum_mean_mul hne h).le
  exact ⟨a, ha, (le_div_iff₀ (h a ha)).mpr hle⟩

end

end Theory
end DefiBackend
