import Mathlib.Algebra.Order.Floor.Ring
import Mathlib.Data.Rat.Floor
import Mathlib.Tactic.Linarith

/-! # Searches along a chord

A place is searched at which an increasing error is small: from a place whose error is too large,
the search goes to where a line of a fixed slope through that error is zero.

* `chord`: the next place.
* `Steady`: on an interval, the errors increase by less than twice the slope.
* There every step stays in the interval and comes nearer (`Steady.chord_nearer`), so a search that
  starts nearer than the ends of the interval gets to a small error (`Steady.search_induction`). -/

namespace DefiBackend
namespace Theory

/-- Where the line through the error at a place is zero. -/
def chord (error : ℤ → ℤ) (slope : ℚ) (n : ℤ) : ℤ := n - ⌊(error n : ℚ) / slope⌋

/-- Between `first` and `last`, the errors increase: over some places by less than twice what the
slope gives for one place less, or by less than twice the tolerance. -/
structure Steady (error : ℤ → ℤ) (slope : ℚ) (tolerance first last : ℤ) : Prop where
  tolerance_pos : 0 < tolerance
  slope_pos : 0 < slope
  slope_le : slope ≤ tolerance
  increasing : ∀ m n, first ≤ m → m < n → n ≤ last → error m < error n
  span_lt : ∀ m n, first ≤ m → m < n → n ≤ last →
    ((error n - error m : ℤ) : ℚ) < 2 * max (tolerance : ℚ) ((n - m - 1) * slope)

section
variable {error : ℤ → ℤ} {slope : ℚ} {tolerance first last : ℤ}

/-- A place with too large an error leads down, by as many places as the slope fits into it. -/
theorem chord_of_pos (hslope : 0 < slope) {n : ℤ} (h : slope ≤ error n) :
    ∃ k : ℤ, 0 < k ∧ chord error slope n = n - k ∧ k * slope ≤ error n := by
  refine ⟨⌊(error n : ℚ) / slope⌋, ?_, rfl, ?_⟩
  · apply Int.floor_pos.mpr
    rwa [le_div_iff₀ hslope, one_mul]
  · rw [← le_div_iff₀ hslope]
    exact Int.floor_le _

/-- A place with too small an error leads up, by as many places as fill it. -/
theorem chord_of_neg (hslope : 0 < slope) {n : ℤ} (h : error n < 0) :
    ∃ k : ℤ, 0 < k ∧ chord error slope n = n + k ∧ (k - 1) * slope ≤ -error n := by
  have hneg : (error n : ℚ) / slope < 0 :=
    div_neg_of_neg_of_pos (by exact_mod_cast h) hslope
  refine ⟨-⌊(error n : ℚ) / slope⌋, ?_, ?_, ?_⟩
  · have hfloor : ⌊(error n : ℚ) / slope⌋ < 0 := Int.floor_lt.mpr (by exact_mod_cast hneg)
    omega
  · rw [chord, sub_eq_add_neg]
  · have hlt := Int.lt_floor_add_one ((error n : ℚ) / slope)
    rw [div_lt_iff₀ hslope] at hlt
    push_cast
    linarith

namespace Steady
variable (H : Steady error slope tolerance first last)
include H

/-- Over places that the slope fits into an error, less one, the errors increase by less than twice
as much. -/
theorem span_lt_of_le {m n e : ℤ} (hm : first ≤ m) (hmn : m < n) (hn : n ≤ last)
    (he : tolerance ≤ e) (h : (n - m - 1) * slope ≤ e) : error n - error m < 2 * e := by
  have hspan := H.span_lt m n hm hmn hn
  have hmax : max (tolerance : ℚ) ((n - m - 1) * slope) ≤ e :=
    max_le (by exact_mod_cast he) h
  have hlt : ((error n - error m : ℤ) : ℚ) < ((2 * e : ℤ) : ℚ) := by
    push_cast at hspan ⊢
    linarith
  exact_mod_cast hlt

/-- Places that are twice an error apart are more than as many as fill it. -/
theorem lt_of_span {m n e k : ℤ} (hm : first ≤ m) (hmn : m < n) (hn : n ≤ last)
    (he : tolerance ≤ e) (hspan : 2 * e ≤ error n - error m) (hk : (k - 1) * slope ≤ e) :
    k < n - m := by
  by_contra hle
  have hle : n - m ≤ k := not_lt.mp hle
  have hlt : error n - error m < 2 * e := by
    apply H.span_lt_of_le hm hmn hn he
    have hcast : (n - m - 1 : ℚ) ≤ k - 1 := by exact_mod_cast sub_le_sub_right hle 1
    exact (mul_le_mul_of_nonneg_right hcast H.slope_pos.le).trans hk
  omega

/-- From an error that is smaller than those at both ends, a step stays between them and comes
nearer. -/
theorem chord_nearer {n radius : ℤ} (hfirst : radius ≤ -error first) (hlast : radius ≤ error last)
    (hn : first ≤ n) (hn' : n ≤ last) (hfar : tolerance ≤ |error n|) (hnear : |error n| ≤ radius) :
    first ≤ chord error slope n ∧ chord error slope n ≤ last ∧
      |error (chord error slope n)| < |error n| := by
  have htolerance := H.tolerance_pos
  rcases lt_trichotomy (error n) 0 with hneg | hzero | hpos
  · obtain ⟨k, hk, hchord, hfit⟩ := chord_of_neg H.slope_pos hneg
    rw [abs_of_neg hneg] at hfar hnear ⊢
    have hfit : (k - 1) * slope ≤ ((-error n : ℤ) : ℚ) := by exact_mod_cast hfit
    have hne : n ≠ last := by
      rintro rfl
      omega
    have hroom : k < last - n :=
      H.lt_of_span hn (by omega) le_rfl hfar (by omega) hfit
    have hspan : error (n + k) - error n < 2 * -error n := by
      apply H.span_lt_of_le hn (by omega) (by omega) hfar
      push_cast at hfit ⊢
      linarith
    have hup := H.increasing n (n + k) hn (by omega) (by omega)
    rw [hchord, abs_lt]
    exact ⟨by omega, by omega, by omega, by omega⟩
  · rw [hzero, abs_zero] at hfar
    omega
  · rw [abs_of_pos hpos] at hfar hnear ⊢
    have hslope : slope ≤ error n := H.slope_le.trans (by exact_mod_cast hfar)
    obtain ⟨k, hk, hchord, hfit⟩ := chord_of_pos H.slope_pos hslope
    have hfit : (k - 1) * slope ≤ error n := by linarith [H.slope_pos]
    have hne : n ≠ first := by
      rintro rfl
      omega
    have hroom : k < n - first :=
      H.lt_of_span le_rfl (by omega) hn' hfar (by omega) hfit
    have hspan : error n - error (n - k) < 2 * error n := by
      apply H.span_lt_of_le (by omega) (by omega) hn' hfar
      push_cast
      linarith
    have hdown := H.increasing (n - k) n (by omega) (by omega) hn'
    rw [hchord, abs_lt]
    exact ⟨by omega, by omega, by omega, by omega⟩

/-- What holds where the error is small, and of a place if it holds of the next one, holds of all
places that are nearer than the ends. -/
theorem search_induction {motive : ℤ → Prop} {radius : ℤ} (hfirst : radius ≤ -error first)
    (hlast : radius ≤ error last)
    (found : ∀ n, first ≤ n → n ≤ last → |error n| < tolerance → motive n)
    (step : ∀ n, first ≤ n → n ≤ last → tolerance ≤ |error n| → motive (chord error slope n) →
      motive n) {n : ℤ} (hn : first ≤ n) (hn' : n ≤ last) (hnear : |error n| ≤ radius) :
    motive n := by
  -- the distance from the target gets smaller with each step
  induction hdistance : (error n).natAbs using Nat.strong_induction_on generalizing n with
  | _ distance ih =>
    rcases lt_or_ge |error n| tolerance with hsmall | hfar
    · exact found n hn hn' hsmall
    · obtain ⟨hchord, hchord', hlt⟩ := H.chord_nearer hfirst hlast hn hn' hfar hnear
      have hnat : (error (chord error slope n)).natAbs < distance := by
        rw [← hdistance]
        zify
        exact hlt
      exact step n hn hn' hfar (ih _ hnat hchord hchord' (hlt.le.trans hnear) rfl)

end Steady

end

end Theory
end DefiBackend
