import Mathlib.Algebra.Order.Floor.Ring
import Mathlib.Data.Nat.Bitwise
import Mathlib.Data.Rat.Floor
import Mathlib.Order.Monotone.Basic

/-! # Functions chosen by bits, and rounding up

`bitFold fs n x` applies to `x` those functions of a list that the bits of `n` choose, from the
lowest bit on: how a power is computed from the powers of two. Between a number and the next one the
bits differ by a carry.

* `bitFold_antitone`: if all functions are monotone, the fold goes down from every number to the
  next if it does where only the lowest bits change, once for each bit (`Carries`);
* `foldl_and_eq_bitFold`: a loop that tests the bits with masks;
* `ceil_ceil_div`: rounding up twice;
* `ediv_ite_eq_ceil`: rounding up by the remainder. -/

namespace DefiBackend
namespace Theory

section
variable {α : Type u}

/-- The functions that the bits of `n` choose, one after the other. -/
def bitFold : List (α → α) → Nat → α → α
  | [], _, x => x
  | f :: fs, n, x => bitFold fs (n / 2) (if n % 2 = 1 then f x else x)

theorem bitFold_cons_even {f : α → α} : bitFold (f :: fs) (2 * m) x = bitFold fs m x := by
  rw [bitFold, if_neg (by omega), Nat.mul_div_cancel_left m two_pos]

theorem bitFold_cons_odd {f : α → α} : bitFold (f :: fs) (2 * m + 1) x = bitFold fs m (f x) := by
  rw [bitFold, if_pos (by omega), show (2 * m + 1) / 2 = m by omega]

/-- A loop over functions under masks, the powers of two from one on. -/
inductive Masks : Nat → List (Nat × β) → Prop
  | nil : Masks k []
  | cons : Masks (k + 1) fs → Masks k ((2 ^ k, b) :: fs)

theorem and_two_pow_ne_zero : n &&& 2 ^ k ≠ 0 ↔ n / 2 ^ k % 2 = 1 := by
  rw [Nat.and_two_pow, Nat.testBit_eq_decide_div_mod_eq]
  by_cases h : n / 2 ^ k % 2 = 1
  · simp [h]
  · simp [h]

/-- A loop that tests the bits with masks. -/
theorem foldl_and_eq_bitFold {f : α → β → α} {fs : List (Nat × β)} (h : Masks k fs) (n : Nat)
    (x : α) : fs.foldl (fun x e => if n &&& e.1 ≠ 0 then f x e.2 else x) x =
      bitFold (fs.map fun e x => f x e.2) (n / 2 ^ k) x := by
  induction h generalizing x with
  | nil => rfl
  | cons _ ih =>
    rw [List.foldl_cons, ih, List.map_cons, bitFold, Nat.div_div_eq_div_mul, ← Nat.pow_succ]
    simp only [and_two_pow_ne_zero]

variable [Preorder α]

/-- Where a carry runs into a bit, the function of that bit alone gives no more than all functions
of the lower bits. The value `x` has none of the lower bits and `y` has all of them. -/
def Carries : List (α → α) → α → α → Prop
  | [], _, _ => True
  | f :: fs, x, y => f x ≤ y ∧ Carries fs x (f y)

instance instDecidableCarries [DecidableLE α] :
    (fs : List (α → α)) → (x y : α) → Decidable (Carries fs x y)
  | [], _, _ => .isTrue trivial
  | f :: fs, x, y =>
    have := instDecidableCarries fs x (f y)
    inferInstanceAs (Decidable (f x ≤ y ∧ Carries fs x (f y)))

theorem bitFold_mono {fs : List (α → α)} (hmono : ∀ f ∈ fs, Monotone f) (n : Nat) :
    Monotone (bitFold fs n) := by
  induction fs generalizing n with
  | nil => exact monotone_id
  | cons f fs ih =>
    obtain ⟨hf, hfs⟩ := List.forall_mem_cons.mp hmono
    intro x y hxy
    refine ih hfs (n / 2) ?_
    split
    · exact hf hxy
    · exact hxy

/-- From a number to the next. The bits below those of the list have carried: `y` had them. -/
theorem bitFold_succ_le {fs : List (α → α)} (hmono : ∀ f ∈ fs, Monotone f) (h : Carries fs x y)
    (hn : n + 1 < 2 ^ fs.length) : bitFold fs (n + 1) x ≤ bitFold fs n y := by
  induction fs generalizing n y with
  | nil => simp at hn
  | cons f fs ih =>
    obtain ⟨hf, hfs⟩ := List.forall_mem_cons.mp hmono
    obtain ⟨hcarry, hrest⟩ := h
    rw [List.length_cons, Nat.pow_succ] at hn
    obtain ⟨m, rfl | rfl⟩ : ∃ m, n = 2 * m ∨ n = 2 * m + 1 := ⟨n / 2, by omega⟩
    · rw [bitFold_cons_odd, bitFold_cons_even]
      exact bitFold_mono hfs m hcarry
    · rw [show 2 * m + 1 + 1 = 2 * (m + 1) by ring, bitFold_cons_even, bitFold_cons_odd]
      exact ih hfs hrest (by omega)

/-- The fold goes down as the number goes up. -/
theorem bitFold_antitone {fs : List (α → α)} (hmono : ∀ f ∈ fs, Monotone f) (h : Carries fs x x)
    (hmn : m ≤ n) (hn : n < 2 ^ fs.length) : bitFold fs n x ≤ bitFold fs m x := by
  induction n, hmn using Nat.le_induction with
  | base => exact le_refl _
  | succ n _ ih => exact (bitFold_succ_le hmono h hn).trans (ih (by omega))

end

/-- Rounding a quotient up after its numerator has been rounded up. -/
theorem ceil_ceil_div (a : ℚ) {b : ℤ} (hb : 0 < b) : ⌈(⌈a⌉ : ℚ) / b⌉ = ⌈a / b⌉ := by
  have hb' : (0 : ℚ) < b := by exact_mod_cast hb
  refine eq_of_forall_ge_iff fun z => ?_
  rw [Int.ceil_le, Int.ceil_le, div_le_iff₀ hb', div_le_iff₀ hb', ← Int.cast_mul, Int.cast_le,
    Int.ceil_le]

/-- Integer division that adds one for a remainder. -/
theorem ediv_ite_eq_ceil (a : ℤ) (hd : 0 < d) :
    (if a % d ≠ 0 then a / d + 1 else a / d) = ⌈(a : ℚ) / d⌉ := by
  have hd' : (0 : ℚ) < d := by exact_mod_cast hd
  have hdiv : d * (a / d) + a % d = a := Int.mul_ediv_add_emod a d
  have hnonneg : 0 ≤ a % d := Int.emod_nonneg a (ne_of_gt hd)
  have hlt : a % d < d := Int.emod_lt_of_pos a hd
  symm
  split
  · next hmod =>
    rw [Int.ceil_eq_iff, lt_div_iff₀ hd', div_le_iff₀ hd']
    norm_cast
    constructor
    · rw [add_sub_cancel_right, mul_comm]
      omega
    · rw [add_mul, one_mul, mul_comm]
      omega
  · next hmod =>
    rw [Int.ceil_eq_iff, lt_div_iff₀ hd', div_le_iff₀ hd']
    norm_cast
    constructor
    · rw [sub_mul, one_mul, mul_comm]
      omega
    · rw [mul_comm]
      omega

end Theory
end DefiBackend
