import Mathlib.Algebra.BigOperators.Group.List.Basic
import Mathlib.Algebra.Order.Ring.Int
import Mathlib.Tactic.Ring
import Mathlib.Tactic.Linarith

/-! # Subtraction of wrapping accumulators

Accumulators that are only defined modulo `m` and are stored as their residue in `[0, m)`.

* `wrapSub m a b`: subtraction that adds `m` back when it borrows; on residues it is
  subtraction modulo `m` (`wrapSub_eq_emod`), also when iterated (`foldl_wrapSub_eq_emod`);
* `natAbs_tdiv_eq_emod_div_iff`: when the wrapped difference of two residues is replaced by the
  absolute value of the plain difference, a truncated share of it stays right exactly when the
  difference does not borrow, the factor is zero, or the difference is half of `m`. -/

namespace DefiBackend
namespace Theory

/-- A residue modulo `m`. -/
def InRange (m a : ℤ) : Prop := 0 ≤ a ∧ a < m

instance : Decidable (InRange m a) := inferInstanceAs (Decidable (_ ∧ _))

theorem InRange.emod (hm : 0 < m) : InRange m (a % m) :=
  ⟨Int.emod_nonneg _ hm.ne', Int.emod_lt_of_pos _ hm⟩

theorem InRange.emod_eq (h : InRange m a) : a % m = a := Int.emod_eq_of_lt h.1 h.2

/-- The difference of two residues, with `m` added back when it borrows. -/
def wrapSub (m a b : ℤ) : ℤ := if a - b < 0 then m + (a - b) else a - b

theorem InRange.wrapSub (ha : InRange m a) (hb : InRange m b) : InRange m (wrapSub m a b) := by
  obtain ⟨ha0, ham⟩ := ha
  obtain ⟨hb0, hbm⟩ := hb
  unfold Theory.wrapSub
  split
  · exact ⟨by linarith, by linarith⟩
  · exact ⟨by linarith, by linarith⟩

/-- On residues, wrapping subtraction is subtraction modulo `m`. -/
theorem wrapSub_eq_emod (ha : InRange m a) (hb : InRange m b) : wrapSub m a b = (a - b) % m := by
  have h := ha.wrapSub hb
  rw [← h.emod_eq]
  unfold wrapSub
  split
  · rw [Int.add_emod_left]
  · rfl

/-- Iterated wrapping subtraction subtracts the sum modulo `m`. -/
theorem foldl_wrapSub_eq_emod {bs : List ℤ} (ha : InRange m a) (hbs : ∀ b ∈ bs, InRange m b) :
    bs.foldl (wrapSub m) a = (a - bs.sum) % m := by
  induction bs generalizing a with
  | nil => simp [ha.emod_eq]
  | cons b bs ih =>
    have hb := hbs b (List.mem_cons_self ..)
    rw [List.foldl_cons, ih (ha.wrapSub hb) fun c hc => hbs c (List.mem_cons_of_mem _ hc),
      wrapSub_eq_emod ha hb, List.sum_cons, ← sub_sub, Int.emod_sub_emod]

/-- A share of a complement: `(m - d) * L / q` is the whole share minus the share of `d`
rounded up. -/
theorem share_compl (hq : 0 < q) (d L k : ℤ) :
    (q * k - d) * L / q = k * L + -(d * L) / q := by
  have h : (q * k - d) * L = -(d * L) + q * (k * L) := by ring
  rw [h, Int.add_mul_ediv_left _ _ hq.ne']
  ring

/-- Rounding the share of `d` down and its complement up agree only at half of the range. -/
theorem share_eq_share_compl_iff (hq : 0 < q) (hk : 2 ∣ k) (d L : ℤ) :
    d * L / q = (q * k - d) * L / q ↔ L = 0 ∨ 2 * d = q * k := by
  rw [share_compl hq]
  obtain ⟨j, rfl⟩ := hk
  constructor
  · intro h
    have hdvd : q ∣ d * L := by
      by_contra hnd
      have hneg : -(d * L) / q = -(d * L / q) - 1 := by
        rw [Int.neg_ediv, if_neg hnd, Int.sign_eq_one_of_pos hq]
      -- an odd number would be the even number `2 * j * L`
      have hodd : 2 * (d * L / q) + 1 = 2 * (j * L) := by linarith
      omega
    have hneg : -(d * L) / q = -(d * L / q) := Int.neg_ediv_of_dvd hdvd
    have hmul : d * L = q * (d * L / q) := (Int.mul_ediv_cancel' hdvd).symm
    have hsum : 2 * (d * L / q) = 2 * j * L := by linarith
    have hprod : L * (2 * d - q * (2 * j)) = 0 := by
      calc L * (2 * d - q * (2 * j)) = 2 * (d * L) - q * (2 * j * L) := by ring
        _ = 2 * (q * (d * L / q)) - q * (2 * (d * L / q)) := by rw [← hmul, ← hsum]
        _ = 0 := by ring
    rcases mul_eq_zero.mp hprod with h0 | h0
    · exact .inl h0
    · exact .inr (by linarith)
  · rintro (rfl | h)
    · simp
    · have hd : d = q * j := by linarith
      subst hd
      have e : q * j * L = q * (j * L) := by ring
      rw [e, Int.neg_ediv_of_dvd (Dvd.intro _ rfl), Int.mul_ediv_cancel_left _ hq.ne']
      ring

/-- The absolute value of a truncated share of the plain difference of two residues is the share
of their wrapped difference exactly when the difference does not borrow, the factor is zero or
the difference is half of the range. -/
theorem natAbs_tdiv_eq_emod_div_iff (hq : 0 < q) (hk : 2 ∣ k) (ha : InRange (q * k) a)
    (hb : InRange (q * k) b) (hL : 0 ≤ L) :
    ((((a - b) * L).tdiv q).natAbs : ℤ) = (a - b) % (q * k) * L / q ↔
      b ≤ a ∨ L = 0 ∨ 2 * (b - a) = q * k := by
  obtain ⟨ha0, ham⟩ := ha
  obtain ⟨hb0, hbm⟩ := hb
  by_cases hle : b ≤ a
  · have hnn : 0 ≤ (a - b) * L := mul_nonneg (by linarith) hL
    have hmod : (a - b) % (q * k) = a - b := Int.emod_eq_of_lt (by linarith) (by linarith)
    rw [hmod, Int.tdiv_eq_ediv_of_nonneg hnn, Int.natAbs_of_nonneg (Int.ediv_nonneg hnn hq.le)]
    exact ⟨fun _ => .inl hle, fun _ => rfl⟩
  · have hlt : a < b := not_le.mp hle
    have hnn : 0 ≤ (b - a) * L := mul_nonneg (by linarith) hL
    have hneg : (a - b) * L = -((b - a) * L) := by ring
    have hmod : (a - b) % (q * k) = q * k - (b - a) := by
      rw [← Int.add_emod_right, Int.emod_eq_of_lt (by linarith) (by linarith)]
      ring
    rw [hneg, Int.neg_tdiv, Int.natAbs_neg, Int.tdiv_eq_ediv_of_nonneg hnn,
      Int.natAbs_of_nonneg (Int.ediv_nonneg hnn hq.le), hmod, share_eq_share_compl_iff hq hk]
    exact ⟨.inr, fun h => h.resolve_left hle⟩

end Theory
end DefiBackend
