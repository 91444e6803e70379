import DefiBackend.Common.JsNumber
import Mathlib.Data.Rat.Lemmas
import Mathlib.Tactic.NormNum

/-! # Bitwise operators on numbers

A bitwise operator reads its operands as signed integers of 32 bits: it drops what stands after the
point and counts modulo `2 ^ 32`. Where one operand counts as false, `a | b` is the other one
exactly if that is such an integer already (`bitOr_left_iff`, `bitOr_right_iff`). -/

namespace DefiBackend
namespace JsNumber

/-- The integer part, towards zero. -/
def truncate (q : ℚ) : ℤ := q.num.tdiv q.den

/-- The operand of a bitwise operator. -/
def toInt32 : JsNumber → BitVec 32
  | finite q => BitVec.ofInt 32 (truncate q)
  | infinity _ | nan => 0#32

/-- The number that a bitwise operator gives back. -/
def ofInt32 (x : BitVec 32) : JsNumber := finite x.toInt

/-- `a | b`. -/
def bitOr (a b : JsNumber) : JsNumber := ofInt32 (a.toInt32 ||| b.toInt32)

/-- The numbers that the bitwise operators keep. -/
def IsInt32 (q : ℚ) : Prop := q.den = 1 ∧ -2 ^ 31 ≤ q ∧ q < 2 ^ 31

instance : DecidablePred IsInt32 := fun q =>
  inferInstanceAs (Decidable (q.den = 1 ∧ -2 ^ 31 ≤ q ∧ q < 2 ^ 31))

theorem truncate_of_den (h : q.den = 1) : truncate q = q.num := by
  rw [truncate, h, Nat.cast_one, Int.tdiv_one]

theorem toInt_toInt32_finite (q : ℚ) : (finite q).toInt32.toInt = (truncate q).bmod (2 ^ 32) :=
  BitVec.toInt_ofInt _

theorem toInt32_of_falsy {a : JsNumber} (h : a.falsy) : a.toInt32 = 0#32 := by
  rcases falsy_iff.mp h with rfl | rfl
  · rfl
  · rfl

/-- A number goes through the operators as it is exactly when it is an integer in their range. -/
theorem ofInt32_toInt32_iff {q : ℚ} : ofInt32 (finite q).toInt32 = finite q ↔ IsInt32 q := by
  rw [ofInt32, finite.injEq, toInt_toInt32_finite]
  constructor
  · intro h
    have hlow := Int.le_bmod (x := truncate q) (m := 2 ^ 32) (by norm_num)
    have hhigh := Int.bmod_lt (x := truncate q) (m := 2 ^ 32) (by norm_num)
    rw [← h]
    refine ⟨Rat.den_intCast _, ?_, ?_⟩
    · exact_mod_cast hlow
    · exact_mod_cast hhigh
  · rintro ⟨hden, hlow, hhigh⟩
    have hq : (q.num : ℚ) = q := Rat.coe_int_num_of_den_eq_one hden
    rw [truncate_of_den hden, ← hq, Int.cast_inj, Rat.num_intCast]
    rw [← hq] at hlow hhigh
    refine (Int.bmod_eq_iff (by norm_num)).mpr ⟨?_, ?_, ?_⟩
    · exact_mod_cast hlow
    · exact_mod_cast hhigh
    · simp

theorem bitOr_left_iff {b : JsNumber} (h : b.falsy) :
    bitOr (finite q) b = finite q ↔ IsInt32 q := by
  rw [bitOr, toInt32_of_falsy h, BitVec.or_zero, ofInt32_toInt32_iff]

theorem bitOr_right_iff {a : JsNumber} (h : a.falsy) :
    bitOr a (finite q) = finite q ↔ IsInt32 q := by
  rw [bitOr, toInt32_of_falsy h, BitVec.zero_or, ofInt32_toInt32_iff]

end JsNumber
end DefiBackend
