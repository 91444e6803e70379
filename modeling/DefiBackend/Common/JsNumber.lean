import Mathlib.Data.List.Induction
import Mathlib.Data.List.Perm.Basic
import Mathlib.Data.Rat.Defs
import Mathlib.Algebra.Order.Group.Unbundled.Abs
import Mathlib.Algebra.Order.Ring.Rat
import Mathlib.Data.Rat.Floor
import Mathlib.Tactic.Ring

/-! # Numbers

The arithmetic of the number type, over exact values: no rounding, one zero. -/

namespace DefiBackend

inductive JsNumber
  | finite (q : ℚ)
  | infinity (negative : Bool)
  | nan
  deriving DecidableEq

namespace JsNumber

def add : JsNumber → JsNumber → JsNumber
  | finite a, finite b => finite (a + b)
  | finite _, infinity n | infinity n, finite _ => infinity n
  | infinity m, infinity n => if m = n then infinity m else nan
  | nan, _ | _, nan => nan

def neg : JsNumber → JsNumber
  | finite a => finite (-a)
  | infinity n => infinity !n
  | nan => nan

/-- The product of an infinity and a number that is less than zero or not. -/
def mulInfinity (n : Bool) (a : ℚ) : JsNumber :=
  if a = 0 then nan else infinity (n != decide (a < 0))

def mul : JsNumber → JsNumber → JsNumber
  | finite a, finite b => finite (a * b)
  | finite a, infinity n | infinity n, finite a => mulInfinity n a
  | infinity m, infinity n => infinity (m != n)
  | nan, _ | _, nan => nan

def div : JsNumber → JsNumber → JsNumber
  | finite a, finite b =>
    if b = 0 then if a = 0 then nan else infinity (decide (a < 0)) else finite (a / b)
  | finite _, infinity _ => finite 0
  | infinity n, finite b => infinity (n != decide (b < 0))
  | infinity _, infinity _ => nan
  | nan, _ | _, nan => nan

instance : Add JsNumber := ⟨add⟩
instance : Neg JsNumber := ⟨neg⟩
instance : Sub JsNumber := ⟨fun a b => a + -b⟩
instance : Mul JsNumber := ⟨mul⟩
instance : Div JsNumber := ⟨div⟩
instance : OfNat JsNumber n := ⟨finite n⟩

/-- `a < b`, false beside a number that is none. -/
def lt : JsNumber → JsNumber → Bool
  | finite a, finite b => a < b
  | infinity m, infinity n => m && !n
  | infinity n, finite _ => n
  | finite _, infinity n => !n
  | nan, _ | _, nan => false

/-- `a <= b`, false beside a number that is none. -/
def le : JsNumber → JsNumber → Bool
  | nan, _ | _, nan => false
  | a, b => !lt b a

/-- `Math.abs`. -/
def abs : JsNumber → JsNumber
  | finite a => finite |a|
  | infinity _ => infinity false
  | nan => nan

/-- `Math.floor`. -/
def floor : JsNumber → JsNumber
  | finite a => finite ⌊a⌋
  | infinity n => infinity n
  | nan => nan

/-- Whether a number counts as false. -/
def falsy (a : JsNumber) : Bool := a = nan ∨ a = finite 0

/-- `a || 0`. -/
def orZero (a : JsNumber) : JsNumber := if a.falsy then finite 0 else a

theorem finite_sub (q r : ℚ) : finite q - finite r = finite (q - r) :=
  congrArg finite (sub_eq_add_neg q r).symm

theorem finite_div (q : ℚ) (h : r ≠ 0) : finite q / finite r = finite (q / r) := if_neg h

theorem not_le_nan (a : JsNumber) : a.le nan = false := by cases a <;> rfl

protected theorem mul_one (a : JsNumber) : a * 1 = a := by
  change a.mul (finite 1) = a
  cases a with
  | finite q => exact congrArg finite (Rat.mul_one q)
  | infinity n => cases n <;> rfl
  | nan => rfl

protected theorem mul_comm (a b : JsNumber) : a * b = b * a := by
  change a.mul b = b.mul a
  cases a with
  | finite p =>
    cases b with
    | finite q => exact congrArg finite (Rat.mul_comm p q)
    | infinity n => rfl
    | nan => rfl
  | infinity m =>
    cases b with
    | finite q => rfl
    | infinity n => exact congrArg infinity (Bool.xor_comm m n)
    | nan => rfl
  | nan => cases b <;> rfl

theorem mul_finite (a : JsNumber) (q : ℚ) : a * finite q = finite q * a :=
  JsNumber.mul_comm a (finite q)

protected theorem zero_add (a : JsNumber) : finite 0 + a = a := by
  cases a with
  | finite q => exact congrArg finite (Rat.zero_add q)
  | infinity n => rfl
  | nan => rfl

protected theorem add_zero (a : JsNumber) : a + finite 0 = a := by
  cases a with
  | finite q => exact congrArg finite (Rat.add_zero q)
  | infinity n => rfl
  | nan => rfl

protected theorem add_assoc (a b c : JsNumber) : a + b + c = a + (b + c) := by
  change (a.add b).add c = a.add (b.add c)
  cases a <;> cases b <;> cases c <;> simp only [add]
  · exact congrArg finite (Rat.add_assoc ..)
  all_goals grind [add]

/-- What is added comes in any order. -/
protected theorem add_right_comm (a b c : JsNumber) : a + b + c = a + c + b := by
  change (a.add b).add c = (a.add c).add b
  cases a <;> cases b <;> cases c <;> simp only [add]
  · exact congrArg finite (add_right_comm ..)
  all_goals grind [add]

theorem falsy_iff {a : JsNumber} : a.falsy ↔ a = nan ∨ a = finite 0 := by simp [falsy]

theorem falsy_finite {q : ℚ} : (finite q).falsy ↔ q = 0 := by simp [falsy]

/-- Nothing times a number is nothing, or no number. -/
theorem falsy_zero_mul {a : JsNumber} : (finite 0 * a).falsy := by
  change ((finite 0).mul a).falsy
  cases a with
  | finite q => exact falsy_finite.mpr (zero_mul q)
  | infinity n => rfl
  | nan => rfl

/-- The sum of some numbers. -/
def total (l : List JsNumber) : JsNumber := l.foldl (· + ·) 0

theorem total_concat (l : List JsNumber) (a : JsNumber) : total (l ++ [a]) = total l + a := by
  rw [total, List.foldl_append]
  rfl

theorem total_perm {l l' : List JsNumber} (h : l.Perm l') : total l = total l' :=
  haveI : RightCommutative ((· + ·) : JsNumber → JsNumber → JsNumber) := ⟨JsNumber.add_right_comm⟩
  h.foldl_eq 0

theorem total_append (l l' : List JsNumber) : total (l ++ l') = total l + total l' := by
  induction l' using List.reverseRecOn with
  | nil =>
    rw [List.append_nil]
    exact (JsNumber.add_zero _).symm
  | append_singleton l' a ih =>
    rw [← List.append_assoc, total_concat, total_concat, ih, JsNumber.add_assoc]

theorem total_cons (a : JsNumber) (l : List JsNumber) : total (a :: l) = a + total l := by
  rw [← List.singleton_append, total_append]
  exact congrArg (· + total l) (JsNumber.zero_add a)

@[simp] theorem nan_add (a : JsNumber) : nan + a = nan := by cases a <;> rfl

@[simp] theorem add_nan (a : JsNumber) : a + nan = nan := by cases a <;> rfl

@[simp] theorem nan_mul (a : JsNumber) : nan * a = nan := by cases a <;> rfl

@[simp] theorem mul_nan (a : JsNumber) : a * nan = nan := by cases a <;> rfl

@[simp] theorem nan_div (a : JsNumber) : nan / a = nan := by cases a <;> rfl

@[simp] theorem div_nan (a : JsNumber) : a / nan = nan := by cases a <;> rfl

theorem zero_div (a : JsNumber) : 0 / a = nan ∨ 0 / a = finite 0 := by
  change (finite 0).div a = nan ∨ (finite 0).div a = finite 0
  cases a with
  | finite q =>
    rw [div]
    split
    · exact .inl rfl
    · exact .inr (congrArg finite (by simp))
  | infinity n => exact .inr rfl
  | nan => exact .inl rfl

theorem div_zero (a : JsNumber) : a / 0 = nan ∨ ∃ n, a / 0 = infinity n := by
  change a.div (finite 0) = nan ∨ ∃ n, a.div (finite 0) = infinity n
  cases a with
  | finite q =>
    rw [div, if_pos rfl]
    split
    · exact .inl rfl
    · exact .inr ⟨_, rfl⟩
  | infinity n => exact .inr ⟨_, rfl⟩
  | nan => exact .inl rfl

/-- Nothing over something, times something over nothing. -/
theorem zero_div_mul_div_zero (a b : JsNumber) : 0 / a * (b / 0) = nan := by
  rcases div_zero b with h | ⟨n, h⟩
  · rw [h, mul_nan]
  · rcases zero_div a with h' | h'
    · rw [h', nan_mul]
    · rw [h, h']
      change mulInfinity n 0 = nan
      exact if_pos rfl

/-- With something that is no number, a total is none. -/
theorem total_nan {l : List JsNumber} (h : nan ∈ l) : total l = nan := by
  induction l with
  | nil => cases h
  | cons a l ih =>
    rw [total_cons]
    rcases List.mem_cons.mp h with rfl | h
    · exact nan_add _
    · rw [ih h, add_nan]

/-- The value of a number that is finite. -/
def toRat : JsNumber → ℚ
  | finite q => q
  | _ => 0

theorem total_finite {f : α → JsNumber} {g : α → ℚ} {l : List α}
    (h : ∀ a ∈ l, f a = finite (g a)) : total (l.map f) = finite (l.map g).sum := by
  induction l with
  | nil => rfl
  | cons a l ih =>
    obtain ⟨ha, hl⟩ := List.forall_mem_cons.mp h
    rw [List.map_cons, total_cons, ha, ih hl]
    rfl

theorem finite_le {q r : ℚ} : (finite q).le (finite r) ↔ q ≤ r := by
  simp [le, lt]

/-- The sums over groups add up to the sum over all of them. -/
theorem total_groups [DecidableEq κ] {cs : List κ} (hcs : cs.Nodup) (group : α → κ)
    (value : α → JsNumber) (l : List α) :
    total (cs.map fun c => total ((l.filter (group · = c)).map value)) =
      total ((l.filter (group · ∈ cs)).map value) := by
  induction cs with
  | nil => simp
  | cons c cs ih =>
    obtain ⟨hnew, hcs⟩ := List.nodup_cons.mp hcs
    have hperm := List.filter_append_perm (group · = c) (l.filter (group · ∈ c :: cs))
    have hfirst : (l.filter (group · ∈ c :: cs)).filter (group · = c) =
        l.filter (group · = c) := by
      rw [List.filter_filter]
      apply List.filter_congr
      intro a _
      by_cases h : group a = c <;> simp [h]
    have hothers : (l.filter (group · ∈ c :: cs)).filter (fun a => !decide (group a = c)) =
        l.filter (group · ∈ cs) := by
      rw [List.filter_filter]
      apply List.filter_congr
      intro a _
      by_cases h : group a = c
      · simp [h, hnew]
      · simp [h]
    rw [hfirst, hothers] at hperm
    rw [List.map_cons, total_cons, ih hcs, ← total_append, ← List.map_append]
    exact total_perm (hperm.map _)

/-- Several copies of some numbers sum up to zero if one copy does. -/
theorem total_copies_eq_zero {k : Nat} (hk : 0 < k) (l : List JsNumber) :
    total (List.replicate k l).flatten = 0 ↔ total l = 0 := by
  have hcopies : ∀ n, total (List.replicate (n + 1) l).flatten =
      match total l with
      | finite q => finite ((n + 1 : Nat) * q)
      | a => a := by
    intro n
    induction n with
    | zero =>
      rw [List.replicate_one, List.flatten_singleton]
      cases total l with
      | finite q => exact congrArg finite (by simp)
      | infinity n => rfl
      | nan => rfl
    | succ n ih =>
      rw [List.replicate_succ, List.flatten_cons, total_append, ih]
      cases total l with
      | finite q => exact congrArg finite (by push_cast; ring)
      | infinity m => cases m <;> rfl
      | nan => rfl
  obtain ⟨n, rfl⟩ := Nat.exists_eq_add_of_lt hk
  rw [Nat.zero_add, hcopies]
  cases total l with
  | finite q =>
    have hn : ((n + 1 : Nat) : ℚ) ≠ 0 := Nat.cast_ne_zero.mpr (Nat.succ_ne_zero n)
    refine ⟨fun h => ?_, fun h => ?_⟩
    · exact congrArg finite ((mul_eq_zero.mp (JsNumber.finite.inj h)).resolve_left hn)
    · rw [JsNumber.finite.inj h]
      exact congrArg finite (by simp)
  | infinity n => exact iff_of_false (by simp [OfNat.ofNat]) (by simp [OfNat.ofNat])
  | nan => exact iff_of_false (by simp [OfNat.ofNat]) (by simp [OfNat.ofNat])

end JsNumber
end DefiBackend
