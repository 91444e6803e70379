import Mathlib.Order.Basic

/-! # Functions with fuel

A function that may not return is given fuel, which each call uses up. It answers when enough fuel
always gives the same result.

* `Answers.unique`: there is one answer;
* `Answers.succ`, `Answers.bind`: the rules for a call and for what is done with its answer. -/

namespace DefiBackend
namespace Theory

variable {α : Type u} {β : Type v}

/-- With enough fuel the result is `a`. -/
def Answers (f : Nat → Option α) (a : α) : Prop := ∃ n, ∀ fuel, n ≤ fuel → f fuel = some a

namespace Answers
variable {f g : Nat → Option α} {a b : α}

theorem unique (h : Answers f a) (h' : Answers f b) : a = b := by
  obtain ⟨m, hm⟩ := h
  obtain ⟨n, hn⟩ := h'
  have hm := hm (max m n) (Nat.le_max_left ..)
  have hn := hn (max m n) (Nat.le_max_right ..)
  exact Option.some.inj (hm.symm.trans hn)

theorem pure (a : α) : Answers (fun _ => some a) a := ⟨0, fun _ _ => rfl⟩

/-- A call uses fuel. -/
theorem succ (hstep : ∀ fuel, f (fuel + 1) = g fuel) (h : Answers g a) : Answers f a := by
  obtain ⟨n, hn⟩ := h
  refine ⟨n + 1, ?_⟩
  intro fuel hfuel
  obtain ⟨fuel, rfl⟩ := Nat.exists_eq_add_of_le' hfuel
  rw [← Nat.add_assoc, hstep]
  exact hn (fuel + n) (Nat.le_add_left ..)

theorem bind {k : β → Nat → Option α} {g : Nat → Option β} {b : β} (h : Answers g b)
    (hk : Answers (k b) a) : Answers (fun fuel => (g fuel).bind fun b => k b fuel) a := by
  obtain ⟨m, hm⟩ := h
  obtain ⟨n, hn⟩ := hk
  refine ⟨max m n, ?_⟩
  intro fuel hfuel
  change (g fuel).bind _ = _
  rw [hm fuel (Nat.le_trans (Nat.le_max_left ..) hfuel)]
  exact hn fuel (Nat.le_trans (Nat.le_max_right ..) hfuel)

end Answers

end Theory
end DefiBackend
