import Mathlib.Data.Fintype.Pigeonhole
import Mathlib.Data.Set.Finite.Basic

/-! # Following pointers

`next` is where an element points to, if it points anywhere.

* `follow next n a`: where one is after `n` pointers from `a`;
* `Finishes next a`: the way from `a` comes to an element that points nowhere;
* `Returns next a`: the way from `a` comes to an element a second time;
* `finishes_iff_not_returns`: with finitely many pointers these are opposites. -/

namespace DefiBackend
namespace Theory

variable {α : Type u}

/-- Undefined when there are not so many pointers to follow. -/
def follow (next : α → Option α) : Nat → α → Option α
  | 0, a => some a
  | n + 1, a => (next a).bind (follow next n)

section
variable {next : α → Option α} {a b : α}

@[simp] theorem follow_zero : follow next 0 a = some a := rfl

theorem follow_succ (h : next a = some b) : follow next (n + 1) a = follow next n b := by
  rw [follow, h, Option.bind_some]

theorem follow_succ_of_none (h : next a = none) : follow next (n + 1) a = none := by
  rw [follow, h, Option.bind_none]

theorem follow_add : follow next (m + n) a = (follow next m a).bind (follow next n) := by
  induction m generalizing a with
  | zero => rw [Nat.zero_add, follow_zero, Option.bind_some]
  | succ m ih =>
    rw [Nat.succ_add, follow, follow]
    cases next a with
    | none => rfl
    | some b => exact ih

/-- An element that has been left points somewhere. -/
theorem isSome_of_follow_succ (hb : follow next m a = some b) (h : follow next (m + 1) a ≠ none) :
    (next b).isSome := by
  rw [follow_add, hb, Option.bind_some] at h
  cases hnext : next b with
  | none => exact absurd (follow_succ_of_none hnext) h
  | some c => rfl

/-- The element at which the way ends. -/
def EndsAt (next : α → Option α) (a b : α) : Prop := (∃ n, follow next n a = some b) ∧ next b = none

def Finishes (next : α → Option α) (a : α) : Prop := ∃ n, follow next n a = none

def Returns (next : α → Option α) (a : α) : Prop :=
  ∃ m n b, m < n ∧ follow next m a = some b ∧ follow next n a = some b

theorem EndsAt.of_none (h : next a = none) : EndsAt next a a := ⟨⟨0, rfl⟩, h⟩

theorem EndsAt.cons (h : next a = some b) (hc : EndsAt next b c) : EndsAt next a c :=
  ⟨hc.1.imp' Nat.succ fun _ hn => (follow_succ h).trans hn, hc.2⟩

/-- The way from an element that has been come to a second time goes round for ever. -/
theorem follow_add_mul (h : follow next k b = some b) (n : Nat) :
    follow next (n * k) b = some b := by
  induction n with
  | zero => rw [Nat.zero_mul, follow_zero]
  | succ n ih => rw [Nat.succ_mul, follow_add, ih, Option.bind_some, h]

/-- A way that has ended is not taken up again. -/
theorem follow_eq_none_of_le (h : follow next m a = none) (hle : m ≤ n) :
    follow next n a = none := by
  obtain ⟨k, rfl⟩ := Nat.exists_eq_add_of_le hle
  rw [follow_add, h, Option.bind_none]

/-- A way has one end. -/
theorem EndsAt.unique (h : EndsAt next a b) (h' : EndsAt next a c) : b = c := by
  obtain ⟨⟨m, hm⟩, hb⟩ := h
  obtain ⟨⟨n, hn⟩, hc⟩ := h'
  have hm' : follow next (m + 1) a = none := by
    rw [follow_add, hm, Option.bind_some, follow_succ_of_none hb]
  have hn' : follow next (n + 1) a = none := by
    rw [follow_add, hn, Option.bind_some, follow_succ_of_none hc]
  rcases Nat.lt_trichotomy m n with hlt | rfl | hlt
  · rw [follow_eq_none_of_le hm' hlt] at hn
    cases hn
  · exact Option.some.inj (hm.symm.trans hn)
  · rw [follow_eq_none_of_le hn' hlt] at hm
    cases hm

theorem not_finishes_of_returns (h : Returns next a) : ¬ Finishes next a := by
  obtain ⟨m, n, b, hlt, hm, hn⟩ := h
  obtain ⟨k, rfl⟩ := Nat.exists_eq_add_of_lt hlt
  rw [Nat.add_assoc, follow_add, hm, Option.bind_some] at hn
  rintro ⟨N, hN⟩
  have hround : follow next (m + N * (k + 1)) a = some b := by
    rw [follow_add, hm, Option.bind_some, follow_add_mul hn]
  have hle : N ≤ m + N * (k + 1) :=
    (Nat.le_mul_of_pos_right N k.succ_pos).trans (Nat.le_add_left ..)
  rw [follow_eq_none_of_le hN hle] at hround
  cases hround

/-- Where only finitely many elements point anywhere, a way ends exactly if it never comes to an
element a second time. -/
theorem finishes_iff_not_returns (hfinite : {b | (next b).isSome}.Finite) :
    Finishes next a ↔ ¬ Returns next a := by
  refine ⟨fun h hreturns => not_finishes_of_returns hreturns h, fun h => by_contra fun hends => ?_⟩
  have hway : ∀ n, ∃ b, follow next n a = some b := fun n =>
    Option.ne_none_iff_exists'.mp fun hn => hends ⟨n, hn⟩
  choose way hway using hway
  have hmem : ∀ n, (next (way n)).isSome := fun n =>
    isSome_of_follow_succ (hway n) fun hn => hends ⟨n + 1, hn⟩
  have := hfinite.to_subtype
  obtain ⟨m, n, hne, heq⟩ := Finite.exists_ne_map_eq_of_infinite
    fun n => (⟨way n, hmem n⟩ : {b | (next b).isSome})
  have heq := Subtype.ext_iff.mp heq
  rcases Nat.lt_or_gt_of_ne hne with hlt | hlt
  · exact h ⟨m, n, way m, hlt, hway m, (hway n).trans (congrArg some heq.symm)⟩
  · exact h ⟨n, m, way n, hlt, hway n, (hway m).trans (congrArg some heq)⟩

end

end Theory
end DefiBackend
