import Mathlib.Data.List.Basic

/-! # Cache keys

Cache keys are built as text: a number, an underscore and the rest of the key. A number prints
without underscores, so such a key determines its parts. -/

namespace DefiBackend

/-- The text `${n}_${rest}`. -/
def keyField (n : Nat) (rest : String) : String := toString n ++ "_" ++ rest

theorem keyField_toList : (keyField n rest).toList = Nat.toDigits 10 n ++ '_' :: rest.toList := by
  simp [keyField, Nat.toList_repr]

/-- A text determines what stands before and after its first separator. -/
theorem append_sep_inj {a : α} {xs ys us vs : List α} (hx : a ∉ xs) (hy : a ∉ ys)
    (h : xs ++ a :: us = ys ++ a :: vs) : xs = ys ∧ us = vs := by
  induction xs generalizing ys with
  | nil =>
    cases ys with
    | nil => exact ⟨rfl, (List.cons.inj h).2⟩
    | cons y ys => exact absurd (List.cons.inj h).1 fun e => hy (by simp [← e])
  | cons x xs ih =>
    cases ys with
    | nil => exact absurd (List.cons.inj h).1 fun e => hx (by simp [e])
    | cons y ys =>
      obtain ⟨rfl, ht⟩ := List.cons.inj h
      obtain ⟨rfl, hu⟩ := ih (fun e => hx (List.mem_cons_of_mem _ e))
        (fun e => hy (List.mem_cons_of_mem _ e)) ht
      exact ⟨rfl, hu⟩

/-- A text determines what stands before and after its last separator. -/
theorem append_last_sep_inj {a : α} {xs ys us vs : List α} (hu : a ∉ us) (hv : a ∉ vs)
    (h : xs ++ a :: us = ys ++ a :: vs) : xs = ys ∧ us = vs := by
  have hreverse : us.reverse ++ a :: xs.reverse = vs.reverse ++ a :: ys.reverse := by
    simpa using congrArg List.reverse h
  obtain ⟨hus, hxs⟩ := append_sep_inj (fun hm => hu (List.mem_reverse.mp hm))
    (fun hm => hv (List.mem_reverse.mp hm)) hreverse
  exact ⟨List.reverse_injective hxs, List.reverse_injective hus⟩

theorem toDigits_inj (h : Nat.toDigits 10 m = Nat.toDigits 10 n) : m = n := by
  rw [← Nat.ofDigitChars_ten_toDigits (n := m), h, Nat.ofDigitChars_ten_toDigits]

/-- A key determines its number and its rest. -/
theorem keyField_inj : keyField m s = keyField n t ↔ m = n ∧ s = t := by
  constructor
  · intro h
    have h' := congrArg String.toList h
    rw [keyField_toList, keyField_toList] at h'
    obtain ⟨hd, hs⟩ :=
      append_sep_inj Nat.underscore_not_in_toDigits Nat.underscore_not_in_toDigits h'
    exact ⟨toDigits_inj hd, String.toList_inj.mp hs⟩
  · rintro ⟨rfl, rfl⟩
    rfl

/-- A key that starts with a number starts with a digit. -/
theorem keyField_head (n : Nat) (rest : String) :
    ∃ c cs, (keyField n rest).toList = c :: cs ∧ c.isDigit := by
  rw [keyField_toList]
  cases h : Nat.toDigits 10 n with
  | nil => exact absurd h Nat.toDigits_ne_nil
  | cons c cs =>
    exact ⟨c, _, rfl, Nat.isDigit_of_mem_toDigits (b := 10) (n := n) (by decide) (by decide)
      (by simp [h])⟩

end DefiBackend
