import Mathlib.Data.List.Forall2

/-! # Corresponding lists

Lists whose elements correspond one by one: by all relations of a family (`forall₂_forall`), and
through a list that stands between them (`forall₂_through`). Where not every element has a result,
`Collects` has those that there are. -/

namespace DefiBackend
namespace Theory

theorem forall₂_forall {R : Nat → α → β → Prop} {l : List α} {l' : List β} :
    (∀ n, List.Forall₂ (R n) l l') ↔ List.Forall₂ (fun a b => ∀ n, R n a b) l l' := by
  constructor
  · intro h
    induction l generalizing l' with
    | nil =>
      cases h 0
      exact .nil
    | cons a l ih =>
      cases l' with
      | nil => cases h 0
      | cons b l' =>
        refine .cons (fun n => ?_) (ih fun n => ?_)
        · exact (List.forall₂_cons.mp (h n)).1
        · exact (List.forall₂_cons.mp (h n)).2
  · intro h n
    exact h.imp fun _ _ h => h n

/-- Lists that correspond through a list between them. -/
theorem forall₂_through {P : α → β → Prop} {Q : β → γ → Prop} {l : List α} {l'' : List γ} :
    (∃ l', List.Forall₂ P l l' ∧ List.Forall₂ Q l' l'') ↔
      List.Forall₂ (fun a c => ∃ b, P a b ∧ Q b c) l l'' := by
  constructor
  · rintro ⟨l', hP, hQ⟩
    induction hP generalizing l'' with
    | nil =>
      cases hQ
      exact .nil
    | cons hab _ ih =>
      cases hQ with
      | cons hbc hQ => exact .cons ⟨_, hab, hbc⟩ (ih hQ)
  · intro h
    induction h with
    | nil => exact ⟨[], .nil, .nil⟩
    | cons h _ ih =>
      obtain ⟨b, hP, hQ⟩ := h
      obtain ⟨l', hPs, hQs⟩ := ih
      exact ⟨b :: l', .cons hP hPs, .cons hQ hQs⟩

theorem forall₂_mem_right {R : α → β → Prop} {l : List α} {l' : List β}
    (h : List.Forall₂ R l l') : List.Forall₂ (fun a b => b ∈ l' ∧ R a b) l l' := by
  induction h with
  | nil => exact .nil
  | cons hab _ ih =>
    refine .cons ⟨List.mem_cons_self .., hab⟩ (ih.imp fun a b h => ?_)
    exact ⟨List.mem_cons_of_mem _ h.1, h.2⟩

/-- Every element on the left corresponds to one on the right. -/
theorem exists_of_mem_left {R : α → β → Prop} {l : List α} {l' : List β} {a : α}
    (h : List.Forall₂ R l l') (ha : a ∈ l) : ∃ b ∈ l', R a b := by
  induction h with
  | nil => cases ha
  | cons hab _ ih =>
    rcases List.mem_cons.mp ha with rfl | ha
    · exact ⟨_, List.mem_cons_self .., hab⟩
    · obtain ⟨b, hb, hR⟩ := ih ha
      exact ⟨b, List.mem_cons_of_mem _ hb, hR⟩

/-- Every element on the right corresponds to one on the left. -/
theorem exists_of_mem_right {R : α → β → Prop} {l : List α} {l' : List β} {b : β}
    (h : List.Forall₂ R l l') (hb : b ∈ l') : ∃ a ∈ l, R a b := by
  induction h with
  | nil => cases hb
  | cons hab _ ih =>
    rcases List.mem_cons.mp hb with rfl | hb
    · exact ⟨_, List.mem_cons_self .., hab⟩
    · obtain ⟨a, ha, hR⟩ := ih hb
      exact ⟨a, List.mem_cons_of_mem _ ha, hR⟩

/-- The results of the elements that have one, in their order. -/
inductive Collects (R : α → β → Prop) : List α → List β → Prop
  | nil : Collects R [] []
  | none (a : α) (l : List α) (bs : List β) : (∀ b, ¬ R a b) → Collects R l bs →
    Collects R (a :: l) bs
  | some (a : α) (b : β) (l : List α) (bs : List β) : R a b → Collects R l bs →
    Collects R (a :: l) (b :: bs)

theorem collects_filterMap {R : α → β → Prop} {f : α → Option β} (l : List α)
    (h : ∀ a b, f a = some b ↔ R a b) : Collects R l (l.filterMap f) := by
  induction l with
  | nil => exact .nil
  | cons a l ih =>
    rw [List.filterMap_cons]
    cases ha : f a with
    | none =>
      refine .none a l _ (fun b hb => ?_) ih
      cases ha.symm.trans ((h a b).mpr hb)
    | some b => exact .some a b l _ ((h a b).mp ha) ih

/-- Results that a running counter finds for the requests they belong to. -/
theorem foldl_counter (step : σ → α → Option β → σ) {f : α → β} {l : List α}
    {results rest : List β} {n : Nat} (h : results.drop n = l.map f ++ rest) (s : σ) :
    l.foldl (fun (st : σ × Nat) a => (step st.1 a results[st.2]?, st.2 + 1)) (s, n) =
      (l.foldl (fun s a => step s a (some (f a))) s, n + l.length) := by
  induction l generalizing s n with
  | nil => rfl
  | cons a l ih =>
    have hhead : results[n]? = some (f a) := by
      rw [← List.head?_drop, h]
      rfl
    have htail : results.drop (n + 1) = l.map f ++ rest := by
      rw [← List.tail_drop, h]
      rfl
    rw [List.foldl_cons, List.foldl_cons, hhead, ih htail]
    congr 1
    rw [List.length_cons]
    omega

end Theory
end DefiBackend
