import Mathlib.Data.List.Nodup
import Mathlib.Data.List.Range
import Mathlib.Data.Int.Order.Basic

/-! # Removing by place

Numbers are removed from a queue of all numbers below a bound by their places in it, the greatest
first.

* `foldl_splice_eq_iff`: exactly these numbers are gone when none of them that is negative or stands
  twice has a remaining number above it. -/

namespace DefiBackend
namespace Theory

/-- Removes the element at a place, if there is one. A negative place counts from the end, and
stands for the first one where there are not so many. -/
def splice (l : List α) (start : Int) : List α :=
  l.eraseIdx (if start < 0 then l.length + start else start).toNat

theorem splice_natCast (l : List α) (k : Nat) : splice l k = l.eraseIdx k := by
  rw [splice, if_neg (Int.not_lt.mpr (Int.natCast_nonneg k)), Int.toNat_natCast]

theorem splice_sublist (l : List α) (start : Int) : (splice l start).Sublist l :=
  List.eraseIdx_sublist _ _

theorem foldl_splice_sublist (starts : List Int) (l : List α) :
    (starts.foldl splice l).Sublist l := by
  induction starts generalizing l with
  | nil => exact .refl l
  | cons start starts ih => exact (ih (splice l start)).trans (splice_sublist l start)

/-- Where there are elements, a negative place is one of theirs. -/
theorem splice_neg {l : List α} (hl : l ≠ []) (h : start < 0) :
    ∃ l₁ a l₂, l = l₁ ++ a :: l₂ ∧ splice l start = l₁ ++ l₂ := by
  have hpos := List.length_pos_iff.mpr hl
  have hlt : (l.length + start).toNat < l.length := by omega
  refine ⟨l.take (l.length + start).toNat, l[(l.length + start).toNat],
    l.drop ((l.length + start).toNat + 1), ?_, ?_⟩
  · rw [← List.drop_eq_getElem_cons hlt, List.take_append_drop]
  · rw [splice, if_pos h, List.eraseIdx_eq_take_drop_succ]

/-- The numbers below a bound that are not in a list. -/
def remaining (n : Nat) (gone : List Int) : List Nat :=
  (List.range n).filter fun k => (k : Int) ∉ gone

section
variable {n k : Nat} {gone : List Int}

theorem mem_remaining : k ∈ remaining n gone ↔ k < n ∧ (k : Int) ∉ gone := by
  simp [remaining]

theorem nodup_remaining : (remaining n gone).Nodup := List.nodup_range.filter _

theorem length_remaining_le : (remaining n gone).length ≤ n :=
  (List.length_filter_le _ _).trans (List.length_range ..).le

theorem remaining_append_singleton {id : Int} (h : ∀ k < n, (k : Int) = id → id ∈ gone) :
    remaining n (gone ++ [id]) = remaining n gone := by
  apply List.filter_congr
  intro k hk
  have hiff : (k : Int) ∈ gone ++ [id] ↔ (k : Int) ∈ gone := by
    rw [List.mem_append, List.mem_singleton, or_iff_left_iff_imp]
    exact fun hid => hid ▸ h k (List.mem_range.mp hk) hid
  simp only [hiff]

/-- The remaining numbers above one. -/
def remainingAbove (n k : Nat) (gone : List Int) : List Nat :=
  (List.range' (k + 1) (n - (k + 1))).filter fun k => (k : Int) ∉ gone

theorem mem_remainingAbove {j : Nat} :
    j ∈ remainingAbove n k gone ↔ k < j ∧ j < n ∧ (j : Int) ∉ gone := by
  rw [remainingAbove, List.mem_filter, List.mem_range'_1, decide_eq_true_iff]
  exact ⟨fun ⟨⟨hlt, hn⟩, hgone⟩ => ⟨hlt, by omega, hgone⟩,
    fun ⟨hlt, hn, hgone⟩ => ⟨⟨hlt, by omega⟩, hgone⟩⟩

/-- While only greater numbers are gone, the places below one are those of the numbers themselves.
-/
theorem remaining_eq_append (hk : k < n) (h : ∀ id ∈ gone, (k : Int) ≤ id) :
    remaining n gone =
      List.range k ++ ((if (k : Int) ∈ gone then [] else [k]) ++ remainingAbove n k gone) := by
  have hrange : List.range n = List.range k ++ (k :: List.range' (k + 1) (n - (k + 1))) := by
    have hn : k + (n - (k + 1) + 1) = n := by omega
    have happend := @List.range'_append_1 0 k (n - (k + 1) + 1)
    rw [Nat.zero_add, hn] at happend
    rw [← List.range'_succ, List.range_eq_range', List.range_eq_range', happend]
  have hbelow : (List.range k).filter (fun j : Nat => (j : Int) ∉ gone) = List.range k := by
    refine List.filter_eq_self.mpr fun j hj => decide_eq_true fun hmem => ?_
    have hle := h j hmem
    have hlt := List.mem_range.mp hj
    omega
  rw [remaining, hrange, List.filter_append, hbelow, List.filter_cons, remainingAbove]
  split <;> simp_all

/-- The place of a number that is not gone is its own. -/
theorem splice_remaining (hk : k < n) (h : ∀ id ∈ gone, (k : Int) ≤ id) (hgone : (k : Int) ∉ gone) :
    splice (remaining n gone) k = remaining n (gone ++ [(k : Int)]) := by
  have h' : ∀ id ∈ gone ++ [(k : Int)], (k : Int) ≤ id := by
    intro id hid
    rcases List.mem_append.mp hid with hid | hid
    · exact h id hid
    · exact (List.mem_singleton.mp hid).ge
  have habove : remainingAbove n k (gone ++ [(k : Int)]) = remainingAbove n k gone := by
    apply List.filter_congr
    intro j hj
    have hne : (j : Int) ≠ k := by
      have := (List.mem_range'_1.mp hj).1
      omega
    simp [hne]
  rw [splice_natCast, remaining_eq_append hk h, remaining_eq_append hk h', if_neg hgone,
    if_pos (by simp), habove, List.eraseIdx_append_of_length_le (by simp)]
  simp

/-- At the place of a number that is gone stands the next one above it. -/
theorem splice_remaining_gone (hk : k < n) (h : ∀ id ∈ gone, (k : Int) ≤ id)
    (hgone : (k : Int) ∈ gone) :
    splice (remaining n gone) k = List.range k ++ (remainingAbove n k gone).tail := by
  rw [splice_natCast, remaining_eq_append hk h, if_pos hgone, List.nil_append,
    List.eraseIdx_append_of_length_le (by simp)]
  simp

/-- A step that takes no number from above removes its own. -/
theorem splice_remaining_of_none_above {id : Int} (h : ∀ g ∈ gone, id ≤ g)
    (hnone : id < 0 ∨ id ∈ gone → ∀ k < n, id < k → (k : Int) ∈ gone) :
    splice (remaining n gone) id = remaining n (gone ++ [id]) := by
  rcases lt_or_ge id 0 with hneg | hpos
  · have hall : ∀ k < n, (k : Int) ∈ gone := fun k hk => hnone (.inl hneg) k hk (by omega)
    have hempty : remaining n gone = [] := List.eq_nil_iff_forall_not_mem.mpr fun k hk =>
      (mem_remaining.mp hk).2 (hall k (mem_remaining.mp hk).1)
    rw [remaining_append_singleton fun k hk hid => hid ▸ hall k hk, hempty]
    rfl
  · obtain ⟨k, rfl⟩ := Int.eq_ofNat_of_zero_le hpos
    by_cases hk : k < n
    · by_cases hgone : (k : Int) ∈ gone
      · have habove : remainingAbove n k gone = [] := by
          apply List.eq_nil_iff_forall_not_mem.mpr
          intro j hj
          obtain ⟨hlt, hn, hnot⟩ := mem_remainingAbove.mp hj
          exact hnot (hnone (.inr hgone) j hn (by omega))
        rw [splice_remaining_gone hk h hgone, remaining_append_singleton fun _ _ hj => hj ▸ hgone,
          remaining_eq_append hk h, if_pos hgone, habove]
        rfl
      · exact splice_remaining hk h hgone
    · rw [splice_natCast, List.eraseIdx_of_length_le (length_remaining_le.trans (by omega)),
        remaining_append_singleton fun j hj hjk => by omega]

/-- A step that takes a number from above. -/
theorem exists_lost {id : Int} (h : ∀ g ∈ gone, id ≤ g) (hid : id < 0 ∨ id ∈ gone)
    (hk : k < n) (hlt : id < k) (hgone : (k : Int) ∉ gone) :
    ∃ j ∈ remaining n gone, id < j ∧ j ∉ splice (remaining n gone) id := by
  have hmem : k ∈ remaining n gone := mem_remaining.mpr ⟨hk, hgone⟩
  have hnodup := @nodup_remaining n gone
  rcases lt_or_ge id 0 with hneg | hpos
  · obtain ⟨l₁, j, l₂, hl, hsplice⟩ := splice_neg (List.ne_nil_of_mem hmem) hneg
    refine ⟨j, by simp [hl], by omega, ?_⟩
    rw [hsplice]
    rw [hl, List.nodup_middle] at hnodup
    exact (List.nodup_cons.mp hnodup).1
  · obtain ⟨i, rfl⟩ := Int.eq_ofNat_of_zero_le hpos
    have hi : i < n := by omega
    have hin : (i : Int) ∈ gone := hid.resolve_left (by omega)
    have habove : k ∈ remainingAbove n i gone := mem_remainingAbove.mpr ⟨by omega, hk, hgone⟩
    rw [remaining_eq_append hi h, if_pos hin, List.nil_append] at hnodup
    cases hcons : remainingAbove n i gone with
    | nil => rw [hcons] at habove; cases habove
    | cons j rest =>
      have hj : j ∈ remainingAbove n i gone := by rw [hcons]; exact List.mem_cons_self ..
      obtain ⟨hij, hn, hnot⟩ := mem_remainingAbove.mp hj
      refine ⟨j, mem_remaining.mpr ⟨hn, hnot⟩, by omega, ?_⟩
      rw [splice_remaining_gone hi h hin, hcons, List.tail_cons]
      rw [hcons, List.nodup_middle] at hnodup
      exact (List.nodup_cons.mp hnodup).1

end

/-- Numbers are removed in descending order, and some are gone already: exactly they are gone in the
end when none that is negative or stands twice has a remaining number above it. -/
theorem foldl_splice_remaining_iff {n : Nat} {ids gone : List Int}
    (h : (gone ++ ids).Pairwise (· ≥ ·)) :
    ids.foldl splice (remaining n gone) = remaining n (gone ++ ids) ↔
      ∀ id ∈ ids, id < 0 ∨ 2 ≤ (gone ++ ids).count id →
        ∀ k < n, id < k → (k : Int) ∈ gone ++ ids := by
  induction ids generalizing gone with
  | nil => simp
  | cons id ids ih =>
    have happend : gone ++ id :: ids = (gone ++ [id]) ++ ids := by simp
    have hge : ∀ g ∈ gone, id ≤ g := fun g hg =>
      (List.pairwise_append.mp h).2.2 g hg id (List.mem_cons_self ..)
    have hle : ∀ g ∈ ids, g ≤ id :=
      (List.pairwise_cons.mp (List.pairwise_append.mp h).2.1).1
    -- a number above this one that is in the list is gone already
    have habove : ∀ k : Nat, id < k → (k : Int) ∈ gone ++ id :: ids → (k : Int) ∈ gone := by
      intro k hlt hk
      rcases List.mem_append.mp hk with hk | hk
      · exact hk
      · rcases List.mem_cons.mp hk with hk | hk
        · omega
        · exact absurd (hle k hk) (by omega)
    rw [List.foldl_cons, List.forall_mem_cons]
    by_cases hstep : id < 0 ∨ id ∈ gone → ∀ k < n, id < k → (k : Int) ∈ gone
    · rw [splice_remaining_of_none_above hge hstep, happend, ih (happend ▸ h), ← happend]
      refine (and_iff_right_of_imp fun hids hid k hk hlt => ?_).symm
      by_cases hdone : id < 0 ∨ id ∈ gone
      · exact List.mem_append_left _ (hstep hdone k hk hlt)
      · -- it stands once more behind this place
        refine hids id (List.count_pos_iff.mp ?_) hid k hk hlt
        have hcount := hid.resolve_left fun hneg => hdone (.inl hneg)
        rw [List.count_append, List.count_cons_self,
          List.count_eq_zero_of_not_mem fun hg => hdone (.inr hg)] at hcount
        omega
    · obtain ⟨hid, k, hk, hlt, hgone⟩ : (id < 0 ∨ id ∈ gone) ∧
          ∃ k < n, id < k ∧ (k : Int) ∉ gone := by
        simpa only [Classical.not_imp, not_forall, exists_prop] using hstep
      obtain ⟨j, hj, hlt', hlost⟩ := exists_lost hge hid hk hlt hgone
      have hjn := mem_remaining.mp hj
      refine iff_of_false (fun heq => ?_) fun hall => ?_
      · have hmem : j ∈ remaining n (gone ++ id :: ids) :=
          mem_remaining.mpr ⟨hjn.1, fun hin => hjn.2 (habove j hlt' hin)⟩
        rw [← heq] at hmem
        exact hlost ((foldl_splice_sublist _ _).subset hmem)
      · refine hgone (habove k hlt (hall.1 (hid.imp_right fun hg => ?_) k hk hlt))
        rw [List.count_append, List.count_cons_self]
        have := List.count_pos_iff.mpr hg
        omega

/-- From a queue of all numbers, those below a bound that are in a list are removed exactly. -/
theorem foldl_splice_eq_iff {n : Nat} {ids : List Int} (h : ids.Pairwise (· ≥ ·)) :
    ids.foldl splice (List.range n) = remaining n ids ↔
      ∀ id ∈ ids, id < 0 ∨ 2 ≤ ids.count id → ∀ k < n, id < k → (k : Int) ∈ ids := by
  have hstart : remaining n [] = List.range n := List.filter_eq_self.mpr fun _ _ => rfl
  have hiff := @foldl_splice_remaining_iff n ids [] h
  rwa [hstart, List.nil_append] at hiff

end Theory
end DefiBackend
