import Mathlib.Data.List.Basic
import Mathlib.Data.List.Nodup

/-! # Loops that test at their end, and pages

`doWhilst` runs a body until it says that this was the last time. The runs are counted, so that a
loop without an end has no result.

* `EndsIn`: the loop comes to an end in a state.
* `EndsIn.induction`: the rule of invariants.
* `exists_endsIn`: a loop ends if what is left gets less, and `not_endsIn`: it does not if it always
  goes on.
* `nextPage`: a loop over the pages of a list (`doWhilst_nextPage`).
* `page skip take`: a page of a list. In a selection from a list, an object with fewer selected ones
  before it than are skipped is on no page (`not_mem_page`). -/

namespace DefiBackend
namespace Theory

/-! ## Loops -/

section
variable (body : σ → σ × Bool)

/-- Runs the body, and again as long as it says so. -/
def doWhilst : Nat → σ → Option σ
  | 0, _ => none
  | fuel + 1, s => if (body s).2 then doWhilst fuel (body s).1 else some (body s).1

def EndsIn (s t : σ) : Prop := ∃ fuel, doWhilst body fuel s = some t

end

section
variable {body : σ → σ × Bool} {s t : σ}

theorem EndsIn.of_next (hnext : (body s).2 = true) (H : EndsIn body (body s).1 t) :
    EndsIn body s t := by
  obtain ⟨fuel, hfuel⟩ := H
  refine ⟨fuel + 1, ?_⟩
  rw [doWhilst, if_pos hnext, hfuel]

theorem endsIn_of_last (hlast : (body s).2 = false) : EndsIn body s (body s).1 := by
  refine ⟨1, ?_⟩
  rw [doWhilst, if_neg (ne_true_of_eq_false hlast)]

/-- More fuel does not change where a loop ends. -/
theorem doWhilst_mono {fuel fuel' : Nat} (h : doWhilst body fuel s = some t) (hle : fuel ≤ fuel') :
    doWhilst body fuel' s = some t := by
  induction fuel generalizing fuel' s with
  | zero => cases h
  | succ fuel ih =>
    obtain ⟨fuel', rfl⟩ := Nat.exists_eq_add_of_le' (Nat.le_trans (Nat.succ_le_succ (Nat.zero_le _)) hle)
    rw [doWhilst] at h ⊢
    split
    · next hnext =>
      rw [if_pos hnext] at h
      exact ih h (Nat.le_of_succ_le_succ hle)
    · next hlast => rwa [if_neg hlast] at h

/-- What every run of the body keeps holds before the last one. -/
theorem EndsIn.induction {I Q : σ → Prop} (H : EndsIn body s t) (hs : I s)
    (hnext : ∀ s, I s → (body s).2 = true → I (body s).1)
    (hlast : ∀ s, I s → (body s).2 = false → Q (body s).1) : Q t := by
  obtain ⟨fuel, hfuel⟩ := H
  induction fuel generalizing s with
  | zero => cases hfuel
  | succ fuel ih =>
    rw [doWhilst] at hfuel
    cases hbody : (body s).2 with
    | true =>
      rw [if_pos hbody] at hfuel
      exact ih (hnext s hs hbody) hfuel
    | false =>
      rw [if_neg (ne_true_of_eq_false hbody)] at hfuel
      cases hfuel
      exact hlast s hs hbody

/-- A loop ends if each run of the body but the last leaves less to do. -/
theorem exists_endsIn {I : σ → Prop} (m : σ → Nat) (hs : I s)
    (h : ∀ s, I s → (body s).2 = true → I (body s).1 ∧ m (body s).1 < m s) :
    ∃ t, EndsIn body s t := by
  induction hm : m s using Nat.strongRecOn generalizing s with
  | _ n ih =>
    cases hbody : (body s).2 with
    | true =>
      obtain ⟨hI, hless⟩ := h s hs hbody
      obtain ⟨t, ht⟩ := ih _ (hm ▸ hless) hI rfl
      exact ⟨t, ht.of_next hbody⟩
    | false => exact ⟨_, endsIn_of_last hbody⟩

/-- A loop that always goes on does not end. -/
theorem not_endsIn {I : σ → Prop} (hs : I s) (h : ∀ s, I s → (body s).2 = true ∧ I (body s).1) :
    ¬ EndsIn body s t := by
  intro H
  apply H.induction (Q := fun _ => False) hs
  · intro s hs _
    exact (h s hs).2
  · intro s hs hlast
    rw [(h s hs).1] at hlast
    cases hlast

end

/-! ## Pages -/

/-- What is left of a list when some elements are skipped, up to a number. -/
def page (skip take : Nat) (list : List α) : List α := (list.drop skip).take take

section
variable {list before after : List α} {p : α → Bool} {skip take : Nat} {a : α}

theorem mem_of_mem_page (h : a ∈ page skip take list) : a ∈ list :=
  List.mem_of_mem_drop (List.mem_of_mem_take h)

theorem page_eq_nil (htake : 0 < take) : page skip take list = [] ↔ list.length ≤ skip := by
  rw [page, List.take_eq_nil_iff, List.drop_eq_nil_iff]
  exact or_iff_right (Nat.pos_iff_ne_zero.mp htake)

theorem page_eq_self (h : list.length ≤ take) : page 0 take list = list := by
  rw [page, List.drop_zero, List.take_of_length_le h]

theorem page_append_drop (take : Nat) (list : List α) :
    page 0 take list ++ list.drop take = list := by
  rw [page, List.drop_zero, List.take_append_drop]

/-- What is not on the first page is the rest. -/
theorem filter_not_mem_page [DecidableEq α] (hnodup : list.Nodup) (take : Nat) :
    list.filter (· ∉ page 0 take list) = list.drop take := by
  have hcut := page_append_drop take list
  generalize page 0 take list = first at hcut ⊢
  generalize list.drop take = rest at hcut ⊢
  subst hcut
  have hdisjoint := (List.nodup_append.mp hnodup).2.2
  rw [List.filter_append, List.filter_eq_nil_iff.mpr, List.filter_eq_self.mpr, List.nil_append]
  · intro a ha
    apply decide_eq_true
    intro hfirst
    exact hdisjoint a hfirst a ha rfl
  · intro a ha hnot
    exact of_decide_eq_true hnot ha

theorem not_mem_page (hnodup : (before ++ a :: after).Nodup) (h : (before.filter p).length < skip) :
    a ∉ page skip take ((before ++ a :: after).filter p) := by
  intro ha
  have hmem := List.mem_of_mem_take ha
  have hafter : a ∉ after := (List.nodup_cons.mp (List.nodup_append.mp hnodup).2.1).1
  rw [List.filter_append, List.drop_append, List.drop_eq_nil_of_le (Nat.le_of_lt h),
    List.nil_append, List.filter_cons] at hmem
  split at hmem
  · obtain ⟨k, hk⟩ := Nat.exists_eq_add_of_lt h
    have hsub : skip - (before.filter p).length = k + 1 := by omega
    rw [hsub, List.drop_succ_cons] at hmem
    exact hafter (List.mem_of_mem_filter (List.mem_of_mem_drop hmem))
  · exact hafter (List.mem_of_mem_filter (List.mem_of_mem_drop hmem))

/-- The first selected object that is not on a first page, and what is before it. -/
theorem exists_after_page (h : take < (list.filter p).length) :
    ∃ before a after, list = before ++ a :: after ∧ p a = true ∧
      page 0 take (list.filter p) = before.filter p := by
  have hcut := (page_append_drop take (list.filter p)).symm
  rw [List.drop_eq_getElem_cons h] at hcut
  generalize page 0 take (list.filter p) = first at hcut ⊢
  obtain ⟨before, rest, hlist, hbefore, hrest⟩ := List.filter_eq_append_iff.mp hcut
  obtain ⟨between, after, hrest, hbetween, ha, -⟩ := List.filter_eq_cons_iff.mp hrest
  refine ⟨before ++ between, _, after, ?_, ha, ?_⟩
  · rw [List.append_assoc, ← hrest, hlist]
  · rw [List.filter_append, List.filter_eq_nil_iff.mpr hbetween, List.append_nil, hbefore]

/-! ## Loops over pages -/

/-- Takes the next page of a list, until one is empty. -/
def nextPage (take : Nat) (list : List α) (process : σ → List α → σ) (s : σ × Nat) :
    (σ × Nat) × Bool :=
  let taken := page s.2 take list
  ((process s.1 taken, s.2 + taken.length), !taken.isEmpty)

/-- The pages from a place on are what is left of the list. -/
theorem doWhilst_nextPage_from (htake : 0 < take) (process : σ → List α → σ) (s : σ) :
    ∃ pages : List (List α), pages.flatten = list.drop skip ∧
      doWhilst (nextPage take list process) (list.length - skip + 1) (s, skip) =
        some (pages.foldl process s, skip + (list.length - skip)) := by
  induction hlen : list.length - skip using Nat.strongRecOn generalizing s skip with
  | _ n ih =>
    by_cases hempty : page skip take list = []
    · have hle := (page_eq_nil htake).mp hempty
      refine ⟨[[]], ?_, ?_⟩
      · rw [List.drop_eq_nil_of_le hle]
        rfl
      · obtain rfl : n = 0 := by omega
        rw [doWhilst, nextPage, hempty]
        rfl
    · have hlt : skip < list.length := by
        apply Nat.lt_of_not_le
        exact fun hle => hempty ((page_eq_nil htake).mpr hle)
      have hlength : (page skip take list).length = min take (list.length - skip) := by
        rw [page, List.length_take, List.length_drop]
      obtain ⟨pages, hflatten, hrest⟩ := ih (list.length - (skip + (page skip take list).length))
        (by omega) (process s (page skip take list)) rfl
      refine ⟨page skip take list :: pages, ?_, ?_⟩
      · rw [List.flatten_cons, hflatten, hlength, page]
        rcases Nat.le_total take (list.length - skip) with hle | hle
        · rw [Nat.min_eq_left hle, ← List.drop_drop, List.take_append_drop]
        · have hdone : list.drop (skip + (list.length - skip)) = [] :=
            List.drop_of_length_le (by omega)
          rw [Nat.min_eq_right hle, List.take_of_length_le (by rwa [List.length_drop]), hdone,
            List.append_nil]
      · have hmore : (nextPage take list process (s, skip)).2 = true := by
          simpa [nextPage] using hempty
        rw [doWhilst, if_pos hmore]
        have hfuel : list.length - (skip + (page skip take list).length) + 1 ≤ n := by omega
        have hend := doWhilst_mono hrest hfuel
        rw [List.foldl_cons]
        refine hend.trans ?_
        congr 2
        omega

/-- A loop over the pages of a list comes to an end, and its pages are the list. -/
theorem doWhilst_nextPage (htake : 0 < take) (list : List α) (process : σ → List α → σ) (s : σ) :
    ∃ pages : List (List α), pages.flatten = list ∧
      doWhilst (nextPage take list process) (list.length + 1) (s, 0) =
        some (pages.foldl process s, list.length) := by
  obtain ⟨pages, hflatten, hend⟩ :
      ∃ pages : List (List α), pages.flatten = list.drop 0 ∧ _ := doWhilst_nextPage_from htake process s
  rw [Nat.sub_zero, Nat.zero_add] at hend
  exact ⟨pages, hflatten, hend⟩

end

end Theory
end DefiBackend
