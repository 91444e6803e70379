import Mathlib.Data.List.FinRange
import Mathlib.Order.Basic

/-! # Sorts by comparisons

A sort sees its elements only through the answers of a comparison, which may change a state with
each answer. Which elements it compares is its own affair.

* `Comparisons`: what a sort asks, and the order in which it leaves the elements in the end.
* `Engine`: a sort of lists of any length. Its orders are permutations, and they are sorted and
  stable where the answers are those of keys.
* `insertion`: an engine that compares each element with those before it. A comparison that spreads
  a property from its second element to its first one spreads it from the first element of a list to
  all (`Spreads.run_insertion`). -/

namespace DefiBackend
namespace Theory

/-- The comparisons of a sort: an order, or a question with what follows each answer. -/
inductive Comparisons (ι : Type u)
  | done (order : List ι)
  | ask (i j : ι) (next : Ordering → Comparisons ι)

namespace Comparisons
variable {ι : Type u} {σ : Type v}

/-- The state and the order in the end, with a comparison that changes the state. -/
def run (compare : σ → ι → ι → σ × Ordering) : σ → Comparisons ι → σ × List ι
  | s, done order => (s, order)
  | s, ask i j next => run compare (compare s i j).1 (next (compare s i j).2)

/-- The order in the end, with a comparison that has no state. -/
def order (compare : ι → ι → Ordering) : Comparisons ι → List ι
  | done order => order
  | ask i j next => order compare (next (compare i j))

/-- All orders that there may be in the end are permutations of a list. -/
def Permutes (list : List ι) : Comparisons ι → Prop
  | done order => order.Perm list
  | ask _ _ next => ∀ answer, Permutes list (next answer)

/-- A comparison that leaves the state as it is. -/
theorem run_of_kept {compare : σ → ι → ι → σ × Ordering} {answer : ι → ι → Ordering} {s : σ}
    (h : ∀ i j, compare s i j = (s, answer i j)) (comparisons : Comparisons ι) :
    comparisons.run compare s = (s, comparisons.order answer) := by
  induction comparisons with
  | done order => rfl
  | ask i j next ih =>
    rw [run, h]
    exact ih _

theorem Permutes.run {list : List ι} {comparisons : Comparisons ι} (H : comparisons.Permutes list)
    (compare : σ → ι → ι → σ × Ordering) (s : σ) : (comparisons.run compare s).2.Perm list := by
  induction comparisons generalizing s with
  | done order => exact H
  | ask i j next ih => exact ih _ (H _) _

/-- What each comparison preserves holds in the end. -/
theorem run_induction {P : σ → Prop} {compare : σ → ι → ι → σ × Ordering}
    (h : ∀ s i j, P s → P (compare s i j).1) (comparisons : Comparisons ι) {s : σ} (hs : P s) :
    P (comparisons.run compare s).1 := by
  induction comparisons generalizing s with
  | done order => exact hs
  | ask i j next ih => exact ih _ (h s i j hs)

end Comparisons

/-- The comparison of two keys. -/
def compareKeys [LinearOrder κ] (key : ι → κ) (i j : ι) : Ordering :=
  if key i < key j then .lt else if key j < key i then .gt else .eq

/-- The first of two places comes before the second, by their keys or else as it does already. -/
def Before [LinearOrder κ] {n : ℕ} (key : Fin n → κ) (i j : Fin n) : Prop :=
  key i < key j ∨ key i = key j ∧ i < j

/-- A sort of lists of any length. -/
structure Engine where
  sort : (n : ℕ) → Comparisons (Fin n)
  permutes : ∀ n, (sort n).Permutes (List.finRange n)
  sorted : ∀ n {κ : Type} [LinearOrder κ] (key : Fin n → κ),
    ((sort n).order (compareKeys key)).Pairwise (Before key)

/-- With equal keys all places stay. -/
theorem Engine.order_of_eq (engine : Engine) (n : ℕ) :
    (engine.sort n).order (fun _ _ => .eq) = List.finRange n := by
  have hsorted := engine.sorted n fun _ => 0
  have hcompare : compareKeys (fun _ : Fin n => 0) = fun _ _ => .eq := rfl
  have hperm := (engine.permutes n).run (fun s _ _ => (s, .eq)) ()
  rw [Comparisons.run_of_kept fun _ _ => rfl] at hperm
  rw [hcompare] at hsorted
  refine hperm.eq_of_pairwise (fun i j _ _ hij hji => ?_) ?_ (List.pairwise_lt_finRange n)
  · exact absurd (hij.trans hji) (lt_irrefl i)
  · exact hsorted.imp fun h => (h.resolve_left (lt_irrefl 0)).2

/-! ## Insertion -/

section
variable {ι : Type u} {σ : Type v}

/-- An element is put into a sorted list, which has its last element first, and what follows goes on
with the list. -/
def insertInto (x : ι) : List ι → (List ι → Comparisons ι) → Comparisons ι
  | [], next => next [x]
  | y :: ys, next => .ask x y fun answer =>
    match answer with
    | .lt => insertInto x ys fun zs => next (y :: zs)
    | .eq | .gt => next (x :: y :: ys)

/-- Elements are put into a sorted list one after the other. -/
def insertAll : List ι → List ι → Comparisons ι
  | [], sorted => .done sorted.reverse
  | x :: xs, sorted => insertInto x sorted (insertAll xs)

/-- The place of an element in a sorted list, by a comparison that has no state. -/
def placed (compare : ι → ι → Ordering) (x : ι) : List ι → List ι
  | [] => [x]
  | y :: ys =>
    match compare x y with
    | .lt => y :: placed compare x ys
    | .eq | .gt => x :: y :: ys

theorem insertInto_permutes {list : List ι} {x : ι} {ys : List ι}
    {next : List ι → Comparisons ι} (h : ∀ zs : List ι, zs.Perm (x :: ys) → (next zs).Permutes list) :
    (insertInto x ys next).Permutes list := by
  induction ys generalizing next with
  | nil => exact h _ (.refl _)
  | cons y ys ih =>
    intro answer
    cases answer with
    | lt =>
      apply ih
      intro zs hzs
      exact h _ ((hzs.cons y).trans (.swap x y ys))
    | eq => exact h _ (.refl _)
    | gt => exact h _ (.refl _)

theorem insertAll_permutes {list xs sorted : List ι} (h : (xs ++ sorted).Perm list) :
    (insertAll xs sorted).Permutes list := by
  induction xs generalizing sorted with
  | nil => exact (List.reverse_perm sorted).trans h
  | cons x xs ih =>
    apply insertInto_permutes
    intro zs hzs
    apply ih
    exact ((hzs.append_left xs).trans List.perm_middle).trans h

theorem insertInto_order (compare : ι → ι → Ordering) (x : ι) (ys : List ι)
    (next : List ι → Comparisons ι) :
    (insertInto x ys next).order compare = (next (placed compare x ys)).order compare := by
  induction ys generalizing next with
  | nil => rfl
  | cons y ys ih =>
    rw [insertInto, Comparisons.order, placed]
    cases compare x y with
    | lt => exact ih _
    | eq => rfl
    | gt => rfl

theorem mem_placed {compare : ι → ι → Ordering} {x z : ι} {ys : List ι}
    (h : z ∈ placed compare x ys) : z = x ∨ z ∈ ys := by
  induction ys with
  | nil => exact .inl (List.mem_singleton.mp h)
  | cons y ys ih =>
    rw [placed] at h
    split at h
    · rcases List.mem_cons.mp h with rfl | h
      · exact .inr List.mem_cons_self
      · exact (ih h).imp_right (List.mem_cons_of_mem _)
    all_goals exact List.mem_cons.mp h

/-- A comparison that takes a property from its second element over to its first one. -/
structure Spreads (P : σ → ι → Prop) (compare : σ → ι → ι → σ × Ordering) : Prop where
  keep : ∀ s x y z, P s y → P s z → P (compare s x y).1 z
  spread : ∀ s x y, P s y → P (compare s x y).1 x

variable {P : σ → ι → Prop} {compare : σ → ι → ι → σ × Ordering}

/-- The property goes over to the element that is put into a list. -/
theorem Spreads.run_insertInto (H : Spreads P compare) {x : ι} {ys : List ι}
    (next : List ι → Comparisons ι) {s : σ} (hys : ∀ y ∈ ys, P s y) (hx : ys ≠ [] ∨ P s x) :
    ∃ s' zs, (insertInto x ys next).run compare s = (next zs).run compare s' ∧
      zs.Perm (x :: ys) ∧ P s' x ∧ ∀ z, P s z → P s' z := by
  induction ys generalizing next s with
  | nil => exact ⟨s, [x], rfl, .refl _, hx.resolve_left fun h => h rfl, fun _ hz => hz⟩
  | cons y ys ih =>
    obtain ⟨hy, hys⟩ := List.forall_mem_cons.mp hys
    have hspread := H.spread s x y hy
    have hkeep : ∀ z, P s z → P (compare s x y).1 z := fun z hz => H.keep s x y z hy hz
    rw [insertInto, Comparisons.run]
    cases (compare s x y).2 with
    | lt =>
      obtain ⟨s', zs, hrun, hperm, hx', hkeep'⟩ := ih (fun zs => next (y :: zs))
        (fun z hz => hkeep z (hys z hz)) (.inr hspread)
      exact ⟨s', y :: zs, hrun, (hperm.cons y).trans (.swap x y ys), hx',
        fun z hz => hkeep' z (hkeep z hz)⟩
    | eq => exact ⟨_, _, rfl, .refl _, hspread, hkeep⟩
    | gt => exact ⟨_, _, rfl, .refl _, hspread, hkeep⟩

theorem Spreads.run_insertAll (H : Spreads P compare) (xs : List ι) {sorted : List ι} {s : σ}
    (hsorted : ∀ y ∈ sorted, P s y) (hne : sorted ≠ []) :
    ∀ z, z ∈ xs ∨ P s z → P ((insertAll xs sorted).run compare s).1 z := by
  induction xs generalizing sorted s with
  | nil => exact fun z hz => hz.resolve_left List.not_mem_nil
  | cons x xs ih =>
    obtain ⟨s', zs, hrun, hperm, hx, hkeep⟩ := H.run_insertInto (insertAll xs) hsorted (.inl hne)
    have hzs : ∀ z ∈ zs, P s' z := by
      intro z hz
      rcases List.mem_cons.mp (hperm.mem_iff.mp hz) with rfl | hz
      · exact hx
      · exact hkeep z (hsorted z hz)
    have hne' : zs ≠ [] := by
      rintro rfl
      exact List.cons_ne_nil _ _ (List.nil_perm.mp hperm)
    rw [insertAll, hrun]
    rintro z (hz | hz)
    · rcases List.mem_cons.mp hz with rfl | hz
      · exact ih hzs hne' z (.inr hx)
      · exact ih hzs hne' z (.inl hz)
    · exact ih hzs hne' z (.inr (hkeep z hz))

end

section
variable {κ : Type} [LinearOrder κ] {n : ℕ} {key : Fin n → κ}

theorem Before.trans {i j k : Fin n} (h : Before key i j) (h' : Before key j k) :
    Before key i k := by
  rcases h with h | ⟨h, hij⟩
  · rcases h' with h' | ⟨h', -⟩
    · exact .inl (h.trans h')
    · exact .inl (h'.symm ▸ h)
  · rcases h' with h' | ⟨h', hjk⟩
    · exact .inl (h.symm ▸ h')
    · exact .inr ⟨h.trans h', hij.trans hjk⟩

/-- A later place is put where the list, which has its last element first, stays sorted. -/
theorem placed_sorted {i : Fin n} {js : List (Fin n)} (hjs : js.Pairwise fun k j => Before key j k)
    (hi : ∀ j ∈ js, j < i) :
    (placed (compareKeys key) i js).Pairwise fun k j => Before key j k := by
  induction js with
  | nil => exact List.pairwise_singleton _ _
  | cons j js ih =>
    obtain ⟨hj, hjs⟩ := List.pairwise_cons.mp hjs
    obtain ⟨hji, hi⟩ := List.forall_mem_cons.mp hi
    have hafter : ¬ key i < key j →
        (i :: j :: js).Pairwise fun k j => Before key j k := by
      intro hnot
      have hbefore : Before key j i := by
        rcases (not_lt.mp hnot).lt_or_eq with hlt | heq
        · exact .inl hlt
        · exact .inr ⟨heq, hji⟩
      refine List.pairwise_cons.mpr ⟨?_, List.pairwise_cons.mpr ⟨hj, hjs⟩⟩
      intro k hk
      rcases List.mem_cons.mp hk with rfl | hk
      · exact hbefore
      · exact (hj k hk).trans hbefore
    rw [placed]
    by_cases hlt : key i < key j
    · rw [compareKeys, if_pos hlt]
      refine List.pairwise_cons.mpr ⟨?_, ih hjs hi⟩
      intro k hk
      rcases mem_placed hk with rfl | hk
      · exact .inl hlt
      · exact hj k hk
    · rw [compareKeys, if_neg hlt]
      split
      · next h => split at h <;> cases h
      · exact hafter hlt
      · exact hafter hlt

theorem insertAll_sorted {is sorted : List (Fin n)} (his : is.Pairwise (· < ·))
    (hsorted : sorted.Pairwise fun k j => Before key j k) (hlt : ∀ i ∈ is, ∀ j ∈ sorted, j < i) :
    ((insertAll is sorted).order (compareKeys key)).Pairwise (Before key) := by
  induction is generalizing sorted with
  | nil => exact List.pairwise_reverse.mpr hsorted
  | cons i is ih =>
    obtain ⟨hi, his⟩ := List.pairwise_cons.mp his
    obtain ⟨hnew, hlt⟩ := List.forall_mem_cons.mp hlt
    rw [insertAll, insertInto_order]
    apply ih his (placed_sorted hsorted hnew)
    intro k hk j hj
    rcases mem_placed hj with rfl | hj
    · exact hi k hk
    · exact hlt k hk j hj

end

/-- The engine that compares each element with those before it, from the last one on. -/
def insertion : Engine where
  sort n := insertAll (List.finRange n) []
  permutes n := insertAll_permutes (by rw [List.append_nil])
  sorted n _ _ key := insertAll_sorted (List.pairwise_lt_finRange n) List.Pairwise.nil
    fun _ _ _ h => absurd h List.not_mem_nil

/-- What a comparison spreads comes from the first element to all. -/
theorem Spreads.run_insertion {σ : Type v} {n : ℕ} {P : σ → Fin (n + 1) → Prop}
    {compare : σ → Fin (n + 1) → Fin (n + 1) → σ × Ordering} (H : Spreads P compare) {s : σ}
    (h : P s 0) : ∀ i, P ((insertion.sort (n + 1)).run compare s).1 i := by
  intro i
  have hsort : insertion.sort (n + 1) = insertAll ((List.finRange n).map Fin.succ) [0] := by
    change insertAll (List.finRange (n + 1)) [] = _
    rw [List.finRange_succ]
    rfl
  rw [hsort]
  apply H.run_insertAll _ (List.forall_mem_singleton.mpr h) (List.cons_ne_nil _ _)
  rcases Fin.eq_zero_or_eq_succ i with rfl | ⟨j, rfl⟩
  · exact .inr h
  · exact .inl (List.mem_map_of_mem (List.mem_finRange j))

end Theory
end DefiBackend
