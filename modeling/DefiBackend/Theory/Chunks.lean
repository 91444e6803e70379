import DefiBackend.Theory.Fallible
import Mathlib.Algebra.GroupWithZero.Nat

/-! # Chunks of a list

A list cut into chunks, which are processed one after the other.

* `flatten_chunks`: the chunks together are the list;
* `cut_iff`: they are its only consecutive groups of that size;
* `getElem?_chunks`: each chunk by its place;
* `mapM_chunks`: chunks that are mapped element by element give what the list gives;
* `flatMap_batches`: a range that is visited in batches. -/

namespace DefiBackend
namespace Theory

variable {α : Type u} {β ε : Type v}

/-- The list in chunks of `size + 1` elements, the last of which may have less. -/
def chunks (size : Nat) : List α → List (List α)
  | [] => []
  | a :: l => (a :: l.take size) :: chunks size (l.drop size)
termination_by l => l.length
decreasing_by
  rw [List.length_drop, List.length_cons]
  omega

theorem flatten_chunks (size : Nat) (l : List α) : (chunks size l).flatten = l := by
  induction l using chunks.induct size with
  | case1 => rw [chunks, List.flatten_nil]
  | case2 a l ih => rw [chunks, List.flatten_cons, ih, List.cons_append, List.take_append_drop]

theorem chunks_map (f : α → β) (size : Nat) (l : List α) :
    chunks size (l.map f) = (chunks size l).map (·.map f) := by
  induction l using chunks.induct size with
  | case1 => rw [List.map_nil, chunks, chunks, List.map_nil]
  | case2 a l ih =>
    rw [List.map_cons, chunks, ← List.map_drop, ih, ← List.map_take, chunks, List.map_cons,
      List.map_cons]

/-- Each chunk by its place. -/
theorem getElem?_chunks (size : Nat) (l : List α) (k : Nat) :
    (chunks size l)[k]? =
      if k * (size + 1) < l.length then some ((l.drop (k * (size + 1))).take (size + 1))
      else none := by
  induction l using chunks.induct size generalizing k with
  | case1 =>
    rw [chunks]
    rfl
  | case2 a l ih =>
    rw [chunks]
    cases k with
    | zero => simp
    | succ k =>
      rw [List.getElem?_cons_succ, ih, List.length_drop, List.length_cons, List.drop_drop]
      have hdrop : (k + 1) * (size + 1) = size + k * (size + 1) + 1 := by
        rw [Nat.succ_mul]
        omega
      rw [hdrop, List.drop_succ_cons]
      by_cases h : size + k * (size + 1) < l.length
      · rw [if_pos (by omega), if_pos (by omega)]
      · rw [if_neg (by omega), if_neg (by omega)]

/-- The first chunks, by their places. -/
theorem take_chunks {size : Nat} {l : List α} {k : Nat} (h : k ≤ (chunks size l).length) :
    (chunks size l).take k =
      (List.range k).map fun j => (l.drop (j * (size + 1))).take (size + 1) := by
  apply List.ext_getElem?
  intro j
  rw [List.getElem?_take, List.getElem?_map]
  by_cases hj : j < k
  · have hget : ((chunks size l)[j]?).isSome := by
      rw [List.getElem?_eq_getElem (Nat.lt_of_lt_of_le hj h)]
      rfl
    rw [if_pos hj, List.getElem?_range hj, getElem?_chunks]
    rw [getElem?_chunks] at hget
    split
    · rfl
    · rename_i hlong
      rw [if_neg hlong] at hget
      cases hget
  · rw [if_neg hj, List.getElem?_eq_none (by simpa using hj)]
    rfl

/-- The elements of lists that stand one after the other, by the lists before them. -/
theorem getElem?_flatMap_iff {f : α → List β} {l : List α} {i : Nat} {b : β} :
    (l.flatMap f)[i]? = some b ↔
      ∃ k a j, l[k]? = some a ∧ (f a)[j]? = some b ∧
        i = ((l.take k).map fun a => (f a).length).sum + j := by
  induction l generalizing i with
  | nil =>
    refine iff_of_false (fun h => ?_) ?_
    · cases h
    · rintro ⟨k, a, j, hk, -⟩
      cases hk
  | cons a l ih =>
    rw [List.flatMap_cons]
    by_cases hi : i < (f a).length
    · rw [List.getElem?_append_left hi]
      constructor
      · intro h
        exact ⟨0, a, i, rfl, h, (Nat.zero_add i).symm⟩
      · rintro ⟨k, a', j, hk, hj, rfl⟩
        cases k with
        | zero =>
          cases hk
          rw [List.take_zero, List.map_nil, List.sum_nil, Nat.zero_add]
          exact hj
        | succ k =>
          rw [List.take_succ_cons, List.map_cons, List.sum_cons] at hi
          omega
    · rw [List.getElem?_append_right (Nat.le_of_not_lt hi), ih]
      constructor
      · rintro ⟨k, a', j, hk, hj, h⟩
        refine ⟨k + 1, a', j, hk, hj, ?_⟩
        rw [List.take_succ_cons, List.map_cons, List.sum_cons]
        omega
      · rintro ⟨k, a', j, hk, hj, h⟩
        cases k with
        | zero =>
          cases hk
          obtain ⟨hlt, -⟩ := List.getElem?_eq_some_iff.mp hj
          simp only [List.take_zero, List.map_nil, List.sum_nil] at h
          omega
        | succ k =>
          refine ⟨k, a', j, hk, hj, ?_⟩
          rw [List.take_succ_cons, List.map_cons, List.sum_cons] at h
          omega

/-- Consecutive groups of a list, all but the last of one size. -/
structure Cut (size : Nat) (l : List α) (groups : List (List α)) : Prop where
  flatten : groups.flatten = l
  full : ∀ group ∈ groups.dropLast, group.length = size
  last : ∀ group ∈ groups.getLast?, 0 < group.length ∧ group.length ≤ size

theorem cut_chunks (size : Nat) (l : List α) : Cut (size + 1) l (chunks size l) := by
  refine ⟨flatten_chunks size l, ?_, ?_⟩
  · induction l using chunks.induct size with
    | case1 =>
      rw [chunks]
      exact fun _ h => nomatch h
    | case2 a l ih =>
      intro group hgroup
      rw [chunks] at hgroup
      cases hrest : chunks size (l.drop size) with
      | nil =>
        rw [hrest] at hgroup
        cases hgroup
      | cons next rest =>
        rw [hrest, List.dropLast_cons_cons, ← hrest] at hgroup
        rcases List.mem_cons.mp hgroup with rfl | hgroup
        · have hlong : size < l.length := by
            apply Nat.lt_of_not_le
            intro hshort
            rw [List.drop_eq_nil_of_le hshort, chunks] at hrest
            cases hrest
          rw [List.length_cons, List.length_take_of_le (Nat.le_of_lt hlong)]
        · exact ih group hgroup
  · induction l using chunks.induct size with
    | case1 =>
      rw [chunks]
      exact fun _ h => nomatch h
    | case2 a l ih =>
      intro group hgroup
      rw [chunks] at hgroup
      cases hrest : chunks size (l.drop size) with
      | nil =>
        rw [hrest, List.getLast?_singleton] at hgroup
        obtain rfl := Option.some.inj hgroup
        rw [List.length_cons, List.length_take]
        exact ⟨Nat.succ_pos _, Nat.succ_le_succ (Nat.min_le_left ..)⟩
      | cons next rest =>
        rw [hrest, List.getLast?_cons_cons, ← hrest] at hgroup
        exact ih group hgroup

/-- A list is cut in one way only. -/
theorem cut_iff {size : Nat} {l : List α} {groups : List (List α)} :
    Cut (size + 1) l groups ↔ groups = chunks size l := by
  refine ⟨fun h => ?_, fun h => h ▸ cut_chunks size l⟩
  induction groups generalizing l with
  | nil =>
    obtain rfl : [] = l := h.flatten
    rw [chunks]
  | cons group groups ih =>
    obtain ⟨rfl, hfull, hlast⟩ := h
    cases groups with
    | nil =>
      obtain ⟨hpos, hle⟩ := hlast group rfl
      obtain ⟨a, l, rfl⟩ := List.exists_cons_of_length_pos hpos
      have hshort : l.length ≤ size := Nat.le_of_succ_le_succ hle
      rw [List.flatten_singleton, chunks, List.take_of_length_le hshort,
        List.drop_eq_nil_of_le hshort, chunks]
    | cons next rest =>
      have hsize : group.length = size + 1 := hfull group (List.mem_cons_self ..)
      obtain ⟨a, l, rfl⟩ := List.exists_cons_of_length_eq_add_one hsize
      have hl : l.length = size := Nat.succ.inj hsize
      have hnext : next :: rest = chunks size (next :: rest).flatten :=
        ih ⟨rfl, fun g hg => hfull g (List.mem_cons_of_mem _ hg), hlast⟩
      rw [List.flatten_cons, List.cons_append, chunks, List.take_left' hl, List.drop_left' hl,
        ← hnext]

/-- Lists that are mapped one after the other. -/
theorem mapM_flatten {m : Type v → Type w} [Monad m] [LawfulMonad m] {f : α → m β}
    (ls : List (List α)) :
    (do let bs ← ls.mapM fun l => l.mapM f; pure bs.flatten) = ls.flatten.mapM f := by
  induction ls with
  | nil => rw [List.mapM_nil, pure_bind, List.flatten_nil, List.flatten_nil, List.mapM_nil]
  | cons l ls ih =>
    rw [List.flatten_cons, List.mapM_append, ← ih, List.mapM_cons]
    simp only [bind_assoc, pure_bind, List.flatten_cons]

theorem mapM_chunks {m : Type v → Type w} [Monad m] [LawfulMonad m] {f : α → m β}
    {g : List α → m (List β)} {l : List α} (size : Nat)
    (h : ∀ chunk ∈ chunks size l, g chunk = chunk.mapM f) :
    (do let bs ← (chunks size l).mapM g; pure bs.flatten) = l.mapM f := by
  rw [mapM_congr h, mapM_flatten, flatten_chunks]

/-- The ranges of the batches of some indices are the range of these. -/
theorem flatMap_batches (size total n start : Nat) :
    (List.range' start n size).flatMap (fun s => List.range' s (min size (total - s))) =
      List.range' start (min (n * size) (total - start)) := by
  induction n generalizing start with
  | zero => rw [Nat.zero_mul, Nat.zero_min]; rfl
  | succ n ih =>
    rw [List.range'_succ, List.flatMap_cons, ih, Nat.succ_mul]
    rcases Nat.le_total (total - start) size with hle | hle
    · have hrest : total - (start + size) = 0 := Nat.sub_eq_zero_of_le (by omega)
      have hlength : min (n * size + size) (total - start) = total - start := by omega
      rw [Nat.min_eq_right hle, hrest, hlength, Nat.min_zero]
      exact List.append_nil _
    · have hlength : min (n * size + size) (total - start) =
          size + min (n * size) (total - (start + size)) := by omega
      rw [Nat.min_eq_left hle, List.range'_append_1, hlength]

end Theory
end DefiBackend
