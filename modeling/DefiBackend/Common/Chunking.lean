import Mathlib.Data.PNat.Basic
import DefiBackend.Theory.Chunks

/-! # Chunked arrays

`chunk` folds an array into groups, `toChunkedArray` slices it.

* `toChunkedArray_eq`: the slices are the groups of the array;
* `chunk_eq`: the fold gives the same groups with their elements concatenated, so that an element
  that is an array comes as its items;
* `chunk_cut_iff`: the groups are those of the array when no element is an array. -/

namespace DefiBackend
open Theory

/-- An element of an array, which may be an array again. -/
inductive Element (α : Type u)
  | leaf (a : α)
  | array (items : List (Element α))

namespace Element
variable {α : Type u}

/-- What `concat` appends for an argument: an array's items. -/
def spread : Element α → List (Element α)
  | .leaf a => [.leaf a]
  | .array items => items

def leaf? : Element α → Option α
  | .leaf a => some a
  | .array _ => none

end Element

section
variable {α : Type u}

/-- `results[index] = group`, for an index that is not beyond the end. -/
def setGroup (results : List (List (Element α))) (index : Nat) (group : List (Element α)) :
    List (List (Element α)) :=
  if index < results.length then results.set index group else results ++ [group]

/-- The callback of `reduce`. -/
def addToChunk (num : ℕ+) (results : List (List (Element α))) (e : Element α × Nat) :
    List (List (Element α)) :=
  let chunkIndex := e.2 / num
  setGroup results chunkIndex (results[chunkIndex]?.getD [] ++ e.1.spread)

def chunk (array : List (Element α)) (num : ℕ+) : List (List (Element α)) :=
  array.zipIdx.foldl (addToChunk num) []

end

section
variable {β : Type u}

/-- The loop of `toChunkedArray` from an index on. -/
def slicesFrom (array : List β) (chunkSize : ℕ+) (i : Nat) : List (List β) :=
  if i < array.length then
    array.extract i (i + chunkSize) :: slicesFrom array chunkSize (i + chunkSize)
  else []
termination_by array.length - i
decreasing_by
  have := chunkSize.pos
  omega

def toChunkedArray (array : List β) (chunkSize : ℕ+) : List (List β) :=
  slicesFrom array chunkSize 0

theorem slicesFrom_eq (array : List β) (chunkSize : ℕ+) (i : Nat) :
    slicesFrom array chunkSize i = chunks chunkSize.natPred (array.drop i) := by
  induction i using slicesFrom.induct array chunkSize with
  | case1 i h ih =>
    have hsize : (chunkSize : Nat) = chunkSize.natPred + 1 := chunkSize.natPred_add_one.symm
    have hdrop : array.drop i = array[i] :: array.drop (i + 1) := List.drop_eq_getElem_cons h
    rw [slicesFrom, if_pos h, ih, hdrop, chunks, List.drop_drop, List.extract_eq_take_drop,
      Nat.add_sub_cancel_left, hdrop, hsize, List.take_succ_cons]
    have hnext : i + (chunkSize.natPred + 1) = i + 1 + chunkSize.natPred := by omega
    rw [hnext]
  | case2 i h =>
    rw [slicesFrom, if_neg h, List.drop_eq_nil_of_le (Nat.le_of_not_lt h), chunks]

theorem toChunkedArray_eq (array : List β) (chunkSize : ℕ+) :
    toChunkedArray array chunkSize = chunks chunkSize.natPred array :=
  slicesFrom_eq array chunkSize 0

end

section
variable {α : Type u}

/-! ## The fold -/

theorem addToChunk_append {num : ℕ+} {results : List (List (Element α))} {item : Element α}
    {i : Nat} (h : i / num = results.length) :
    addToChunk num results (item, i) = results ++ [item.spread] := by
  unfold addToChunk setGroup
  simp only [h, Nat.lt_irrefl, if_false, List.getElem?_length, Option.getD_none, List.nil_append]

theorem addToChunk_last {num : ℕ+} {results : List (List (Element α))}
    {group : List (Element α)} {item : Element α} {i : Nat} (h : i / num = results.length) :
    addToChunk num (results ++ [group]) (item, i) = results ++ [group ++ item.spread] := by
  have hlt : results.length < (results ++ [group]).length := by simp
  unfold addToChunk setGroup
  simp only [h, if_pos hlt, List.getElem?_concat_length, Option.getD_some]
  rw [List.set_append_right _ _ (Nat.le_refl _), Nat.sub_self, List.set_cons_zero]

/-- Items whose indices fall into the last group. -/
theorem foldl_addToChunk_last {num : ℕ+} {results : List (List (Element α))}
    {group items : List (Element α)} {i : Nat}
    (h : ∀ k < items.length, (i + k) / num = results.length) :
    (items.zipIdx i).foldl (addToChunk num) (results ++ [group]) =
      results ++ [group ++ items.flatMap Element.spread] := by
  induction items generalizing group i with
  | nil => simp
  | cons item items ih =>
    have hitem : i / num = results.length := h 0 (Nat.succ_pos _)
    have hitems : ∀ k < items.length, (i + 1 + k) / num = results.length := by
      intro k hk
      rw [Nat.add_right_comm]
      exact h (k + 1) (Nat.succ_lt_succ hk)
    rw [List.zipIdx_cons, List.foldl_cons, addToChunk_last hitem, ih hitems, List.flatMap_cons,
      List.append_assoc]

/-- Items from the start of a group on. -/
theorem foldl_addToChunk {num : ℕ+} {results : List (List (Element α))}
    {items : List (Element α)} {i : Nat} (h : items ≠ [] → i = results.length * num) :
    (items.zipIdx i).foldl (addToChunk num) results =
      results ++ (chunks num.natPred items).map (·.flatMap Element.spread) := by
  induction items using chunks.induct num.natPred generalizing results i with
  | case1 => rw [chunks, List.map_nil, List.append_nil, List.zipIdx_nil, List.foldl_nil]
  | case2 item items ih =>
    obtain rfl := h (List.cons_ne_nil _ _)
    have hnum : (num : Nat) = num.natPred + 1 := num.natPred_add_one.symm
    have hitem : results.length * num / num = results.length :=
      Nat.mul_div_cancel _ num.pos
    have hlast : ∀ k < (items.take num.natPred).length,
        (results.length * num + 1 + k) / num = results.length := by
      intro k hk
      rw [List.length_take] at hk
      rw [Nat.add_assoc, Nat.mul_comm, Nat.mul_add_div num.pos, Nat.div_eq_of_lt (by omega),
        Nat.add_zero]
    have hrest : items.drop num.natPred ≠ [] →
        results.length * num + 1 + (items.take num.natPred).length =
          (results ++ [item.spread ++ (items.take num.natPred).flatMap Element.spread]).length *
            num := by
      intro hne
      have hlong : num.natPred ≤ items.length := by
        apply Nat.le_of_not_lt
        intro hshort
        exact hne (List.drop_eq_nil_of_le (Nat.le_of_lt hshort))
      rw [List.length_take_of_le hlong, List.length_append, List.length_singleton, Nat.add_mul,
        Nat.one_mul, hnum]
      omega
    have hcut : items.zipIdx (results.length * num + 1) =
        (items.take num.natPred).zipIdx (results.length * num + 1) ++
          (items.drop num.natPred).zipIdx
            (results.length * num + 1 + (items.take num.natPred).length) := by
      rw [← List.zipIdx_append, List.take_append_drop]
    rw [List.zipIdx_cons, List.foldl_cons, addToChunk_append hitem, hcut, List.foldl_append,
      foldl_addToChunk_last hlast, ih hrest, chunks, List.map_cons, List.append_assoc,
      List.flatMap_cons]
    rfl

/-- The groups of the fold: those of the array, each concatenated. -/
theorem chunk_eq (array : List (Element α)) (num : ℕ+) :
    chunk array num = (toChunkedArray array num).map (·.flatMap Element.spread) := by
  rw [toChunkedArray_eq]
  exact foldl_addToChunk fun _ => by simp

/-! ## Elements that are arrays -/

mutual

/-- How many arrays an element holds, itself included. -/
def Element.arrays : Element α → Nat
  | .leaf _ => 0
  | .array items => arraysIn items + 1

def arraysIn : List (Element α) → Nat
  | [] => 0
  | item :: items => item.arrays + arraysIn items

end

theorem arraysIn_append (items items' : List (Element α)) :
    arraysIn (items ++ items') = arraysIn items + arraysIn items' := by
  induction items with
  | nil => simp [arraysIn]
  | cons item items ih => rw [List.cons_append, arraysIn, ih, arraysIn, Nat.add_assoc]

theorem Element.arraysIn_spread_le (item : Element α) : arraysIn item.spread ≤ item.arrays := by
  cases item with
  | leaf a => exact Nat.le_refl _
  | array items => exact Nat.le_succ _

theorem arraysIn_flatMap_spread_le (items : List (Element α)) :
    arraysIn (items.flatMap Element.spread) ≤ arraysIn items := by
  induction items with
  | nil => exact Nat.le_refl _
  | cons item items ih =>
    rw [List.flatMap_cons, arraysIn_append]
    exact Nat.add_le_add item.arraysIn_spread_le ih

/-- Concatenation leaves only an array without arrays as it is. -/
theorem flatMap_spread_eq_iff {array : List (Element α)} :
    array.flatMap Element.spread = array ↔ ∀ item ∈ array, ∃ a, item = .leaf a := by
  constructor
  · intro h item hitem
    cases item with
    | leaf a => exact ⟨a, rfl⟩
    | array items =>
      obtain ⟨before, after, rfl⟩ := List.append_of_mem hitem
      have hcount := congrArg arraysIn h
      rw [List.flatMap_append, List.flatMap_cons] at hcount
      simp only [arraysIn_append, arraysIn, Element.spread, Element.arrays] at hcount
      have hbefore := arraysIn_flatMap_spread_le before
      have hafter := arraysIn_flatMap_spread_le after
      omega
  · intro h
    induction array with
    | nil => rfl
    | cons item array ih =>
      obtain ⟨a, rfl⟩ := h item (List.mem_cons_self ..)
      rw [List.flatMap_cons, ih fun i hi => h i (List.mem_cons_of_mem _ hi)]
      rfl

theorem flatten_map_spread (groups : List (List (Element α))) :
    (groups.map (·.flatMap Element.spread)).flatten =
      groups.flatten.flatMap Element.spread := by
  rw [← List.flatMap_def, List.flatten_eq_flatMap, List.flatMap_assoc]
  rfl

/-- An array is chunked without loss when no element is an array. -/
theorem chunk_cut_iff {array : List (Element α)} {num : ℕ+} :
    Cut num array (chunk array num) ∧ chunk array num = toChunkedArray array num ↔
      ∀ item ∈ array, ∃ a, item = .leaf a := by
  have hnum : (num : Nat) = num.natPred + 1 := num.natPred_add_one.symm
  constructor
  · rintro ⟨hcut, -⟩
    have hflatten := hcut.flatten
    rw [chunk_eq, toChunkedArray_eq, flatten_map_spread, flatten_chunks] at hflatten
    exact flatMap_spread_eq_iff.mp hflatten
  · intro h
    have hchunk : chunk array num = toChunkedArray array num := by
      rw [chunk_eq]
      refine (List.map_congr_left fun group hgroup => ?_).trans (List.map_id _)
      apply flatMap_spread_eq_iff.mpr
      intro item hitem
      apply h
      rw [← flatten_chunks num.natPred array, ← toChunkedArray_eq]
      exact List.mem_flatten.mpr ⟨group, hgroup, hitem⟩
    refine ⟨?_, hchunk⟩
    rw [hchunk, hnum, cut_iff, toChunkedArray_eq]

/-- Elements of which none is an array. -/
theorem chunk_leaves (items : List α) (num : ℕ+) :
    chunk (items.map .leaf) num = (chunks num.natPred items).map (·.map .leaf) := by
  have hleaf : ∀ item ∈ items.map Element.leaf, ∃ a, item = Element.leaf a := by
    intro item hitem
    obtain ⟨a, -, rfl⟩ := List.mem_map.mp hitem
    exact ⟨a, rfl⟩
  rw [(chunk_cut_iff.mpr hleaf).2, toChunkedArray_eq, chunks_map]

end

end DefiBackend
