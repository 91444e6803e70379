import Mathlib.Data.List.Basic
import Mathlib.Logic.Function.Basic

/-! # Key-value stores

A store maps each key to the value under it, if there is one. `mset` writes a list of entries in
order, so that of two entries with one key the later one stays; `erase` is the expiry of a key.
The value under a key after `mset` is that of the last entry for the key, or else the value from
before (`mset_apply`). -/

namespace DefiBackend
namespace Theory

/-- A key-value store. -/
def Store (κ : Type u) (β : Type v) := κ → Option β

namespace Store
variable {κ : Type u} {β : Type v} {st : Store κ β} {k k' : κ} {v : β}

def empty : Store κ β := fun _ => none

@[simp] theorem empty_apply : (empty : Store κ β) k = none := rfl

variable [DecidableEq κ]

/-- Write one entry. -/
def set (st : Store κ β) (k : κ) (v : β) : Store κ β := Function.update st k (some v)

/-- Drop a key. -/
def erase (st : Store κ β) (k : κ) : Store κ β := Function.update st k none

/-- Write a list of entries, in order. -/
def mset (st : Store κ β) (entries : List (κ × β)) : Store κ β :=
  entries.foldl (fun st e => st.set e.1 e.2) st

@[simp] theorem set_self : st.set k v k = some v := Function.update_self ..

theorem set_of_ne (h : k' ≠ k) : st.set k v k' = st k' := Function.update_of_ne h ..

/-- What stands in a store after a write is new or old. -/
theorem of_set {v' : β} (h : st.set k v k' = some v') :
    k' = k ∧ v' = v ∨ k' ≠ k ∧ st k' = some v' := by
  by_cases hk : k' = k
  · subst hk
    rw [set_self] at h
    exact .inl ⟨rfl, (Option.some.inj h).symm⟩
  · rw [set_of_ne hk] at h
    exact .inr ⟨hk, h⟩

@[simp] theorem erase_self : st.erase k k = none := Function.update_self ..

theorem erase_of_ne (h : k' ≠ k) : st.erase k k' = st k' := Function.update_of_ne h ..

/-- An erased store holds nothing new. -/
theorem of_erase (h : st.erase k k' = some v) : st k' = some v := by
  by_cases hk : k' = k
  · subst hk; simp at h
  · rwa [erase_of_ne hk] at h

@[simp] theorem mset_nil : st.mset [] = st := rfl

@[simp] theorem mset_cons : st.mset (e :: es) = (st.set e.1 e.2).mset es := rfl

theorem mset_map (st : Store κ β) (f : α → κ × β) (l : List α) :
    st.mset (l.map f) = l.foldl (fun st a => st.set (f a).1 (f a).2) st := List.foldl_map

/-- The last entry for a key stays, and a key without entries keeps its value. -/
theorem mset_apply (es : List (κ × β)) : st.mset es k = (es.reverse.lookup k).or (st k) := by
  induction es generalizing st with
  | nil => rfl
  | cons e es ih =>
    obtain ⟨k', v⟩ := e
    rw [mset_cons, ih, List.reverse_cons, List.lookup_append]
    by_cases hk : k = k'
    · subst hk; cases es.reverse.lookup k <;> simp
    · have hk' : (k == k') = false := by simpa using hk
      rw [set_of_ne hk]
      cases es.reverse.lookup k <;> simp [List.lookup_cons, hk']

/-- A value under a key after `mset` comes from an entry or from before. -/
theorem of_mset {es : List (κ × β)} (h : st.mset es k = some v) : (k, v) ∈ es ∨ st k = some v := by
  induction es generalizing st with
  | nil => exact .inr h
  | cons e es ih =>
    rw [mset_cons] at h
    rcases ih h with h | h
    · exact .inl (List.mem_cons_of_mem _ h)
    · by_cases hk : k = e.1
      · subst hk
        simp only [set_self, Option.some.injEq] at h
        exact .inl (by simp [← h])
      · rw [set_of_ne hk] at h
        exact .inr h

/-- Under the key of an entry stands the value of some entry. -/
theorem mset_of_mem (st : Store κ β) {es : List (κ × β)} (h : (k, v) ∈ es) :
    ∃ v', st.mset es k = some v' ∧ (k, v') ∈ es := by
  rw [mset_apply]
  cases hl : es.reverse.lookup k with
  | none => simpa using List.lookup_eq_none_iff.mp hl _ (List.mem_reverse.mpr h)
  | some v' =>
    obtain ⟨l₁, l₂, he, -⟩ := List.lookup_eq_some_iff.mp hl
    exact ⟨v', rfl, List.mem_reverse.mp (by simp [he])⟩

/-- A key without an entry keeps its value. -/
theorem mset_of_notMem {es : List (κ × β)} (h : ∀ e ∈ es, e.1 ≠ k) : st.mset es k = st k := by
  induction es generalizing st with
  | nil => rfl
  | cons e es ih =>
    rw [mset_cons, ih fun e' he' => h e' (List.mem_cons_of_mem _ he'),
      set_of_ne (h e (List.mem_cons_self ..)).symm]

/-- Writing entries drops no key. -/
theorem isSome_mset {es : List (κ × β)} (h : (st k).isSome) : (st.mset es k).isSome := by
  by_cases hk : ∃ e ∈ es, e.1 = k
  · obtain ⟨e, he, rfl⟩ := hk
    obtain ⟨v', hv', -⟩ := st.mset_of_mem he
    rw [hv']
    rfl
  · rw [mset_of_notMem fun e he heq => hk ⟨e, he, heq⟩]
    exact h

end Store
end Theory
end DefiBackend
