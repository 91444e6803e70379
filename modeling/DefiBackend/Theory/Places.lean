import Mathlib.Data.List.Nodup

/-! # Places of a list

Elements of a list that are referred to by their places and changed where they stand.

* `places P l`: the places of the elements with a property;
* `modifyAt_places`: changing the elements at these places changes all elements with the property;
* `pairwise_iff_getElem?`: relations between elements in their order. -/

namespace DefiBackend
namespace Theory

variable {α : Type u} {β : Type v}

/-- The places of the elements with a property. -/
def places (P : α → Bool) (l : List α) : List Nat := (l.zipIdx.filter fun x => P x.1).map Prod.snd

/-- The elements at some places are changed, one after the other. -/
def modifyAt (f : α → α) (refs : List Nat) (l : List α) : List α :=
  refs.foldl (fun l i => l.modify i f) l

/-- The elements at some places. -/
def elementsAt (refs : List Nat) (l : List α) : List α := refs.filterMap (l[·]?)

variable {γ : Type w} {P Q : α → Bool} {l : List α} {refs : List Nat}

theorem mem_places : i ∈ places P l ↔ ∃ a, l[i]? = some a ∧ P a := by
  simp [places, List.mem_zipIdx_iff_getElem?]

theorem nodup_places (P : α → Bool) (l : List α) : (places P l).Nodup := by
  have hnodup : (l.zipIdx.map Prod.snd).Nodup := by
    rw [List.zipIdx_map_snd]
    exact List.nodup_range'
  exact hnodup.sublist (List.filter_sublist.map _)

theorem places_eq_nil : places P l = [] ↔ ∀ a ∈ l, ¬ P a := by
  rw [List.eq_nil_iff_forall_not_mem]
  constructor
  · intro h a ha hP
    obtain ⟨i, hi⟩ := List.getElem?_of_mem ha
    exact h i (mem_places.mpr ⟨a, hi, hP⟩)
  · intro h i hi
    obtain ⟨a, ha, hP⟩ := mem_places.mp hi
    exact h a (List.mem_of_getElem? ha) hP

/-- Places that are filtered by what stands there after a change of all elements. -/
theorem filter_places (g : α → β) (Q : β → Bool) :
    (places P l).filter (fun i => ((l.map g)[i]?).any Q) = places (fun a => P a && Q (g a)) l := by
  rw [places, places, List.filter_map, List.filter_filter]
  refine congrArg _ (List.filter_congr fun x hx => ?_)
  have hget : l[x.2]? = some x.1 := List.mem_zipIdx_iff_getElem?.mp hx
  simp [hget, Bool.and_comm]

theorem elementsAt_places (g : α → β) :
    elementsAt (places P l) (l.map g) = (l.filter P).map g := by
  have hget : ∀ x ∈ l.zipIdx.filter fun x => P x.1,
      ((fun i => (l.map g)[i]?) ∘ Prod.snd) x = some (g x.1) := by
    intro x hx
    have hx' : l[x.2]? = some x.1 := List.mem_zipIdx_iff_getElem?.mp (List.mem_filter.mp hx).1
    simp [hx']
  rw [elementsAt, places, List.filterMap_map, List.filterMap_congr hget]
  conv_rhs => rw [← List.zipIdx_map_fst 0 l, List.filter_map, List.map_map]
  rw [← List.filterMap_eq_map]
  rfl

/-- The places of a property, each with a key of what stands there. -/
theorem keyed_places {κ : Type w} (key : α → κ) :
    (places P l).filterMap (fun i => (l[i]?).map fun a => (key a, i)) =
      (l.zipIdx.filter fun x => P x.1).map fun x => (key x.1, x.2) := by
  have hget : ∀ x ∈ l.zipIdx.filter fun x => P x.1,
      ((fun i => (l[i]?).map fun a => (key a, i)) ∘ Prod.snd) x = some (key x.1, x.2) := by
    intro x hx
    have hx' : l[x.2]? = some x.1 := List.mem_zipIdx_iff_getElem?.mp (List.mem_filter.mp hx).1
    simp [hx']
  rw [places, List.filterMap_map, List.filterMap_congr hget, ← List.filterMap_eq_map]
  rfl

/-- The places under one key. -/
theorem filter_keyed_places {κ : Type w} [DecidableEq κ] (key : α → κ) (k : κ) :
    ((((l.zipIdx.filter fun x => P x.1).map fun x => (key x.1, x.2)).filter (·.1 = k)).map
      Prod.snd) = places (fun a => P a && key a = k) l := by
  rw [List.filter_map, List.map_map, List.filter_filter, places]
  refine congrArg _ (List.filter_congr fun x _ => ?_)
  exact Bool.and_comm _ _

theorem getElem?_modifyAt {f : α → α} (h : refs.Nodup) :
    (modifyAt f refs l)[i]? = if i ∈ refs then l[i]?.map f else l[i]? := by
  induction refs generalizing l with
  | nil => rfl
  | cons j refs ih =>
    obtain ⟨hj, hrefs⟩ := List.nodup_cons.mp h
    have hcons : modifyAt f (j :: refs) l = modifyAt f refs (l.modify j f) := rfl
    rw [hcons, ih hrefs, List.getElem?_modify]
    by_cases hij : j = i
    · subst hij
      simp [hj]
    · simp [hij, Ne.symm hij]

/-- Changing the elements at the places of a property. -/
theorem modifyAt_places (g : α → β) (f : β → β) :
    modifyAt f (places P l) (l.map g) = l.map fun a => if P a then f (g a) else g a := by
  refine List.ext_getElem? fun i => ?_
  rw [getElem?_modifyAt (nodup_places P l), List.getElem?_map, List.getElem?_map]
  cases hi : l[i]? with
  | none => simp
  | some a =>
    have hmem : i ∈ places P l ↔ P a := by simp [mem_places, hi]
    by_cases hP : P a
    · simp [hmem, hP]
    · simp [hmem, hP]

/-- Lists with the same keys, where what is read of the elements depends on their keys. -/
theorem map_eq_map_of_map_eq {key : α → β} {f : α → γ} {l l' : List α}
    (h : l.map key = l'.map key) (hf : ∀ a ∈ l, ∀ b ∈ l', key a = key b → f a = f b) :
    l.map f = l'.map f := by
  induction l generalizing l' with
  | nil => rw [List.map_eq_nil_iff.mp h.symm]
  | cons a l ih =>
    obtain ⟨b, l', rfl, hb, htail⟩ := List.map_eq_cons_iff.mp h.symm
    rw [List.map_cons, List.map_cons, hf a (List.mem_cons_self ..) b (List.mem_cons_self ..) hb.symm,
      ih htail.symm fun a ha b hb => hf a (List.mem_cons_of_mem _ ha) b (List.mem_cons_of_mem _ hb)]

/-- What comes before an element among those with a property, when these stand for the elements of
another list and their places. -/
theorem filter_take_of_zipIdx {r : List γ} {g : α → γ × Nat} {a : α} {n : Nat}
    (h : (l.filter P).map g = r.zipIdx) (hn : l[n]? = some a) (ha : P a) :
    ((l.take n).filter P).map (fun a => (g a).1) = r.take (g a).2 := by
  obtain ⟨hlt, hget⟩ := List.getElem?_eq_some_iff.mp hn
  have hsplit : ((l.take n).filter P).map g ++ g a :: ((l.drop (n + 1)).filter P).map g =
      r.zipIdx := by
    rw [← h, ← List.map_cons, ← List.map_append, ← List.filter_cons_of_pos ha, ← hget,
      ← List.drop_eq_getElem_cons hlt, ← List.filter_append, List.take_append_drop]
  have hplace : r.zipIdx[(((l.take n).filter P).map g).length]? = some (g a) := by
    rw [← hsplit, List.getElem?_append_right (Nat.le_refl _), Nat.sub_self]
    rfl
  have hlength : (g a).2 = (((l.take n).filter P).map g).length := by
    rw [List.getElem?_zipIdx] at hplace
    obtain ⟨_, -, hpair⟩ := Option.map_eq_some_iff.mp hplace
    rw [← hpair, Nat.zero_add]
  have hfst : r = ((l.take n).filter P).map (fun a => (g a).1) ++
      (g a).1 :: ((l.drop (n + 1)).filter P).map fun a => (g a).1 := by
    rw [← List.zipIdx_map_fst 0 r, ← hsplit]
    simp [Function.comp_def]
  conv_rhs => rw [hlength, List.length_map, ← List.length_map fun a => (g a).1, hfst]
  rw [List.take_left]

/-- A list gives the elements of another what they have, by their places, if those that have
something come first and have what is in the list. -/
theorem forall_getElem?_eq_iff {f : α → Option β} {r : List β} :
    (∀ (i : Nat) (a : α), l[i]? = some a → r[i]? = f a) ↔
      r.take l.length = l.filterMap f ∧ l.Pairwise fun a b => (f b).isSome → (f a).isSome := by
  induction l generalizing r with
  | nil => simp
  | cons a l ih =>
    have hplaces : (∀ (i : Nat) (b : α), (a :: l)[i]? = some b → r[i]? = f b) ↔
        r.head? = f a ∧ ∀ (i : Nat) (b : α), l[i]? = some b → r.tail[i]? = f b := by
      constructor
      · intro h
        refine ⟨by rw [List.head?_eq_getElem?]; exact h 0 a rfl, fun i b hb => ?_⟩
        rw [List.getElem?_tail]
        exact h (i + 1) b hb
      · rintro ⟨hhead, htail⟩ i b hb
        cases i with
        | zero =>
          cases hb
          rw [← List.head?_eq_getElem?, hhead]
        | succ i =>
          rw [← List.getElem?_tail]
          exact htail i b hb
    rw [hplaces, ih, List.pairwise_cons]
    cases ha : f a with
    | none =>
      have hnone : (∀ b ∈ l, (f b).isSome → (none : Option β).isSome) ↔ l.filterMap f = [] := by
        simp [List.filterMap_eq_nil_iff]
      rw [hnone, List.filterMap_cons_none ha]
      constructor
      · rintro ⟨hhead, htail, hpairwise⟩
        rw [List.head?_eq_none_iff.mp hhead, List.tail_nil, List.take_nil] at htail
        rw [List.head?_eq_none_iff.mp hhead, List.take_nil]
        exact ⟨htail, htail.symm, hpairwise⟩
      · rintro ⟨htake, hnil, hpairwise⟩
        rw [hnil] at htake ⊢
        cases r with
        | nil => exact ⟨rfl, List.take_nil, hpairwise⟩
        | cons b r => cases htake
    | some b =>
      have hall : (∀ c ∈ l, (f c).isSome → (some b : Option β).isSome) := fun _ _ _ => rfl
      rw [List.filterMap_cons_some ha]
      cases r with
      | nil => simp
      | cons c r =>
        simp only [List.head?_cons, List.tail_cons, List.length_cons, List.take_succ_cons,
          List.cons.injEq, Option.some.injEq, and_assoc]
        rw [and_iff_right hall]

/-- Elements with one property or another, those with both of them twice. -/
theorem filter_append_filter_perm (P Q : α → Bool) (l : List α) :
    (l.filter P ++ l.filter Q).Perm
      (l.filter (fun a => P a || Q a) ++ l.filter fun a => P a && Q a) := by
  induction l with
  | nil => exact .refl _
  | cons a l ih =>
    have hmiddle : ∀ l' l'' : List α, (l' ++ a :: l'').Perm (a :: (l' ++ l'')) :=
      fun _ _ => List.perm_middle
    cases hP : P a <;> cases hQ : Q a <;> simp only [List.filter_cons, hP, hQ, Bool.or_true,
      Bool.or_false, Bool.and_true, Bool.and_false, if_true, Bool.false_eq_true, if_false]
    · exact ih
    · exact (hmiddle _ _).trans (ih.cons a)
    · exact ih.cons a
    · exact ((hmiddle _ _).cons a).trans
        (((ih.cons a).cons a).trans ((hmiddle _ _).symm.cons a))

/-- Elements that are related in their order. -/
theorem pairwise_iff_getElem? {R : α → α → Prop} : l.Pairwise R ↔
    ∀ ⦃i j : Nat⦄ ⦃a b : α⦄, i < j → l[i]? = some a → l[j]? = some b → R a b := by
  rw [List.pairwise_iff_getElem]
  constructor
  · intro h i j a b hij hi hj
    obtain ⟨hi', rfl⟩ := List.getElem?_eq_some_iff.mp hi
    obtain ⟨hj', rfl⟩ := List.getElem?_eq_some_iff.mp hj
    exact h i j hi' hj' hij
  · intro h i j hi hj hij
    exact h hij (List.getElem?_eq_getElem hi) (List.getElem?_eq_getElem hj)

/-- The first places of the elements are their own places exactly if no element is repeated. -/
theorem map_idxOf_eq_range_iff [DecidableEq α] {l : List α} :
    l.map (l.idxOf ·) = List.range l.length ↔ l.Nodup := by
  constructor
  · intro h
    refine List.Nodup.of_map (l.idxOf ·) ?_
    rw [h]
    exact List.nodup_range
  · intro h
    refine List.ext_getElem (by rw [List.length_map, List.length_range]) fun i _ _ => ?_
    rw [List.getElem_map, List.getElem_range, h.idxOf_getElem]

end Theory
end DefiBackend
