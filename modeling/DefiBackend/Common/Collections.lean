import Mathlib.Data.List.Dedup
import Mathlib.Data.List.Perm.Subperm

/-! # Collections

Sets in the order of insertion, as `Set` has them, and `groupBy`: the items of a list under their
keys, keys in the order of their first items. -/

namespace DefiBackend

section
variable {α : Type u} [DecidableEq α]

/-- `set.add(a)`. -/
def addToSet (set : List α) (a : α) : List α := if a ∈ set then set else set ++ [a]

/-- `Array.from(new Set(list))`: every element at its first place. -/
def unique (list : List α) : List α := list.foldl addToSet []

/-- The elements of a list that are not in a set, each once. -/
def fresh : List α → List α → List α
  | _, [] => []
  | set, a :: list => if a ∈ set then fresh set list else a :: fresh (set ++ [a]) list

/-- The elements of a list that are in a set or stand in the list before. -/
def surplus : List α → List α → List α
  | _, [] => []
  | set, a :: list => if a ∈ set then a :: surplus set list else surplus (set ++ [a]) list

theorem mem_addToSet {set : List α} {a b : α} : b ∈ addToSet set a ↔ b ∈ set ∨ b = a := by
  unfold addToSet
  split
  · next h => exact ⟨.inl, fun hb => hb.elim id fun he => he ▸ h⟩
  · rw [List.mem_append, List.mem_singleton]

theorem nodup_addToSet {set : List α} (h : set.Nodup) (a : α) :
    (addToSet set a).Nodup := by
  rw [addToSet]
  split
  · exact h
  · next hnew =>
    rw [← List.concat_eq_append]
    exact h.concat hnew

theorem foldl_addToSet (set list : List α) : list.foldl addToSet set = set ++ fresh set list := by
  induction list generalizing set with
  | nil => simp [fresh]
  | cons a list ih =>
    rw [List.foldl_cons, ih, addToSet, fresh]
    split <;> simp

theorem unique_eq_fresh (list : List α) : unique list = fresh [] list := by
  rw [unique, foldl_addToSet, List.nil_append]

theorem mem_fresh {set list : List α} {a : α} : a ∈ fresh set list ↔ a ∈ list ∧ a ∉ set := by
  induction list generalizing set with
  | nil => simp [fresh]
  | cons b list ih =>
    rw [fresh]
    split
    · rename_i hb
      rw [ih, List.mem_cons]
      exact ⟨fun ⟨h, hset⟩ => ⟨.inr h, hset⟩,
        fun ⟨h, hset⟩ => ⟨h.resolve_left fun e => hset (e ▸ hb), hset⟩⟩
    · rename_i hb
      simp only [List.mem_cons, ih, List.mem_append, List.not_mem_nil, or_false, not_or]
      constructor
      · rintro (rfl | ⟨h, hset, -⟩)
        · exact ⟨.inl rfl, hb⟩
        · exact ⟨.inr h, hset⟩
      · rintro ⟨h, hset⟩
        by_cases hab : a = b
        · exact .inl hab
        · exact .inr ⟨h.resolve_left hab, hset, hab⟩

theorem mem_foldl_addToSet {set list : List α} {a : α} :
    a ∈ list.foldl addToSet set ↔ a ∈ set ∨ a ∈ list := by
  rw [foldl_addToSet, List.mem_append, mem_fresh]
  by_cases h : a ∈ set <;> simp [h]

@[simp] theorem mem_unique {list : List α} {a : α} : a ∈ unique list ↔ a ∈ list := by
  simp [unique_eq_fresh, mem_fresh]

/-- A list is its elements once and the surplus ones. -/
theorem perm_fresh_append_surplus (set list : List α) :
    list.Perm (fresh set list ++ surplus set list) := by
  induction list generalizing set with
  | nil => exact .nil
  | cons a list ih =>
    rw [fresh, surplus]
    split
    · exact (ih set).cons a |>.trans List.perm_middle.symm
    · exact (ih (set ++ [a])).cons a

theorem nodup_fresh (set list : List α) : (fresh set list).Nodup := by
  induction list generalizing set with
  | nil => exact .nil
  | cons a list ih =>
    rw [fresh]
    split
    · exact ih set
    · refine List.nodup_cons.mpr ⟨fun h => ?_, ih _⟩
      exact (mem_fresh.mp h).2 (by simp)

theorem nodup_unique (list : List α) : (unique list).Nodup := by
  rw [unique_eq_fresh]
  exact nodup_fresh [] list

/-- A list without repetitions has no surplus. -/
theorem fresh_eq_self {list : List α} (h : list.Nodup) (set : List α)
    (hset : ∀ a ∈ list, a ∉ set) : fresh set list = list := by
  induction list generalizing set with
  | nil => rfl
  | cons a list ih =>
    obtain ⟨ha, hlist⟩ := List.nodup_cons.mp h
    rw [fresh, if_neg (hset a (List.mem_cons_self ..)), ih hlist]
    intro b hb hmem
    rcases List.mem_append.mp hmem with hmem | hmem
    · exact hset b (List.mem_cons_of_mem _ hb) hmem
    · exact ha (List.mem_singleton.mp hmem ▸ hb)

@[simp] theorem unique_unique (list : List α) : unique (unique list) = unique list := by
  rw [unique_eq_fresh list, unique_eq_fresh (fresh [] list),
    fresh_eq_self (nodup_fresh [] list) [] fun _ _ => List.not_mem_nil]

@[simp] theorem unique_eq_nil {list : List α} : unique list = [] ↔ list = [] := by
  simp only [List.eq_nil_iff_forall_not_mem, mem_unique]

/-- Nothing is lost with surplus elements that contribute nothing. -/
theorem flatMap_fresh {f : α → List β} (set list : List α) (h : ∀ a ∈ surplus set list, f a = []) :
    list.flatMap f = (fresh set list).flatMap f := by
  induction list generalizing set with
  | nil => rfl
  | cons a list ih =>
    rw [fresh]
    rw [surplus] at h
    split at h
    · rename_i ha
      rw [if_pos ha, List.flatMap_cons, h a (List.mem_cons_self ..), List.nil_append]
      exact ih set fun b hb => h b (List.mem_cons_of_mem _ hb)
    · rename_i ha
      rw [if_neg ha, List.flatMap_cons, List.flatMap_cons, ih _ h]

end

section
variable {κ : Type u} {α : Type v} [DecidableEq κ]

/-- Groups of items by key. -/
abbrev Groups (κ : Type u) (α : Type v) := List (κ × List α)

namespace Groups

/-- The items under a key; no group is an empty one. -/
def get (groups : Groups κ α) (k : κ) : List α := (groups.lookup k).getD []

/-- Add an item to the group of its key, or begin one. -/
def push : Groups κ α → κ → α → Groups κ α
  | [], k, a => [(k, [a])]
  | group :: groups, k, a =>
    if group.1 = k then (k, group.2 ++ [a]) :: groups else group :: push groups k a

@[simp] theorem get_nil {k : κ} : get ([] : Groups κ α) k = [] := rfl

theorem get_cons {group : κ × List α} {groups : Groups κ α} {k : κ} :
    get (group :: groups) k = if group.1 = k then group.2 else get groups k := by
  obtain ⟨k', as⟩ := group
  by_cases h : k' = k
  · subst h
    simp [get]
  · have h' : (k == k') = false := by simpa using Ne.symm h
    simp [get, List.lookup_cons, h', h]

theorem get_push {groups : Groups κ α} {k k' : κ} {a : α} :
    get (groups.push k a) k' = if k = k' then get groups k' ++ [a] else get groups k' := by
  induction groups with
  | nil => simp [push, get_cons]
  | cons group groups ih =>
    rw [push]
    by_cases hk : group.1 = k
    · subst hk
      by_cases hk' : group.1 = k' <;> simp [get_cons, hk']
    · rw [if_neg hk, get_cons, ih, get_cons]
      by_cases hk' : group.1 = k'
      · subst hk'; simp [Ne.symm hk]
      · simp [hk']

/-- An empty group for a key that has none. -/
def ensure (groups : Groups κ α) (k : κ) : Groups κ α :=
  if (groups.lookup k).isSome then groups else groups ++ [(k, [])]

/-- All items of all groups. -/
def items (groups : Groups κ α) : List α := groups.flatMap Prod.snd

theorem items_push {groups : Groups κ α} {k : κ} {a : α} :
    (groups.push k a).items.Perm (a :: groups.items) := by
  induction groups with
  | nil => simp [push, items]
  | cons group groups ih =>
    rw [push]
    split
    · simp [items, List.perm_middle]
    · simpa [items] using (ih.append_left group.2).trans List.perm_middle

theorem items_ensure {groups : Groups κ α} {k : κ} : (groups.ensure k).items = groups.items := by
  unfold ensure
  split <;> simp [items]

end Groups

/-- `groupBy`. -/
def groupBy (key : α → κ) (list : List α) : Groups κ α :=
  list.foldl (fun groups a => groups.push (key a) a) []

/-- Grouping loses and doubles no item. -/
theorem items_groupBy (key : α → κ) (list : List α) : (groupBy key list).items.Perm list := by
  have h : ∀ groups : Groups κ α,
      (list.foldl (fun groups a => groups.push (key a) a) groups).items.Perm
        (groups.items ++ list) := by
    induction list with
    | nil => simp
    | cons a list ih =>
      intro groups
      exact (ih _).trans ((Groups.items_push.append_right list).trans List.perm_middle.symm)
  simpa [groupBy, Groups.items] using h []

end

/-- A list by the keys of its items. -/
theorem flatMap_filter_perm {κ : Type u} {α : Type v} [DecidableEq κ] {key : α → κ} {ks : List κ}
    {l : List α} (hnodup : ks.Nodup) (h : ∀ a ∈ l, key a ∈ ks) :
    (ks.flatMap fun k => l.filter (key · = k)).Perm l := by
  induction ks generalizing l with
  | nil =>
    obtain rfl : l = [] := List.eq_nil_iff_forall_not_mem.mpr fun a ha => List.not_mem_nil (h a ha)
    rfl
  | cons k ks ih =>
    obtain ⟨hk, hks⟩ := List.nodup_cons.mp hnodup
    have hrest : ∀ a ∈ l.filter (fun a => !decide (key a = k)), key a ∈ ks := fun a ha => by
      obtain ⟨ha, hne⟩ := List.mem_filter.mp ha
      exact (List.mem_cons.mp (h a ha)).resolve_left (by simpa using hne)
    have hothers : (ks.flatMap fun k' => l.filter (key · = k')) =
        ks.flatMap fun k' => (l.filter (fun a => !decide (key a = k))).filter (key · = k') := by
      refine List.flatMap_congr fun k' hk' => ?_
      rw [List.filter_filter]
      refine List.filter_congr fun a _ => ?_
      by_cases hka : key a = k'
      · have hne : k' ≠ k := fun heq => hk (heq ▸ hk')
        simp [hka, hne]
      · simp [hka]
    rw [List.flatMap_cons, hothers]
    exact ((ih hks hrest).append_left _).trans (List.filter_append_perm ..)

/-- `list.slice(start, stop)`: negative places count from the end. -/
def slice (list : List α) (start stop : Int) : List α :=
  let place (i : Int) : Nat := (if i < 0 then list.length + i else i).toNat
  (list.take (place stop)).drop (place start)

@[simp] theorem slice_nil (start stop : Int) : slice ([] : List α) start stop = [] := by
  simp [slice]

theorem slice_sublist (list : List α) (start stop : Int) : (slice list start stop).Sublist list :=
  (List.drop_sublist _ _).trans (List.take_sublist _ _)

/-- The list that comes of one element, when nothing comes of the others. -/
theorem flatMap_eq_of_nodup {f : α → List β} {l : List α} {a : α} (hnodup : l.Nodup) (ha : a ∈ l)
    (h : ∀ b ∈ l, b ≠ a → f b = []) : l.flatMap f = f a := by
  induction l with
  | nil => cases ha
  | cons b l ih =>
    obtain ⟨hb, hnodup⟩ := List.nodup_cons.mp hnodup
    rw [List.flatMap_cons]
    rcases List.mem_cons.mp ha with rfl | ha
    · have hnil : l.flatMap f = [] := List.flatMap_eq_nil_iff.mpr fun c hc =>
        h c (List.mem_cons_of_mem _ hc) fun hca => hb (hca ▸ hc)
      rw [hnil, List.append_nil]
    · have hne : b ≠ a := fun hba => hb (hba ▸ ha)
      rw [h b (List.mem_cons_self ..) hne, List.nil_append]
      exact ih hnodup ha fun c hc => h c (List.mem_cons_of_mem _ hc)

/-- Functions that keep the same elements give the same list exactly when they agree. -/
theorem filterMap_eq_iff {f g : α → Option β} {l : List α}
    (h : ∀ a ∈ l, (f a).isSome = (g a).isSome) :
    l.filterMap f = l.filterMap g ↔ ∀ a ∈ l, f a = g a := by
  induction l with
  | nil => simp
  | cons a l ih =>
    obtain ⟨ha, hl⟩ := List.forall_mem_cons.mp h
    rw [List.forall_mem_cons, ← ih hl]
    cases hf : f a with
    | none =>
      have hg : g a = none := by simpa [hf] using ha.symm
      simp [hf, hg]
    | some b =>
      obtain ⟨c, hg⟩ := Option.isSome_iff_exists.mp (ha.symm.trans (by rw [hf]; rfl))
      simp [hf, hg]

theorem filterMap_filter_isSome (f : α → Option β) (l : List α) :
    (l.filter fun a => (f a).isSome).filterMap f = l.filterMap f := by
  rw [List.filterMap_filter]
  congr
  funext a
  cases f a <;> rfl

/-- A filter that keeps a first part of a list commutes with taking a first part. -/
theorem filter_take {p : α → Bool} {l : List α} (h : l.Pairwise fun a b => p b → p a) (k : Nat) :
    (l.take k).filter p = (l.filter p).take k := by
  induction l generalizing k with
  | nil => simp
  | cons a l ih =>
    obtain ⟨ha, hl⟩ := List.pairwise_cons.mp h
    cases k with
    | zero => simp
    | succ k =>
      rw [List.take_succ_cons]
      by_cases hp : p a
      · rw [List.filter_cons_of_pos hp, List.filter_cons_of_pos hp, List.take_succ_cons, ih hl]
      · have hnone : ∀ b ∈ l, ¬ p b := fun b hb hpb => hp (ha b hb hpb)
        rw [List.filter_cons_of_neg hp, List.filter_cons_of_neg hp, List.filter_eq_nil_iff.mpr hnone,
          List.filter_eq_nil_iff.mpr fun b hb => hnone b (List.mem_of_mem_take hb), List.take_nil]

/-- An element that is replaced stands between the others. -/
theorem exists_of_getElem?_set {l : List α} (h : l[n]? = some a) :
    ∃ l₁ l₂, l = l₁ ++ a :: l₂ ∧ ∀ b, l.set n b = l₁ ++ b :: l₂ := by
  obtain ⟨hn, rfl⟩ := List.getElem?_eq_some_iff.mp h
  refine ⟨l.take n, l.drop (n + 1), ?_, fun b => List.set_eq_take_append_cons_drop.trans (if_pos hn)⟩
  rw [← List.drop_eq_getElem_cons hn, List.take_append_drop]

theorem filterMap_set_of_eq {f : α → Option β} {l : List α} (h : l[n]? = some a) (hf : f b = f a) :
    (l.set n b).filterMap f = l.filterMap f := by
  obtain ⟨l₁, l₂, rfl, hset⟩ := exists_of_getElem?_set h
  rw [hset, List.filterMap_append, List.filterMap_append, List.filterMap_cons, List.filterMap_cons,
    hf]

/-- What is told of the images by the elements they come from. -/
theorem map_filterMap_sublist {f : α → Option β} {g : β → γ} {k : α → γ}
    (h : ∀ a b, f a = some b → g b = k a) (l : List α) :
    ((l.filterMap f).map g).Sublist (l.map k) := by
  induction l with
  | nil => exact .slnil
  | cons a l ih =>
    cases hf : f a with
    | none =>
      rw [List.filterMap_cons_none hf]
      exact ih.cons _
    | some b =>
      rw [List.filterMap_cons_some hf, List.map_cons, List.map_cons, h a b hf]
      exact ih.cons_cons _

theorem forall₂_set {R : α → β → Prop} {l : List α} {l' : List β} (H : List.Forall₂ R l l')
    (h : l'[n]? = some b) (hR : ∀ a, R a b → R a b') : List.Forall₂ R l (l'.set n b') := by
  induction H generalizing n with
  | nil => cases h
  | cons hab H ih =>
    cases n with
    | zero =>
      rw [List.getElem?_cons_zero, Option.some.injEq] at h
      exact .cons (hR _ (h ▸ hab)) H
    | succ n => exact .cons hab (ih h)

/-- An element without an image that is replaced by one with an image adds that image. -/
theorem filterMap_set_perm {f : α → Option β} {l : List α} (h : l[n]? = some a) (hf : f a = none)
    (hb : f b = some c) : ((l.set n b).filterMap f).Perm (c :: l.filterMap f) := by
  obtain ⟨l₁, l₂, rfl, hset⟩ := exists_of_getElem?_set h
  rw [hset, List.filterMap_append, List.filterMap_append, List.filterMap_cons_none hf,
    List.filterMap_cons_some hb]
  exact List.perm_middle

/-- A sequence over the elements of a duplicate-free list has the same images if and only if it
repeats none of the elements that have one. -/
theorem filterMap_perm_iff [DecidableEq α] {f : α → Option β} {l s : List α} (nodup : l.Nodup)
    (mem : ∀ a, a ∈ s ↔ a ∈ l) :
    (s.filterMap f).Perm (l.filterMap f) ↔ ∀ a ∈ l, (f a).isSome → s.count a = 1 := by
  have mem_filter : ∀ a, a ∈ s.filter (fun a => (f a).isSome) ↔
      a ∈ l.filter (fun a => (f a).isSome) := fun a => by
    rw [List.mem_filter, List.mem_filter, mem a]
  have nodup_filter := nodup.filter (fun a => (f a).isSome)
  refine ⟨fun h a ha image => ?_, fun once => ?_⟩
  · have lengths : (s.filter fun a => (f a).isSome).length ≤
        (l.filter fun a => (f a).isSome).length := by
      have := h.length_eq
      rw [List.length_filterMap_eq_countP, List.length_filterMap_eq_countP] at this
      rw [← List.countP_eq_length_filter, ← List.countP_eq_length_filter]
      exact Nat.le_of_eq this
    have perm := (nodup_filter.subperm fun a ha => (mem_filter a).mpr ha).perm_of_length_le lengths
    calc s.count a = (s.filter fun a => (f a).isSome).count a :=
          (List.count_filter (p := fun a => (f a).isSome) image).symm
      _ = (l.filter fun a => (f a).isSome).count a := perm.symm.count_eq a
      _ = l.count a := List.count_filter (p := fun a => (f a).isSome) image
      _ = 1 := List.count_eq_one_of_mem nodup ha
  · have nodup_s : (s.filter fun a => (f a).isSome).Nodup := by
      refine List.nodup_iff_count_le_one.mpr fun a => ?_
      by_cases ha : a ∈ s.filter fun a => (f a).isSome
      · obtain ⟨mem_s, image⟩ := List.mem_filter.mp ha
        exact Nat.le_of_eq <| (List.count_filter (p := fun a => (f a).isSome) image).trans
          (once a ((mem a).mp mem_s) image)
      · rw [List.count_eq_zero_of_not_mem ha]
        exact Nat.zero_le 1
    have perm := (List.perm_ext_iff_of_nodup nodup_s nodup_filter).mpr mem_filter
    rw [← filterMap_filter_isSome f s, ← filterMap_filter_isSome f l]
    exact perm.filterMap f

/-- A filter that loses no results loses no element with a result. -/
theorem filter_of_filterMap_eq {f : α → Option β} {p q : α → Bool} {l : List α}
    (hq : ∀ a, q a → p a) (h : (l.filter p).filterMap f = (l.filter q).filterMap f) :
    ∀ a ∈ l, p a → (f a).isSome → q a := by
  have hlength := congrArg List.length h
  rw [List.length_filterMap_eq_countP, List.length_filterMap_eq_countP, List.countP_filter,
    List.countP_filter, List.countP_eq_length_filter, List.countP_eq_length_filter] at hlength
  have hsublist : (l.filter fun a => (f a).isSome && q a).Sublist
      (l.filter fun a => (f a).isSome && p a) := by
    apply List.monotone_filter_right
    intro a ha
    obtain ⟨hsome, hqa⟩ := Bool.and_eq_true_iff.mp ha
    exact Bool.and_eq_true_iff.mpr ⟨hsome, hq a hqa⟩
  have heq := hsublist.eq_of_length hlength.symm
  intro a ha hp hsome
  have hmem : a ∈ l.filter fun a => (f a).isSome && p a :=
    List.mem_filter.mpr ⟨ha, Bool.and_eq_true_iff.mpr ⟨hsome, hp⟩⟩
  rw [← heq] at hmem
  exact (Bool.and_eq_true_iff.mp (List.mem_filter.mp hmem).2).2

theorem countP_flatMap_le {f g : α → List β} {p : β → Bool} {l : List α}
    (h : ∀ a ∈ l, (g a).countP p ≤ (f a).countP p) :
    (l.flatMap g).countP p ≤ (l.flatMap f).countP p := by
  induction l with
  | nil => exact Nat.le_refl _
  | cons a l ih =>
    obtain ⟨ha, hl⟩ := List.forall_mem_cons.mp h
    rw [List.flatMap_cons, List.flatMap_cons, List.countP_append, List.countP_append]
    exact Nat.add_le_add ha (ih hl)

/-- Lists of which each has at most as many of a kind as another, and all together as many, have
each as many. -/
theorem countP_eq_of_flatMap {f g : α → List β} {p : β → Bool} {l : List α}
    (hle : ∀ a ∈ l, (g a).countP p ≤ (f a).countP p)
    (h : (l.flatMap f).countP p = (l.flatMap g).countP p) :
    ∀ a ∈ l, (f a).countP p = (g a).countP p := by
  induction l with
  | nil => exact fun _ ha => by cases ha
  | cons a l ih =>
    obtain ⟨ha, hl⟩ := List.forall_mem_cons.mp hle
    have hrest := countP_flatMap_le hl
    rw [List.flatMap_cons, List.flatMap_cons, List.countP_append, List.countP_append] at h
    exact List.forall_mem_cons.mpr ⟨by omega, ih hl (by omega)⟩

/-- What is kept up to the first that stops, told from each and those before it. -/
theorem filterMap_before {f : Nat → Option β} {stops : Nat → Bool} {l : List Nat}
    (hsorted : l.Pairwise (· < ·)) (hstop : ∀ i ∈ l, stops i = true → f i = none) :
    (l.filterMap fun i => if ∀ j ∈ l, j < i → stops j = false then f i else none) =
      (l.takeWhile fun i => !stops i).filterMap f := by
  induction l with
  | nil => rfl
  | cons a l ih =>
    obtain ⟨hlt, hsorted⟩ := List.pairwise_cons.mp hsorted
    obtain ⟨ha, hstop⟩ := List.forall_mem_cons.mp hstop
    have hfirst : ∀ j ∈ a :: l, j < a → stops j = false := by
      refine List.forall_mem_cons.mpr ⟨fun h => absurd h (Nat.lt_irrefl a), fun j hj h => ?_⟩
      exact absurd h (Nat.lt_asymm (hlt j hj))
    rw [List.filterMap_cons, if_pos hfirst, List.takeWhile_cons]
    cases hstops : stops a with
    | true =>
      rw [ha hstops, if_neg (by decide), List.filterMap_nil, List.filterMap_eq_nil_iff]
      refine fun i hi => if_neg fun h => ?_
      exact Bool.false_ne_true ((h a List.mem_cons_self (hlt i hi)).symm.trans hstops)
    | false =>
      have hrest : ∀ i ∈ l, (∀ j ∈ a :: l, j < i → stops j = false) ↔
          ∀ j ∈ l, j < i → stops j = false := by
        intro i _
        rw [List.forall_mem_cons]
        exact and_iff_right fun _ => hstops
      have hl : (l.filterMap fun i => if ∀ j ∈ a :: l, j < i → stops j = false then f i else none) =
          (l.takeWhile fun i => !stops i).filterMap f := by
        rw [← ih hsorted hstop]
        refine List.filterMap_congr fun i hi => ?_
        exact if_congr (hrest i hi) rfl rfl
      rw [hl, if_pos (by decide), List.filterMap_cons]

end DefiBackend
