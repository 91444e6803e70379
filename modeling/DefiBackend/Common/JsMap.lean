import DefiBackend.Common.Collections
import Mathlib.Algebra.BigOperators.Group.List.Basic
import Mathlib.Data.List.Find
import Mathlib.Data.List.Induction

/-! # Maps in the order of insertion

`Map` and plain objects: the entries stand in the order in which their keys were first set, and
setting a key again replaces its value in place. Of the entries a map is built from, the last one
for a key stays (`get_ofEntries`), at the place of the first (`keys_ofEntries`). -/

namespace DefiBackend

/-- A map as the list of its entries. -/
abbrev JsMap (κ : Type u) (α : Type v) := List (κ × α)

namespace JsMap
variable {κ : Type u} {α : Type v} [DecidableEq κ] {m : JsMap κ α} {k k' : κ} {a : α}

/-- `map.get(k)`. -/
def get (m : JsMap κ α) (k : κ) : Option α := m.lookup k

/-- `map.set(k, a)`. -/
def set : JsMap κ α → κ → α → JsMap κ α
  | [], k, a => [(k, a)]
  | e :: m, k, a => if e.1 = k then (k, a) :: m else e :: set m k a

def keys (m : JsMap κ α) : List κ := m.map Prod.fst

def values (m : JsMap κ α) : List α := m.map Prod.snd

/-- `new Map(entries)`, and a map filled by `set` in a loop. -/
def ofEntries (entries : List (κ × α)) : JsMap κ α :=
  entries.foldl (fun m e => m.set e.1 e.2) []

@[simp] theorem get_nil : get ([] : JsMap κ α) k = none := rfl

theorem get_cons {e : κ × α} : get (e :: m) k = if e.1 = k then some e.2 else get m k := by
  obtain ⟨k', a⟩ := e
  by_cases h : k' = k
  · subst h
    simp [get]
  · have h' : (k == k') = false := by simpa using Ne.symm h
    simp [get, List.lookup_cons, h', h]

/-- A map whose values depend on the keys only, by its keys. -/
theorem get_graph {ks : List κ} (f : κ → α) (h : k ∈ ks) :
    get (ks.map fun k => (k, f k)) k = some (f k) := by
  induction ks with
  | nil => simp at h
  | cons k' ks ih =>
    rw [List.map_cons, get_cons]
    by_cases hk : k' = k
    · rw [if_pos hk, hk]
    · rw [if_neg hk]
      exact ih ((List.mem_cons.mp h).resolve_left (Ne.symm hk))

theorem get_set : get (m.set k a) k' = if k = k' then some a else get m k' := by
  induction m with
  | nil => rw [set, get_cons]
  | cons e m ih =>
    rw [set]
    split
    · rename_i he
      subst he
      rw [get_cons, get_cons]
      split <;> rfl
    · rename_i he
      rw [get_cons, ih, get_cons]
      by_cases hk : e.1 = k'
      · subst hk
        rw [if_pos rfl, if_neg (Ne.symm he), if_pos rfl]
      · rw [if_neg hk, if_neg hk]

@[simp] theorem get_set_self : get (m.set k a) k = some a := by rw [get_set, if_pos rfl]

theorem keys_set : keys (m.set k a) = addToSet (keys m) k := by
  induction m with
  | nil => rfl
  | cons e m ih =>
    rw [set]
    by_cases he : e.1 = k
    · rw [if_pos he]
      simp [keys, addToSet, he]
    · rw [if_neg he]
      change e.1 :: keys (set m k a) = addToSet (e.1 :: keys m) k
      rw [ih]
      unfold addToSet
      by_cases hm : k ∈ keys m
      · rw [if_pos hm, if_pos (List.mem_cons_of_mem _ hm)]
      · rw [if_neg hm, if_neg (by simpa using ⟨Ne.symm he, hm⟩), List.cons_append]

theorem nodup_keys_set (h : (keys m).Nodup) : (keys (m.set k a)).Nodup := by
  rw [keys_set, addToSet]
  split
  · exact h
  · rename_i hk
    exact List.nodup_append.mpr ⟨h, by simp, by
      rintro k' hk' k'' hk'' rfl
      exact hk (List.mem_singleton.mp hk'' ▸ hk')⟩

theorem foldl_set_get (entries : List (κ × α)) (m : JsMap κ α) :
    get (entries.foldl (fun m e => m.set e.1 e.2) m) k =
      (entries.reverse.lookup k).or (get m k) := by
  induction entries generalizing m with
  | nil => rfl
  | cons e entries ih =>
    obtain ⟨k', a⟩ := e
    rw [List.foldl_cons, ih, List.reverse_cons, List.lookup_append, get_set]
    by_cases hk : k' = k
    · subst hk
      cases entries.reverse.lookup k' <;> simp
    · have hk' : (k == k') = false := by simpa using Ne.symm hk
      cases entries.reverse.lookup k <;> simp [List.lookup_cons, hk', hk]

/-- The last entry for a key stays. -/
theorem get_ofEntries (entries : List (κ × α)) :
    get (ofEntries entries) k = entries.reverse.lookup k := by
  rw [ofEntries, foldl_set_get, get_nil, Option.or_none]

theorem foldl_set_keys (entries : List (κ × α)) (m : JsMap κ α) :
    keys (entries.foldl (fun m e => m.set e.1 e.2) m) =
      (entries.map Prod.fst).foldl addToSet (keys m) := by
  induction entries generalizing m with
  | nil => rfl
  | cons e entries ih => rw [List.foldl_cons, ih, keys_set, List.map_cons, List.foldl_cons]

/-- Every key stands at its first place. -/
theorem keys_ofEntries (entries : List (κ × α)) :
    keys (ofEntries entries) = unique (entries.map Prod.fst) :=
  foldl_set_keys entries []

/-- A map whose values are updated by items under their keys. -/
theorem foldl_update_get {β : Type w} (key : β → κ) (f : Option α → β → α) (list : List β)
    (m : JsMap κ α) :
    get (list.foldl (fun m b => m.set (key b) (f (get m (key b)) b)) m) k =
      (list.filter (key · = k)).foldl (fun s b => some (f s b)) (get m k) := by
  induction list generalizing m with
  | nil => rfl
  | cons b list ih =>
    rw [List.foldl_cons, ih, get_set]
    by_cases hk : key b = k
    · subst hk
      simp
    · simp [hk]

theorem foldl_update_keys {β : Type w} (key : β → κ) (f : Option α → β → α) (list : List β)
    (m : JsMap κ α) :
    keys (list.foldl (fun m b => m.set (key b) (f (get m (key b)) b)) m) =
      (list.map key).foldl addToSet (keys m) := by
  induction list generalizing m with
  | nil => rfl
  | cons b list ih => rw [List.foldl_cons, ih, keys_set, List.map_cons, List.foldl_cons]

/-- A map whose values depend on the keys only. -/
theorem ofEntries_graph (ks : List κ) (f : κ → α) :
    ofEntries (ks.map fun k => (k, f k)) = (unique ks).map fun k => (k, f k) := by
  have hset : ∀ (l : List κ) (k : κ),
      set (l.map fun k => (k, f k)) k (f k) = (addToSet l k).map fun k => (k, f k) := by
    intro l k
    induction l with
    | nil => rfl
    | cons k' l ih =>
      rw [List.map_cons, set]
      by_cases h : k' = k
      · subst h
        rw [if_pos rfl, addToSet, if_pos (List.mem_cons_self ..), List.map_cons]
      · rw [if_neg h, ih]
        unfold addToSet
        by_cases hl : k ∈ l
        · rw [if_pos hl, if_pos (List.mem_cons_of_mem _ hl), List.map_cons]
        · rw [if_neg hl, if_neg (by simpa using ⟨Ne.symm h, hl⟩), List.cons_append, List.map_cons]
  have hfold : ∀ l : List κ, (ks.map fun k => (k, f k)).foldl (fun m e => JsMap.set m e.1 e.2)
      (l.map fun k => (k, f k)) = (ks.foldl addToSet l).map fun k => (k, f k) := by
    induction ks with
    | nil => exact fun _ => rfl
    | cons k ks ih =>
      intro l
      rw [List.map_cons, List.foldl_cons, hset, ih, List.foldl_cons]
  exact hfold []

/-- A map is told by its keys and by what stands under them. -/
theorem eq_graph {f : κ → α} (hnodup : (keys m).Nodup) (h : ∀ k ∈ keys m, get m k = some (f k)) :
    m = (keys m).map fun k => (k, f k) := by
  induction m with
  | nil => rfl
  | cons e m ih =>
    obtain ⟨hnew, hm⟩ := List.nodup_cons.mp hnodup
    have he : some e.2 = some (f e.1) := by
      rw [← h e.1 (List.mem_cons_self ..), get_cons, if_pos rfl]
    have htail := ih hm fun k hk => by
      have hne : e.1 ≠ k := fun heq => hnew (heq ▸ hk)
      rw [← h k (List.mem_cons_of_mem _ hk), get_cons, if_neg hne]
    change e :: m = (e.1, f e.1) :: (keys m).map fun k => (k, f k)
    rw [← htail, ← Option.some.inj he]

theorem mem_of_get (h : get m k = some a) : (k, a) ∈ m := by
  induction m with
  | nil => cases h
  | cons e m ih =>
    rw [get_cons] at h
    by_cases hk : e.1 = k
    · rw [if_pos hk] at h
      rw [← hk, ← Option.some.inj h]
      exact List.mem_cons_self ..
    · rw [if_neg hk] at h
      exact List.mem_cons_of_mem _ (ih h)

/-- Of a map without repeated keys, the entries are what stands under the keys. -/
theorem get_eq_some_iff (h : (keys m).Nodup) : get m k = some a ↔ (k, a) ∈ m := by
  refine ⟨mem_of_get, fun hmem => ?_⟩
  induction m with
  | nil => cases hmem
  | cons e m ih =>
    obtain ⟨hnew, hm⟩ := List.nodup_cons.mp h
    rw [get_cons]
    rcases List.mem_cons.mp hmem with rfl | hmem
    · rw [if_pos rfl]
    · have hne : e.1 ≠ k := fun heq => hnew (heq ▸ List.mem_map_of_mem hmem)
      rw [if_neg hne, ih hm hmem]

/-! ## Lists under keys -/

/-- `object[k] ??= []; object[k].push(a)`. -/
def pushTo (m : JsMap κ (List α)) (k : κ) (a : α) : JsMap κ (List α) :=
  m.set k ((m.get k).getD [] ++ [a])

/-- An object filled by `pushTo` in a loop. -/
def collect (pairs : List (κ × α)) : JsMap κ (List α) :=
  pairs.foldl (fun m e => m.pushTo e.1 e.2) []

theorem foldl_pushTo_get (pairs : List (κ × α)) (m : JsMap κ (List α)) :
    (get (pairs.foldl (fun m e => m.pushTo e.1 e.2) m) k).getD [] =
      (get m k).getD [] ++ (pairs.filter (·.1 = k)).map Prod.snd := by
  induction pairs generalizing m with
  | nil => simp
  | cons e pairs ih =>
    rw [List.foldl_cons, ih, pushTo, get_set, List.filter_cons]
    by_cases hk : e.1 = k
    · subst hk; simp
    · simp [hk]

theorem foldl_pushTo_keys (pairs : List (κ × α)) (m : JsMap κ (List α)) :
    keys (pairs.foldl (fun m e => m.pushTo e.1 e.2) m) =
      (pairs.map Prod.fst).foldl addToSet (keys m) := by
  induction pairs generalizing m with
  | nil => rfl
  | cons e pairs ih => rw [List.foldl_cons, ih, pushTo, keys_set, List.map_cons, List.foldl_cons]

theorem get_eq_none : get m k = none ↔ k ∉ keys m := by
  induction m with
  | nil => simp [keys]
  | cons e m ih =>
    rw [get_cons]
    by_cases hk : e.1 = k
    · simp [hk, keys]
    · rw [if_neg hk, ih]
      simp [keys, Ne.symm hk]

theorem mem_keys : k ∈ keys m ↔ ∃ a, get m k = some a := by
  rw [← Option.isSome_iff_exists, ← not_iff_not, ← get_eq_none, Option.not_isSome_iff_eq_none]

/-- Each key has the values that were pushed for it, in their order. -/
theorem collect_eq (pairs : List (κ × α)) :
    collect pairs =
      (unique (pairs.map Prod.fst)).map fun k => (k, (pairs.filter (·.1 = k)).map Prod.snd) := by
  have hkeys : keys (collect pairs) = unique (pairs.map Prod.fst) := foldl_pushTo_keys pairs []
  rw [← hkeys]
  refine eq_graph ?_ fun k hk => ?_
  · rw [hkeys]
    exact nodup_unique _
  · have hget := foldl_pushTo_get (k := k) pairs []
    obtain ⟨as, has⟩ := mem_keys.mp hk
    rw [has]
    rw [collect] at has
    rw [has] at hget
    exact congrArg some hget

/-- The entries under a key. -/
theorem filter_key_eq (hnodup : (keys m).Nodup) (h : get m k = some a) :
    m.filter (·.1 = k) = [(k, a)] := by
  induction m with
  | nil => cases h
  | cons e m ih =>
    obtain ⟨hnew, hnodup⟩ := List.nodup_cons.mp hnodup
    rw [get_cons] at h
    by_cases hk : e.1 = k
    · rw [if_pos hk] at h
      cases h
      have hnone : m.filter (·.1 = k) = [] := by
        refine List.filter_eq_nil_iff.mpr fun e' he' hk' => hnew ?_
        rw [hk, ← of_decide_eq_true hk']
        exact List.mem_map_of_mem he'
      rw [List.filter_cons, if_pos (decide_eq_true hk), hnone, ← hk]
    · rw [if_neg hk] at h
      rw [List.filter_cons, if_neg (fun hk' => hk (of_decide_eq_true hk')), ih hnodup h]

/-! ## The entry that stays -/

/-- The last item with a key. -/
def lastWith (key : α → κ) (list : List α) (k : κ) : Option α :=
  list.reverse.find? (key · = k)

theorem lastWith_eq_some {key : α → κ} {list : List α} (h : lastWith key list k = some a) :
    key a = k ∧ a ∈ list := by
  have hk := List.find?_some h
  have hm := List.mem_of_find?_eq_some h
  exact ⟨by simpa using hk, List.mem_reverse.mp hm⟩

/-- An item with the key in the list gives a last one. -/
theorem exists_lastWith (key : α → κ) {list : List α} (h : a ∈ list) :
    ∃ b, lastWith key list (key a) = some b := by
  refine Option.isSome_iff_exists.mp ?_
  rw [lastWith, List.find?_isSome]
  exact ⟨a, List.mem_reverse.mpr h, by simp⟩

theorem lastWith_map {β : Type w} {key : β → κ} {f : α → β} {list : List α} :
    lastWith key (list.map f) k = (lastWith (fun a => key (f a)) list k).map f := by
  rw [lastWith, ← List.map_reverse, List.find?_map]
  rfl

/-- Keys that tell the same items apart have the same last items. -/
theorem lastWith_congr {ι : Type w} [DecidableEq ι] {key : α → κ} {tag : α → ι} {i : ι}
    {list : List α} (h : ∀ a ∈ list, key a = k ↔ tag a = i) :
    lastWith key list k = lastWith tag list i := by
  refine List.find?_congr fun a ha => ?_
  exact decide_eq_decide.mpr (h a (List.mem_reverse.mp ha))

/-- The value under a key of a map filled from items is that of the last item with the key. -/
theorem get_ofEntries_map {β : Type w} (key : α → κ) (v : α → β) (list : List α) :
    get (ofEntries (list.map fun a => (key a, v a))) k = (lastWith key list k).map v := by
  rw [get_ofEntries, lastWith, ← List.map_reverse]
  induction list.reverse with
  | nil => rfl
  | cons a l ih =>
    rw [List.map_cons, List.lookup_cons, List.find?_cons]
    by_cases h : key a = k
    · subst h; simp
    · have h' : (k == key a) = false := by simpa using Ne.symm h
      simp [h', h, ih]

/-- A map filled from items under their keys has the last item with a key. -/
theorem get_ofEntries_self (key : α → κ) (list : List α) :
    get (ofEntries (list.map fun a => (key a, a))) k = lastWith key list k := by
  rw [get_ofEntries_map key fun a => a, Option.map_id']

/-- A map filled from values that depend on the keys only. -/
theorem get_ofEntries_graph {ks : List κ} (f : κ → α) (h : k ∈ ks) :
    get (ofEntries (ks.map fun k => (k, f k))) k = some (f k) := by
  rw [get_ofEntries_map (fun k => k) f]
  obtain ⟨last, hlast⟩ := exists_lastWith (fun k : κ => k) h
  obtain ⟨rfl, -⟩ := lastWith_eq_some hlast
  rw [hlast]
  rfl

/-- The entry under a key when each item gives several entries: that of the last item with the
right tag, where items with other tags have no entry for the key. -/
theorem get_ofEntries_flatMap {γ : Type w} {ι : Type x} [DecidableEq ι] {tag : γ → ι}
    {f : γ → List (κ × α)} {list : List γ} {i : ι} {c : γ} (h : lastWith tag list i = some c)
    (hmem : (k, a) ∈ f c) (huniq : ∀ e ∈ f c, e.1 = k → e.2 = a)
    (hother : ∀ b ∈ list, tag b ≠ i → ∀ e ∈ f b, e.1 ≠ k) :
    get (ofEntries (list.flatMap f)) k = some a := by
  have hlast : (f c).reverse.lookup k = some a := by
    cases hl : (f c).reverse.lookup k with
    | none => simpa using List.lookup_eq_none_iff.mp hl _ (List.mem_reverse.mpr hmem)
    | some a' =>
      obtain ⟨l₁, l₂, he, -⟩ := List.lookup_eq_some_iff.mp hl
      have hc : (k, a') ∈ f c := List.mem_reverse.mp (by simp [he])
      exact congrArg some (huniq _ hc rfl)
  have hother' : ∀ b ∈ list.reverse, tag b ≠ i → ∀ e ∈ f b, e.1 ≠ k :=
    fun b hb => hother b (List.mem_reverse.mp hb)
  rw [get_ofEntries, List.reverse_flatMap]
  rw [lastWith] at h
  generalize list.reverse = l at h hother'
  -- the items from the last one on, of which only one with the tag has entries for the key
  induction l with
  | nil => simp at h
  | cons b l ih =>
    rw [List.flatMap_cons, List.lookup_append]
    rw [List.find?_cons] at h
    by_cases hb : tag b = i
    · have hbc : b = c := by simpa [hb] using h
      rw [hbc, Function.comp_apply, hlast, Option.some_or]
    · have hnone : (f b).reverse.lookup k = none := by
        refine List.lookup_eq_none_iff.mpr fun e he => ?_
        have hne := hother' b (List.mem_cons_self ..) hb e (List.mem_reverse.mp he)
        simpa using Ne.symm hne
      rw [Function.comp_apply, hnone, Option.none_or]
      exact ih (by simpa [hb] using h) fun b' hb' => hother' b' (List.mem_cons_of_mem _ hb')

/-! ## The entries that are replaced -/

/-- The items that no later one with their key replaces. -/
def standing (key : α → κ) : List α → List α
  | [] => []
  | a :: list => if ∃ b ∈ list, key b = key a then standing key list else a :: standing key list

/-- The items that a later one with their key replaces. -/
def replaced (key : α → κ) : List α → List α
  | [] => []
  | a :: list => if ∃ b ∈ list, key b = key a then a :: replaced key list else replaced key list

theorem replaced_append_standing (key : α → κ) (list : List α) :
    (replaced key list ++ standing key list).Perm list := by
  induction list with
  | nil => exact .refl _
  | cons a list ih =>
    rw [replaced, standing]
    split
    · exact ih.cons a
    · exact List.perm_middle.trans (ih.cons a)

theorem standing_concat (key : α → κ) (list : List α) (b : α) :
    standing key (list ++ [b]) = (standing key list).filter (key · ≠ key b) ++ [b] := by
  induction list with
  | nil => simp [standing]
  | cons a list ih =>
    rw [List.cons_append, standing, standing, ih]
    by_cases hlist : ∃ c ∈ list, key c = key a
    · obtain ⟨c, hc, hca⟩ := hlist
      rw [if_pos ⟨c, List.mem_append_left _ hc, hca⟩, if_pos ⟨c, hc, hca⟩]
    · rw [if_neg hlist, List.filter_cons]
      by_cases hb : key b = key a
      · rw [if_pos ⟨b, List.mem_append_right _ (List.mem_singleton_self b), hb⟩]
        simp [hb]
      · rw [if_neg, if_pos (by simpa using Ne.symm hb), List.cons_append]
        rintro ⟨c, hc, hca⟩
        rcases List.mem_append.mp hc with hc | hc
        · exact hlist ⟨c, hc, hca⟩
        · cases List.mem_singleton.mp hc
          exact hb hca

/-- Setting a key removes the entry for it and adds one. -/
theorem set_perm (h : (keys m).Nodup) : (m.set k a).Perm (m.filter (·.1 ≠ k) ++ [(k, a)]) := by
  induction m with
  | nil => exact .refl _
  | cons e m ih =>
    obtain ⟨hnew, hm⟩ := List.nodup_cons.mp h
    rw [set, List.filter_cons]
    by_cases hk : e.1 = k
    · have hrest : m.filter (·.1 ≠ k) = m := by
        refine List.filter_eq_self.mpr fun e' he' => ?_
        have hne : e'.1 ≠ k := fun heq => hnew (hk ▸ heq ▸ List.mem_map_of_mem he')
        simpa using hne
      rw [if_pos hk, if_neg (by simpa using hk), hrest]
      exact (List.perm_append_singleton _ _).symm
    · rw [if_neg hk, if_pos (by simpa using hk)]
      exact (ih hm).cons e

/-- Of what is made of the entries, a write takes out what was made of the old value. -/
theorem flatMap_set_perm {β : Type w} (hnodup : (keys m).Nodup) (f : κ × α → List β) :
    ((m.set k a).flatMap f ++ (m.get k).elim [] fun old => f (k, old)).Perm
      (m.flatMap f ++ f (k, a)) := by
  have hset := (set_perm (k := k) (a := a) hnodup).flatMap_right f
  have hsplit := (List.filter_append_perm (·.1 = k) m).flatMap_right f
  have hkey : (m.filter (·.1 = k)).flatMap f = (m.get k).elim [] fun old => f (k, old) := by
    cases hget : m.get k with
    | some old =>
      rw [filter_key_eq hnodup hget, List.flatMap_singleton]
      rfl
    | none =>
      have hnone : m.filter (·.1 = k) = [] := by
        apply List.filter_eq_nil_iff.mpr
        intro e he hk
        apply get_eq_none.mp hget
        rw [← of_decide_eq_true hk]
        exact List.mem_map_of_mem he
      rw [hnone]
      rfl
  simp only [ne_eq, decide_not] at hset
  rw [List.flatMap_append, List.flatMap_singleton] at hset
  rw [List.flatMap_append, hkey] at hsplit
  refine List.perm_append_comm.trans ((hset.append_left _).trans ?_)
  rw [← List.append_assoc]
  exact hsplit.append_right _

theorem ofEntries_concat (entries : List (κ × α)) (e : κ × α) :
    ofEntries (entries ++ [e]) = (ofEntries entries).set e.1 e.2 := by
  rw [ofEntries, List.foldl_append]
  rfl

theorem nodup_keys_ofEntries (entries : List (κ × α)) : (keys (ofEntries entries)).Nodup := by
  rw [keys_ofEntries]
  exact nodup_unique _

/-- The entries of a map are those that no later one replaces. -/
theorem ofEntries_perm (entries : List (κ × α)) :
    (ofEntries entries).Perm (standing Prod.fst entries) := by
  induction entries using List.reverseRecOn with
  | nil => exact .refl _
  | append_singleton entries e ih =>
    rw [ofEntries_concat, standing_concat]
    exact (set_perm (nodup_keys_ofEntries entries)).trans ((ih.filter _).append_right _)

theorem mem_of_mem_standing {key : α → κ} {list : List α} (h : a ∈ standing key list) : a ∈ list :=
  (replaced_append_standing key list).subset (List.mem_append_right _ h)

theorem mem_of_mem_ofEntries {entries : List (κ × α)} {e : κ × α} (h : e ∈ ofEntries entries) :
    e ∈ entries :=
  mem_of_mem_standing ((ofEntries_perm entries).subset h)

/-- A map whose values are replaced. -/
theorem get_map_values {β : Type w} (f : α → β) (m : JsMap κ α) :
    get (m.map fun e => (e.1, f e.2)) k = (get m k).map f := by
  induction m with
  | nil => rfl
  | cons e m ih =>
    rw [List.map_cons, get_cons, get_cons, ih]
    split <;> rfl

theorem standing_map {β : Type w} (key : β → κ) (f : α → β) (list : List α) :
    standing key (list.map f) = (standing (fun a => key (f a)) list).map f := by
  induction list with
  | nil => rfl
  | cons a list ih =>
    rw [List.map_cons, standing, standing, ih]
    by_cases h : ∃ b ∈ list, key (f b) = key (f a)
    · rw [if_pos h, if_pos (by simpa using h)]
    · rw [if_neg h, if_neg (by simpa using h), List.map_cons]

theorem set_of_notMem (h : k ∉ keys m) : m.set k a = m ++ [(k, a)] := by
  induction m with
  | nil => rfl
  | cons e m ih =>
    obtain ⟨hne, hm⟩ := not_or.mp fun hmem => h (List.mem_cons.mpr hmem)
    rw [set, if_neg (Ne.symm hne), ih hm, List.cons_append]

/-- Entries without repeated keys are the map that they fill. -/
theorem ofEntries_eq_self {entries : List (κ × α)} (h : (entries.map Prod.fst).Nodup) :
    ofEntries entries = entries := by
  induction entries using List.reverseRecOn with
  | nil => rfl
  | append_singleton entries e ih =>
    rw [List.map_append, List.map_singleton] at h
    obtain ⟨hentries, -, hdisjoint⟩ := List.nodup_append.mp h
    have hnew : e.1 ∉ keys entries := fun hmem =>
      hdisjoint _ hmem _ (List.mem_singleton_self _) rfl
    rw [ofEntries_concat, ih hentries, set_of_notMem hnew]

/-- A map of the keys that have a value, by its keys. -/
theorem get_filterMap_graph {ks : List κ} (f : κ → Option α) :
    get (ks.filterMap fun k => (f k).map fun a => (k, a)) k = if k ∈ ks then f k else none := by
  induction ks with
  | nil => rfl
  | cons k' ks ih =>
    rw [List.filterMap_cons]
    by_cases hk : k' = k
    · subst hk
      rw [if_pos (List.mem_cons_self ..)]
      cases hf : f k' with
      | none =>
        rw [hf] at ih
        simpa using ih
      | some a => simp [get_cons]
    · have hmem : k ∈ k' :: ks ↔ k ∈ ks := by simp [Ne.symm hk]
      cases hf : f k' with
      | none => simpa [hmem] using ih
      | some a => simpa [get_cons, hk, hmem] using ih

omit [DecidableEq κ] in
theorem keys_filterMap_sublist {β : Type w} (f : κ × β → Option α) (m : JsMap κ β) :
    (keys (m.filterMap fun e => (f e).map fun a => (e.1, a))).Sublist (keys m) := by
  induction m with
  | nil => exact .slnil
  | cons e m ih =>
    rw [List.filterMap_cons]
    cases hf : f e with
    | none => exact ih.cons _
    | some a => exact ih.cons_cons _

/-- The values under all keys of a map, and others, are its values. -/
theorem filterMap_get_perm {ks : List κ} (hks : ks.Nodup) (hm : (keys m).Nodup)
    (hsub : keys m ⊆ ks) : (ks.filterMap (get m)).Perm (values m) := by
  induction m generalizing ks with
  | nil =>
    have hnone : ks.filterMap (get ([] : JsMap κ α)) = [] :=
      List.filterMap_eq_nil_iff.mpr fun _ _ => rfl
    rw [hnone]
    exact .nil
  | cons e m ih =>
    obtain ⟨hnew, hm⟩ := List.nodup_cons.mp hm
    have he : e.1 ∈ ks := hsub (List.mem_cons_self ..)
    have hrest : (ks.erase e.1).filterMap (get (e :: m)) = (ks.erase e.1).filterMap (get m) := by
      apply List.filterMap_congr
      intro k hk
      rw [get_cons, if_neg fun h : e.1 = k => hks.not_mem_erase (h ▸ hk)]
    have hsub' : keys m ⊆ ks.erase e.1 := by
      intro k hk
      have hne : k ≠ e.1 := fun h => hnew (h ▸ hk)
      exact (List.mem_erase_of_ne hne).mpr (hsub (List.mem_cons_of_mem _ hk))
    refine ((List.perm_cons_erase he).filterMap _).trans ?_
    rw [List.filterMap_cons, get_cons, if_pos rfl, hrest]
    exact (ih (hks.erase _) hm hsub').cons e.2

/-- A sum over a map, by its keys and others. -/
theorem sum_map_get {γ : Type w} [AddCommMonoid γ] {ks : List κ} (hks : ks.Nodup)
    (hm : (keys m).Nodup) (hsub : keys m ⊆ ks) (g : α → γ) :
    (m.map fun e => g e.2).sum = (ks.map fun k => ((get m k).map g).getD 0).sum := by
  have hsum : ∀ ks : List κ, ((ks.filterMap (get m)).map g).sum =
      (ks.map fun k => ((get m k).map g).getD 0).sum := by
    intro ks
    induction ks with
    | nil => rfl
    | cons k ks ih =>
      rw [List.filterMap_cons, List.map_cons, List.sum_cons, ← ih]
      cases get m k with
      | none => exact (zero_add _).symm
      | some a => exact List.sum_cons
  rw [← hsum ks, ((filterMap_get_perm hks hm hsub).map g).sum_eq, values, List.map_map]
  rfl

end JsMap
end DefiBackend
