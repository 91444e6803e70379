import Mathlib.Algebra.BigOperators.Group.List.Basic
import Mathlib.Data.List.Perm.Basic
import Mathlib.Data.Option.Basic
import Mathlib.Logic.Basic

/-! # Fallible computations

When a computation in `Except` succeeds: a bind does when its parts do one after the other, a
`mapM` when it does on every element, and so do folds whose steps succeed or fail whatever the
state is. The results of a `mapM` in `Option` are those of its elements. `mapAccumM` maps a list
while it passes a state on. -/

namespace DefiBackend
namespace Theory

/-- A computation returns a value. -/
def Succeeds (x : Except ε α) : Prop := ∃ a, x = .ok a

@[simp] theorem succeeds_ok : Succeeds (.ok a : Except ε α) := ⟨a, rfl⟩

@[simp] theorem succeeds_pure : Succeeds (pure a : Except ε α) := ⟨a, rfl⟩

@[simp] theorem not_succeeds_error : ¬ Succeeds (.error e : Except ε α) := fun ⟨_, h⟩ => nomatch h

@[simp] theorem not_succeeds_throw : ¬ Succeeds (throw e : Except ε α) := not_succeeds_error

@[simp] theorem succeeds_map {x : Except ε α} {f : α → β} : Succeeds (x.map f) ↔ Succeeds x := by
  cases x with
  | error e => exact ⟨fun ⟨_, h⟩ => (nomatch h), fun ⟨_, h⟩ => (nomatch h)⟩
  | ok a => exact ⟨fun _ => ⟨a, rfl⟩, fun _ => ⟨f a, rfl⟩⟩

theorem ok_bind (a : α) (f : α → Except ε β) : (Except.ok a >>= f) = f a := rfl

/-- The parts of a bind succeed one after the other. -/
theorem succeeds_bind {x : Except ε α} {f : α → Except ε β} :
    Succeeds (x >>= f) ↔ ∃ a, x = .ok a ∧ Succeeds (f a) := by
  cases x with
  | error e => exact ⟨fun ⟨_, h⟩ => (nomatch h), fun ⟨_, h, _⟩ => (nomatch h)⟩
  | ok a => exact ⟨fun h => ⟨a, rfl, h⟩, fun ⟨_, h, hf⟩ => by cases h; exact hf⟩

theorem bind_eq_ok {x : Except ε α} {f : α → Except ε β} {b : β} :
    x >>= f = .ok b ↔ ∃ a, x = .ok a ∧ f a = .ok b := by
  cases x with
  | error e => exact ⟨fun h => (nomatch h), fun ⟨_, h, _⟩ => (nomatch h)⟩
  | ok a => exact ⟨fun h => ⟨a, rfl, h⟩, fun ⟨_, h, hf⟩ => by cases h; exact hf⟩

/-- What follows with a value that always goes through does not matter. -/
theorem succeeds_bind_of_forall {x : Except ε α} {f : α → Except ε β} (hf : ∀ a, Succeeds (f a)) :
    Succeeds (x >>= f) ↔ Succeeds x := by
  rw [succeeds_bind]
  exact ⟨fun ⟨a, h, _⟩ => ⟨a, h⟩, fun ⟨a, h⟩ => ⟨a, h, hf a⟩⟩

/-- Two computations of which neither needs the other, before what always goes through. -/
theorem succeeds_bind_bind {x : Except ε α} {y : Except ε β} {f : α → β → Except ε γ}
    (hf : ∀ a b, Succeeds (f a b)) :
    Succeeds (x >>= fun a => y >>= f a) ↔ Succeeds x ∧ Succeeds y := by
  rw [succeeds_bind]
  constructor
  · rintro ⟨a, ha, h⟩
    exact ⟨⟨a, ha⟩, (succeeds_bind_of_forall (hf a)).mp h⟩
  · rintro ⟨⟨a, ha⟩, h⟩
    exact ⟨a, ha, (succeeds_bind_of_forall (hf a)).mpr h⟩

/-- A list goes through a fallible function exactly when each element does. -/
theorem succeeds_mapM {f : α → Except ε β} {l : List α} :
    Succeeds (l.mapM f) ↔ ∀ a ∈ l, Succeeds (f a) := by
  induction l with
  | nil => simp
  | cons a l ih =>
    rw [List.mapM_cons, List.forall_mem_cons, ← ih]
    exact succeeds_bind_bind fun _ _ => succeeds_pure

/-- A list of which each element goes through. -/
theorem mapM_eq_ok {f : α → Except ε β} {g : α → β} {l : List α} (h : ∀ a ∈ l, f a = .ok (g a)) :
    l.mapM f = .ok (l.map g) := by
  induction l with
  | nil => rfl
  | cons a l ih =>
    obtain ⟨ha, hl⟩ := List.forall_mem_cons.mp h
    rw [List.mapM_cons, ha, ih hl]
    rfl

theorem mapM_congr {m : Type v → Type w} [Monad m] [LawfulMonad m] {β : Type v} {f g : α → m β}
    {l : List α} (h : ∀ a ∈ l, f a = g a) : l.mapM f = l.mapM g := by
  induction l with
  | nil => rfl
  | cons a l ih =>
    obtain ⟨ha, hl⟩ := List.forall_mem_cons.mp h
    rw [List.mapM_cons, List.mapM_cons, ha, ih hl]

/-- Functions that give one list of results agree on its elements. -/
theorem mapM_eq_iff {f g : α → Except ε β} {l : List α} (h : ∀ a ∈ l, Succeeds (g a)) :
    l.mapM f = l.mapM g ↔ ∀ a ∈ l, f a = g a := by
  refine ⟨fun heq => ?_, mapM_congr⟩
  induction l with
  | nil => exact fun _ ha => by cases ha
  | cons a l ih =>
    obtain ⟨⟨b, hb⟩, hl⟩ := List.forall_mem_cons.mp h
    obtain ⟨bs, hbs⟩ := succeeds_mapM.mpr hl
    rw [List.mapM_cons, List.mapM_cons, hb, hbs, ok_bind, ok_bind] at heq
    obtain ⟨b', hb', hrest⟩ := bind_eq_ok.mp heq
    obtain ⟨bs', hbs', hcons⟩ := bind_eq_ok.mp hrest
    obtain ⟨rfl, rfl⟩ := List.cons.inj (Except.ok.inj hcons)
    rw [List.forall_mem_cons, hb, hb']
    exact ⟨rfl, ih hl (hbs'.trans hbs.symm)⟩

/-- The results of a list that goes through are those of its elements. -/
theorem mem_of_mapM_ok {f : α → Except ε β} {l : List α} {l' : List β} (h : l.mapM f = .ok l') :
    b ∈ l' ↔ ∃ a ∈ l, f a = .ok b := by
  induction l generalizing l' with
  | nil => cases h; simp
  | cons a l ih =>
    rw [List.mapM_cons] at h
    obtain ⟨c, hc, h⟩ := bind_eq_ok.mp h
    obtain ⟨bs, hbs, h⟩ := bind_eq_ok.mp h
    cases h
    rw [List.mem_cons, ih hbs]
    constructor
    · rintro (rfl | ⟨a', ha', hb⟩)
      · exact ⟨a, List.mem_cons_self .., hc⟩
      · exact ⟨a', List.mem_cons_of_mem _ ha', hb⟩
    · rintro ⟨a', ha', hb⟩
      rcases List.mem_cons.mp ha' with rfl | ha'
      · rw [hc] at hb
        exact .inl (Except.ok.inj hb).symm
      · exact .inr ⟨a', ha', hb⟩

/-- A list goes through with good results exactly when each element does. -/
theorem exists_mapM_forall {f : α → Except ε β} {Q : β → Prop} {l : List α} :
    (∃ l', l.mapM f = .ok l' ∧ ∀ b ∈ l', Q b) ↔ ∀ a ∈ l, ∃ b, f a = .ok b ∧ Q b := by
  constructor
  · rintro ⟨l', hl', hQ⟩ a ha
    obtain ⟨b, hb⟩ := succeeds_mapM.mp ⟨l', hl'⟩ a ha
    exact ⟨b, hb, hQ b ((mem_of_mapM_ok hl').mpr ⟨a, ha, hb⟩)⟩
  · intro h
    obtain ⟨l', hl'⟩ := succeeds_mapM.mpr fun a ha => (h a ha).imp fun _ hb => hb.1
    refine ⟨l', hl', fun b hb => ?_⟩
    obtain ⟨a, ha, hab⟩ := (mem_of_mapM_ok hl').mp hb
    obtain ⟨b', hb', hQ⟩ := h a ha
    rw [hab] at hb'
    exact Except.ok.inj hb' ▸ hQ

/-- What is read of the results of a list that goes through. -/
theorem map_of_mapM {f : α → Except ε β} {g : β → γ} {k : α → γ} {l : List α} {l' : List β}
    (h : l.mapM f = .ok l') (hg : ∀ a ∈ l, ∀ b, f a = .ok b → g b = k a) : l'.map g = l.map k := by
  induction l generalizing l' with
  | nil => cases h; rfl
  | cons a l ih =>
    rw [List.mapM_cons] at h
    obtain ⟨b, hb, h⟩ := bind_eq_ok.mp h
    obtain ⟨bs, hbs, h⟩ := bind_eq_ok.mp h
    cases h
    obtain ⟨ha, hl⟩ := List.forall_mem_cons.mp hg
    rw [List.map_cons, List.map_cons, ha b hb, ih hbs hl]

/-- The results of a list that goes through, when each can only be the value of a function. -/
theorem eq_map_of_mapM {f : α → Except ε β} {g : α → β} {l : List α} {l' : List β}
    (h : l.mapM f = .ok l') (hg : ∀ a ∈ l, ∀ b, f a = .ok b → b = g a) : l' = l.map g := by
  rw [← List.map_id l']
  exact map_of_mapM h hg

theorem filterMap_toOption_of_mapM {f : α → Except ε β} {l : List α} {l' : List β}
    (h : l.mapM f = .ok l') : l.filterMap (fun a => (f a).toOption) = l' := by
  induction l generalizing l' with
  | nil => cases h; rfl
  | cons a l ih =>
    rw [List.mapM_cons] at h
    obtain ⟨b, hb, h⟩ := bind_eq_ok.mp h
    obtain ⟨bs, hbs, h⟩ := bind_eq_ok.mp h
    cases h
    rw [List.filterMap_cons_some (by rw [hb]; rfl), ih hbs]

/-- Results of reordered lists that agree element by element are reordered. -/
theorem perm_map_of_mapM {f f' : α → Except ε β} {g : β → γ} {l l' : List α} {bs bs' : List β}
    (hperm : l'.Perm l) (h : l.mapM f = .ok bs) (h' : l'.mapM f' = .ok bs')
    (hg : ∀ a ∈ l, ∀ b b', f a = .ok b → f' a = .ok b' → g b' = g b) :
    (bs'.map g).Perm (bs.map g) := by
  have hbs : bs.map (some ∘ g) = l.map fun a => (f a).toOption.map g := by
    refine map_of_mapM h fun a _ b hb => ?_
    rw [hb]
    rfl
  have hbs' : bs'.map (some ∘ g) = l'.map fun a => (f a).toOption.map g := by
    refine map_of_mapM h' fun a ha b' hb' => ?_
    obtain ⟨b, hb⟩ := succeeds_mapM.mp ⟨bs, h⟩ a (hperm.mem_iff.mp ha)
    rw [Function.comp_apply, hg a (hperm.mem_iff.mp ha) b b' hb hb', hb]
    rfl
  rw [← List.map_perm_map_iff (Option.some_injective γ), List.map_map, List.map_map, hbs, hbs']
  exact hperm.map _

theorem foldlM_congr {m : Type v → Type w} [Monad m] {σ : Type v} {f g : σ → α → m σ} {l : List α}
    (h : ∀ a ∈ l, ∀ s, f s a = g s a) (s : σ) : l.foldlM f s = l.foldlM g s := by
  induction l generalizing s with
  | nil => rfl
  | cons a l ih =>
    obtain ⟨ha, hl⟩ := List.forall_mem_cons.mp h
    rw [List.foldlM_cons, List.foldlM_cons, ha]
    exact bind_congr (ih hl)

/-- A list that goes through a function of its elements and their places. -/
theorem mapM_zipIdx_eq {f : β × Nat → Except ε γ} {g : α → Except ε γ} {k : α → β} {l : List α}
    (h : ∀ idx a, l[idx]? = some a → f (k a, idx) = g a) :
    (l.map k).zipIdx.mapM f = l.mapM g := by
  have hplaces : l.zipIdx.mapM (fun x => f (k x.1, x.2)) = l.zipIdx.mapM fun x => g x.1 :=
    mapM_congr fun x hx => h x.2 x.1 (List.mem_zipIdx_iff_getElem?.mp hx)
  have helements : l.zipIdx.mapM (fun x => g x.1) = (l.zipIdx.map Prod.fst).mapM g := by
    rw [List.mapM_map]
    rfl
  rw [List.zipIdx_map, List.mapM_map]
  exact hplaces.trans (helements.trans (by rw [List.zipIdx_map_fst]))

/-- The results of a list that goes through correspond to its elements. -/
theorem mapM_forall₂ {f : α → Except ε β} {l : List α} {l' : List β} :
    l.mapM f = .ok l' ↔ List.Forall₂ (fun a b => f a = .ok b) l l' := by
  induction l generalizing l' with
  | nil =>
    constructor
    · intro h
      cases h
      exact .nil
    · intro h
      cases h
      rfl
  | cons a l ih =>
    rw [List.mapM_cons]
    constructor
    · intro h
      obtain ⟨b, hb, h⟩ := bind_eq_ok.mp h
      obtain ⟨bs, hbs, h⟩ := bind_eq_ok.mp h
      cases h
      exact .cons hb (ih.mp hbs)
    · intro h
      cases h with
      | cons hb hbs => rw [hb, ih.mpr hbs]; rfl

/-- A fold over the results of a `mapM` is a fold over the list. -/
theorem foldl_of_mapM {f : α → Except ε β} {g : σ → β → σ} {g' : σ → α → σ} {l : List α}
    {l' : List β} (hg : ∀ s a b, f a = .ok b → g s b = g' s a) (h : l.mapM f = .ok l') (s : σ) :
    l'.foldl g s = l.foldl g' s := by
  induction l generalizing l' s with
  | nil => cases h; rfl
  | cons a l ih =>
    rw [List.mapM_cons] at h
    obtain ⟨b, hb, h⟩ := bind_eq_ok.mp h
    obtain ⟨bs, hbs, h⟩ := bind_eq_ok.mp h
    cases h
    rw [List.foldl_cons, List.foldl_cons, hg s a b hb, ih hbs]

/-- A fold whose steps do not depend on the state for their success. -/
theorem succeeds_foldlM {f : σ → α → Except ε σ} {P : α → Prop} (hf : ∀ s a, Succeeds (f s a) ↔ P a)
    {l : List α} {s : σ} : Succeeds (l.foldlM f s) ↔ ∀ a ∈ l, P a := by
  induction l generalizing s with
  | nil => simp
  | cons a l ih =>
    rw [List.foldlM_cons, succeeds_bind, List.forall_mem_cons, ← hf s a]
    exact ⟨fun ⟨s', h, h'⟩ => ⟨⟨s', h⟩, ih.mp h'⟩, fun ⟨⟨s', h⟩, h'⟩ => ⟨s', h, ih.mpr h'⟩⟩

/-- A loop in a loop is one loop over the pairs. -/
theorem foldlM_foldlM {m : Type v → Type w} [Monad m] [LawfulMonad m] {σ : Type v}
    (f : α → σ → β → m σ) (l : List α) (l' : List β) (s : σ) :
    l.foldlM (fun s a => l'.foldlM (f a) s) s =
      (l.flatMap fun a => l'.map (a, ·)).foldlM (fun s p => f p.1 s p.2) s := by
  induction l generalizing s with
  | nil => rfl
  | cons a l ih =>
    rw [List.foldlM_cons, List.flatMap_cons, List.foldlM_append, List.foldlM_map]
    exact bind_congr fun t => ih t

/-- A fold whose state always stands for what has been folded in so far: it succeeds when each
element can be folded in, and then the state stands for the whole list. -/
theorem foldlM_history {f : σ → α → Except ε σ} {g : α → List β} {I : List β → σ → Prop}
    {P : α → Prop} {l : List α} (hs : ∀ h s, ∀ a ∈ l, I h s → (Succeeds (f s a) ↔ P a))
    (hstep : ∀ h s, ∀ a ∈ l, ∀ s', I h s → f s a = .ok s' → I (h ++ g a) s') {h : List β} {s : σ}
    (H : I h s) :
    (Succeeds (l.foldlM f s) ↔ ∀ a ∈ l, P a) ∧
      ∀ s', l.foldlM f s = .ok s' → I (h ++ l.flatMap g) s' := by
  induction l generalizing h s with
  | nil =>
    refine ⟨by simp, fun s' hs' => ?_⟩
    cases hs'
    simpa using H
  | cons a l ih =>
    have ha : a ∈ a :: l := List.mem_cons_self ..
    have ih {t} (ht : f s a = .ok t) := ih (fun h s b hb => hs h s b (List.mem_cons_of_mem _ hb))
      (fun h s b hb => hstep h s b (List.mem_cons_of_mem _ hb)) (hstep h s a ha t H ht)
    rw [List.foldlM_cons, succeeds_bind, List.forall_mem_cons, ← hs h s a ha H]
    refine ⟨⟨?_, ?_⟩, fun s' hs' => ?_⟩
    · rintro ⟨t, ht, hl⟩
      exact ⟨⟨t, ht⟩, (ih ht).1.mp hl⟩
    · rintro ⟨⟨t, ht⟩, hl⟩
      exact ⟨t, ht, (ih ht).1.mpr hl⟩
    · obtain ⟨t, ht, hl⟩ := bind_eq_ok.mp hs'
      have hI := (ih ht).2 s' hl
      rwa [List.flatMap_cons, ← List.append_assoc]

/-- A fold that simulates a total one: it succeeds when each element can be folded in where the
total fold has come to, and then the states still correspond. -/
theorem foldlM_simulates {f : σ → α → Except ε σ} {g : τ → α → τ} {R : σ → τ → Prop}
    {P : τ → α → Prop} (hs : ∀ s t a, R s t → (Succeeds (f s a) ↔ P t a))
    (hstep : ∀ s t a s', R s t → f s a = .ok s' → R s' (g t a)) {l : List α} {s : σ} {t : τ}
    (H : R s t) :
    (Succeeds (l.foldlM f s) ↔
        ∀ before a after, l = before ++ a :: after → P (before.foldl g t) a) ∧
      ∀ s', l.foldlM f s = .ok s' → R s' (l.foldl g t) := by
  induction l generalizing s t with
  | nil =>
    refine ⟨⟨fun _ before a after h => ?_, fun _ => succeeds_ok⟩, fun s' hs' => ?_⟩
    · exact absurd h.symm (List.append_ne_nil_of_right_ne_nil _ (List.cons_ne_nil _ _))
    · cases hs'
      exact H
  | cons a l ih =>
    rw [List.foldlM_cons, succeeds_bind]
    refine ⟨⟨?_, fun h => ?_⟩, fun s' hs' => ?_⟩
    · rintro ⟨s', hs', hl⟩ before b after hb
      cases before with
      | nil =>
        obtain ⟨rfl, -⟩ := List.cons.inj hb
        exact (hs s t a H).mp ⟨s', hs'⟩
      | cons c before =>
        obtain ⟨rfl, hrest⟩ := List.cons.inj hb
        exact (ih (hstep s t a s' H hs')).1.mp hl before b after hrest
    · obtain ⟨s', hs'⟩ := (hs s t a H).mpr (h [] a l rfl)
      refine ⟨s', hs', (ih (hstep s t a s' H hs')).1.mpr fun before b after hb => ?_⟩
      exact h (a :: before) b after (congrArg (a :: ·) hb)
    · obtain ⟨s₁, hs₁, hl⟩ := bind_eq_ok.mp hs'
      exact (ih (hstep s t a s₁ H hs₁)).2 s' hl

/-- A loop whose steps push one result each: what they push corresponds to the elements. -/
theorem foldlM_pushes {f : σ → α → Except ε σ} {view : σ → List β} {R : α → β → Prop}
    (hf : ∀ s a s', f s a = .ok s' → ∃ b, view s' = view s ++ [b] ∧ R a b) {l : List α} {s s' : σ}
    (h : l.foldlM f s = .ok s') : ∃ bs, view s' = view s ++ bs ∧ List.Forall₂ R l bs := by
  induction l generalizing s with
  | nil =>
    cases h
    exact ⟨[], (List.append_nil _).symm, .nil⟩
  | cons a l ih =>
    rw [List.foldlM_cons] at h
    obtain ⟨t, ht, h⟩ := bind_eq_ok.mp h
    obtain ⟨b, hview, hab⟩ := hf s a t ht
    obtain ⟨bs, hview', hbs⟩ := ih h
    refine ⟨b :: bs, ?_, .cons hab hbs⟩
    rw [hview', hview, List.append_assoc, List.singleton_append]

/-- The result that was pushed for the element at a place. -/
theorem foldlM_pushes_getElem? {f : σ → α → Except ε σ} {view : σ → List β} {R : α → β → Prop}
    (hf : ∀ s a s', f s a = .ok s' → ∃ b, view s' = view s ++ [b] ∧ R a b) {l : List α} {s s' : σ}
    (h : l.foldlM f s = .ok s') (hi : l[i]? = some a) :
    ∃ b, (view s')[(view s).length + i]? = some b ∧ R a b := by
  obtain ⟨bs, hview, hbs⟩ := foldlM_pushes hf h
  obtain ⟨hlt, rfl⟩ := List.getElem?_eq_some_iff.mp hi
  have hlt' : i < bs.length := hbs.length_eq ▸ hlt
  refine ⟨bs[i], ?_, hbs.get hlt hlt'⟩
  rw [hview, List.getElem?_append_right (Nat.le_add_right _ _), Nat.add_sub_cancel_left,
    List.getElem?_eq_getElem hlt']

/-! ## Maps that pass a state on -/

/-- Maps a list from left to right; the function also changes a state. -/
def mapAccumM (f : σ → α → Except ε (σ × β)) : σ → List α → Except ε (σ × List β)
  | s, [] => return (s, [])
  | s, a :: l => do
    let (s, b) ← f s a
    let (s, bs) ← mapAccumM f s l
    return (s, b :: bs)

theorem succeeds_mapAccumM {f : σ → α → Except ε (σ × β)} {P : α → Prop}
    (hf : ∀ s a, Succeeds (f s a) ↔ P a) {l : List α} {s : σ} :
    Succeeds (mapAccumM f s l) ↔ ∀ a ∈ l, P a := by
  induction l generalizing s with
  | nil => simp [mapAccumM]
  | cons a l ih =>
    rw [mapAccumM, succeeds_bind, List.forall_mem_cons, ← hf s a]
    constructor
    · rintro ⟨⟨s', b⟩, h, h'⟩
      exact ⟨⟨_, h⟩, ih.mp ((succeeds_bind_of_forall fun _ => succeeds_pure).mp h')⟩
    · rintro ⟨⟨⟨s', b⟩, h⟩, h'⟩
      exact ⟨_, h, (succeeds_bind_of_forall fun _ => succeeds_pure).mpr (ih.mpr h')⟩

/-- A state that each element adds to, and the results. -/
theorem mapAccumM_eq_ok [AddMonoid σ] {f : σ → α → Except ε (σ × β)} {d : α → σ} {R : α → β → Prop}
    (hf : ∀ s a s' b, f s a = .ok (s', b) → s' = s + d a ∧ R a b) {l : List α} {s s' : σ}
    {bs : List β} (h : mapAccumM f s l = .ok (s', bs)) :
    s' = s + (l.map d).sum ∧ List.Forall₂ R l bs := by
  induction l generalizing s bs with
  | nil => cases h; exact ⟨(add_zero _).symm, .nil⟩
  | cons a l ih =>
    rw [mapAccumM] at h
    obtain ⟨⟨s₁, b⟩, hb, h⟩ := bind_eq_ok.mp h
    obtain ⟨⟨s₂, bs'⟩, hbs, h⟩ := bind_eq_ok.mp h
    cases h
    obtain ⟨rfl, hR⟩ := hf _ _ _ _ hb
    obtain ⟨rfl, hRs⟩ := ih hbs
    exact ⟨by rw [List.map_cons, List.sum_cons, add_assoc], .cons hR hRs⟩

/-! ## Partial maps -/

theorem exists_mapM_eq_some {f : α → Option β} {l : List α} (h : ∀ a ∈ l, ∃ b, f a = some b) :
    ∃ l', l.mapM f = some l' := by
  induction l with
  | nil => exact ⟨[], rfl⟩
  | cons a l ih =>
    obtain ⟨⟨b, hb⟩, hl⟩ := List.forall_mem_cons.mp h
    obtain ⟨bs, hbs⟩ := ih hl
    exact ⟨b :: bs, by rw [List.mapM_cons, hb, hbs]; rfl⟩

/-- Through a list that goes through a partial function, elements and results correspond. -/
theorem mem_of_mapM {f : α → Option β} {l : List α} {l' : List β} (h : l.mapM f = some l') :
    (∀ a ∈ l, ∃ b ∈ l', f a = some b) ∧ ∀ b ∈ l', ∃ a ∈ l, f a = some b := by
  induction l generalizing l' with
  | nil =>
    obtain rfl : [] = l' := by simpa using h
    exact ⟨fun _ h => (nomatch h), fun _ h => nomatch h⟩
  | cons a l ih =>
    rw [List.mapM_cons] at h
    obtain ⟨b, hb, h⟩ := Option.bind_eq_some_iff.mp h
    obtain ⟨bs, hbs, h⟩ := Option.bind_eq_some_iff.mp h
    obtain rfl : b :: bs = l' := Option.some.inj h
    obtain ⟨hl, hl'⟩ := ih hbs
    refine ⟨List.forall_mem_cons.mpr ⟨⟨b, List.mem_cons_self .., hb⟩, fun a' ha' => ?_⟩,
      List.forall_mem_cons.mpr ⟨⟨a, List.mem_cons_self .., hb⟩, fun b' hb' => ?_⟩⟩
    · obtain ⟨b', hb', hf⟩ := hl a' ha'
      exact ⟨b', List.mem_cons_of_mem _ hb', hf⟩
    · obtain ⟨a', ha', hf⟩ := hl' b' hb'
      exact ⟨a', List.mem_cons_of_mem _ ha', hf⟩

theorem length_of_mapM {f : α → Option β} {l : List α} {l' : List β} (h : l.mapM f = some l') :
    l'.length = l.length := by
  induction l generalizing l' with
  | nil =>
    obtain rfl : [] = l' := by simpa using h
    rfl
  | cons a l ih =>
    rw [List.mapM_cons] at h
    obtain ⟨b, -, h⟩ := Option.bind_eq_some_iff.mp h
    obtain ⟨bs, hbs, h⟩ := Option.bind_eq_some_iff.mp h
    obtain rfl : b :: bs = l' := Option.some.inj h
    rw [List.length_cons, List.length_cons, ih hbs]

/-- What is made of the results, from the arguments. -/
theorem filterMap_of_mapM {f : α → Option β} {g : β → Option γ} {l : List α} {l' : List β}
    (h : l.mapM f = some l') : l'.filterMap g = l.filterMap fun a => (f a).bind g := by
  induction l generalizing l' with
  | nil =>
    cases h
    rfl
  | cons a l ih =>
    rw [List.mapM_cons] at h
    obtain ⟨b, hb, h⟩ := Option.bind_eq_some_iff.mp h
    obtain ⟨bs, hbs, h⟩ := Option.bind_eq_some_iff.mp h
    cases h
    rw [List.filterMap_cons, List.filterMap_cons, hb, Option.bind_some, ih hbs]

/-- Each result with its argument. -/
theorem mapM_zipWith {α : Type u} {β γ : Type v} {f : α → Option β} (g : α → β → γ) (l : List α) :
    (do let bs ← l.mapM f; pure (l.zipWith g bs)) = l.mapM fun a => (f a).map (g a) := by
  induction l with
  | nil => rfl
  | cons a l ih =>
    rw [List.mapM_cons, List.mapM_cons, ← ih]
    cases f a with
    | none => rfl
    | some b => cases l.mapM f <;> rfl

/-- A list that goes through two partial functions, one after the other or both at once. -/
theorem mapM_bind_mapM {α : Type u} {β γ : Type v} (f : α → Option β) (g : β → Option γ) (l : List α) :
    (l.mapM f).bind (fun bs => bs.mapM g) = l.mapM fun a => (f a).bind g := by
  induction l with
  | nil => rfl
  | cons a l ih =>
    rw [List.mapM_cons, List.mapM_cons, ← ih]
    cases hb : f a with
    | none => rfl
    | some b =>
      cases hbs : l.mapM f with
      | none =>
        cases hc : g b with
        | none => simp [hc]
        | some c => simp [hc]
      | some bs => simp [List.mapM_cons]

end Theory
end DefiBackend
