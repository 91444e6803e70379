import Mathlib.Algebra.BigOperators.Group.List.Basic

/-! # Passes over objects that may stop

A pass changes an object in place, adds to an accumulator outside of it, and may throw. What it has
done before it throws stays done. Passes are put together as statements are: one after the other,
on a field, by a condition, in a loop over a list.

* `forEach_done` and `forEach_stopped`: what a loop leaves when it goes through, and when it stops
  at an element.
* `forEach_object_iff`: a loop leaves a list as it is if it leaves the elements that it reaches so.
* `Stops`: a pass that throws before it does anything, with a rule for each construct. -/

namespace DefiBackend
namespace Theory

/-- What a pass over an object has done: the object as it is left, what has been added, and whether
the pass has thrown. -/
structure Visit (M : Type v) (α : Type u) where
  object : α
  added : M
  threw : Bool
  deriving DecidableEq

/-- A pass over objects of a type. -/
abbrev Pass (M : Type v) (α : Type u) := α → Visit M α

namespace Pass
variable {M : Type v} {α : Type u} {β : Type w} {σ : Type x}

/-- `accumulator += g(object)`. -/
def count (g : α → M) : Pass M α := fun a => ⟨a, g a, false⟩

def cond (c : α → Bool) (p q : Pass M α) : Pass M α := fun a => if c a then p a else q a

/-- A pass over a field. -/
def onField (get : α → β) (put : β → α → α) (p : Pass M β) : Pass M α := fun a =>
  ⟨put (p (get a)).object a, (p (get a)).added, (p (get a)).threw⟩

@[simp] theorem count_threw (g : α → M) (a : α) : (count g a).threw = false := rfl

@[simp] theorem count_object (g : α → M) (a : α) : (count g a).object = a := rfl

theorem cond_of_true {c : α → Bool} {p q : Pass M α} {a : α} (h : c a = true) :
    cond c p q a = p a := if_pos h

theorem cond_of_false {c : α → Bool} {p q : Pass M α} {a : α} (h : c a = false) :
    cond c p q a = q a := if_neg (Bool.eq_false_iff.mp h)

theorem onField_of_eq {p : Pass M β} {get : α → β} {put : β → α → α} {a : α} {v : Visit M β}
    (h : p (get a) = v) : p.onField get put a = ⟨put v.object a, v.added, v.threw⟩ := by
  rw [← h]
  rfl

@[simp] theorem onField_threw (get : α → β) (put : β → α → α) (p : Pass M β) (a : α) :
    (p.onField get put a).threw = (p (get a)).threw := rfl

@[simp] theorem onField_object (get : α → β) (put : β → α → α) (p : Pass M β) (a : α) :
    (p.onField get put a).object = put (p (get a)).object a := rfl

/-- A loop that throws stops at the first element that throws. -/
theorem exists_stop {p : Pass M α} {l : List α} (h : ∃ a ∈ l, (p a).threw = true) :
    ∃ l₁ a l₂, l = l₁ ++ a :: l₂ ∧ (∀ b ∈ l₁, (p b).threw = false) ∧ (p a).threw = true := by
  induction l with
  | nil =>
    obtain ⟨a, ha, -⟩ := h
    cases ha
  | cons b l ih =>
    cases hb : (p b).threw
    · obtain ⟨a, ha, hthrew⟩ := h
      rcases List.mem_cons.mp ha with rfl | ha
      · rw [hb] at hthrew
        cases hthrew
      · obtain ⟨l₁, a, l₂, rfl, hl₁, hthrew⟩ := ih ⟨a, ha, hthrew⟩
        refine ⟨b :: l₁, a, l₂, rfl, fun c hc => ?_, hthrew⟩
        rcases List.mem_cons.mp hc with rfl | hc
        · exact hb
        · exact hl₁ c hc
    · exact ⟨[], b, l, rfl, by simp, hb⟩

variable [AddMonoid M]

def skip : Pass M α := fun a => ⟨a, 0, false⟩

def throwing : Pass M α := fun a => ⟨a, 0, true⟩

/-- An assignment to fields of the object. -/
def assign (f : α → α) : Pass M α := fun a => ⟨f a, 0, false⟩

/-- One statement after the other. -/
def seq (p q : Pass M α) : Pass M α := fun a =>
  if (p a).threw then p a
  else
    ⟨(q (p a).object).object, (p a).added + (q (p a).object).added, (q (p a).object).threw⟩

/-- A dereference that throws unless the condition holds. -/
def require (c : α → Bool) : Pass M α := cond c skip throwing

/-- A pass over an object that must be there. -/
def needed (p : Pass M α) : Pass M (Option α)
  | none => throwing none
  | some a => ⟨some (p a).object, (p a).added, (p a).threw⟩

/-- A pass over an object if it is there. -/
def optional (p : Pass M α) : Pass M (Option α)
  | none => skip none
  | some a => ⟨some (p a).object, (p a).added, (p a).threw⟩

/-- A pass over `list[0]`. -/
def onHead (p : Pass M α) : Pass M (List α)
  | [] => throwing []
  | a :: l => ⟨(p a).object :: l, (p a).added, (p a).threw⟩

/-- `list.forEach(p)`. -/
def forEach (p : Pass M α) : Pass M (List α)
  | [] => skip []
  | a :: l =>
    if (p a).threw then ⟨(p a).object :: l, (p a).added, true⟩
    else ⟨(p a).object :: (forEach p l).object, (p a).added + (forEach p l).added,
      (forEach p l).threw⟩

/-- `list.forEach(p)` where `p` also changes an object outside of the list. -/
def forEachSharing (p : Pass M (σ × α)) : Pass M (σ × List α)
  | (s, []) => skip (s, [])
  | (s, a :: l) =>
    let v := p (s, a)
    if v.threw then ⟨(v.object.1, v.object.2 :: l), v.added, true⟩
    else
      let w := forEachSharing p (v.object.1, l)
      ⟨(w.object.1, v.object.2 :: w.object.2), v.added + w.added, w.threw⟩

/-! ## Whether a pass throws -/

@[simp] theorem skip_threw (a : α) : (skip a : Visit M α).threw = false := rfl

@[simp] theorem throwing_threw (a : α) : (throwing a : Visit M α).threw = true := rfl

@[simp] theorem assign_threw (f : α → α) (a : α) : (assign f a : Visit M α).threw = false := rfl

@[simp] theorem assign_object (f : α → α) (a : α) : (assign f a : Visit M α).object = f a := rfl

@[simp] theorem require_threw (c : α → Bool) (a : α) : (require c a : Visit M α).threw = !c a := by
  unfold require cond
  cases c a <;> rfl

@[simp] theorem require_object (c : α → Bool) (a : α) : (require c a : Visit M α).object = a := by
  unfold require cond
  cases c a <;> rfl

theorem require_of_true {c : α → Bool} {a : α} (h : c a = true) :
    (require c a : Visit M α) = ⟨a, 0, false⟩ := if_pos h

theorem require_of_false {c : α → Bool} {a : α} (h : c a = false) :
    (require c a : Visit M α) = ⟨a, 0, true⟩ := if_neg (Bool.eq_false_iff.mp h)

theorem seq_threw (p q : Pass M α) (a : α) :
    (p.seq q a).threw = ((p a).threw || (q (p a).object).threw) := by
  unfold seq
  cases h : (p a).threw
  · rfl
  · rw [if_pos rfl, h, Bool.true_or]

theorem seq_of_done {p q : Pass M α} {a : α} (h : (p a).threw = false) :
    p.seq q a =
      ⟨(q (p a).object).object, (p a).added + (q (p a).object).added, (q (p a).object).threw⟩ := by
  unfold seq
  rw [h]
  rfl

/-- A statement that does not count or throw. -/
theorem seq_of_silent {p q : Pass M α} {a b : α} (h : p a = ⟨b, 0, false⟩) : p.seq q a = q b := by
  rw [seq_of_done (by rw [h]), h]
  exact congrArg (Visit.mk _ · _) (zero_add _)

theorem onField_seq {p : Pass M β} {get : α → β} {put : β → α → α} {a : α} {b b' : β}
    (h : p b = ⟨b', 0, false⟩) (hget : get a = b) (q : Pass M α) :
    (p.onField get put).seq q a = q (put b' a) := by
  subst hget
  exact seq_of_silent (onField_of_eq h)

theorem seq_of_threw {p q : Pass M α} {a : α} (h : (p a).threw = true) : p.seq q a = p a := if_pos h

theorem seq_object (p q : Pass M α) (a : α) :
    (p.seq q a).object = if (p a).threw then (p a).object else (q (p a).object).object := by
  unfold seq
  split <;> rfl

theorem seq_added (p q : Pass M α) (a : α) :
    (p.seq q a).added =
      if (p a).threw then (p a).added else (p a).added + (q (p a).object).added := by
  unfold seq
  split <;> rfl

theorem onField_seq_of_threw {p : Pass M β} {get : α → β} {put : β → α → α} {a : α} {b b' : β}
    {m : M} (h : p b = ⟨b', m, true⟩) (hget : get a = b) (q : Pass M α) :
    (p.onField get put).seq q a = ⟨put b' a, m, true⟩ := by
  subst hget
  rw [seq_of_threw (by rw [onField_of_eq h]), onField_of_eq h]

theorem assign_seq (f : α → α) (q : Pass M α) (a : α) : (assign f).seq q a = q (f a) :=
  seq_of_silent (p := assign f) rfl

theorem require_seq {c : α → Bool} {a : α} (h : c a = true) (q : Pass M α) :
    (require c).seq q a = q a := seq_of_silent (require_of_true h)

theorem require_seq_of_false {c : α → Bool} {a : α} (h : c a = false) (q : Pass M α) :
    (require c).seq q a = ⟨a, 0, true⟩ := by
  rw [seq_of_threw (by rw [require_of_false h]), require_of_false h]

theorem forEach_threw (p : Pass M α) (l : List α) :
    (p.forEach l).threw = l.any fun a => (p a).threw := by
  induction l with
  | nil => rfl
  | cons a l ih =>
    rw [forEach, List.any_cons]
    cases h : (p a).threw
    · rw [if_neg Bool.false_ne_true, ih, Bool.false_or]
    · rw [if_pos rfl, Bool.true_or]

/-! ## What a loop leaves -/

/-- A loop that goes through visits every element. -/
theorem forEach_done {p : Pass M α} {l : List α} (h : ∀ a ∈ l, (p a).threw = false) :
    p.forEach l = ⟨l.map fun a => (p a).object, (l.map fun a => (p a).added).sum, false⟩ := by
  induction l with
  | nil => rfl
  | cons a l ih =>
    rw [forEach, h a (List.mem_cons_self ..), if_neg Bool.false_ne_true,
      ih fun a ha => h a (List.mem_cons_of_mem _ ha), List.map_cons, List.map_cons, List.sum_cons]

/-- A loop that stops leaves the elements after the one it stops at. -/
theorem forEach_stopped {p : Pass M α} {l l' : List α} {a : α} (h : ∀ b ∈ l, (p b).threw = false)
    (ha : (p a).threw = true) :
    p.forEach (l ++ a :: l') =
      ⟨l.map (fun b => (p b).object) ++ (p a).object :: l',
        (l.map fun b => (p b).added).sum + (p a).added, true⟩ := by
  induction l with
  | nil =>
    rw [List.nil_append, forEach, if_pos ha]
    simp
  | cons b l ih =>
    rw [List.cons_append, forEach, h b (List.mem_cons_self ..), if_neg Bool.false_ne_true,
      ih fun b hb => h b (List.mem_cons_of_mem _ hb), List.map_cons, List.map_cons, List.sum_cons,
      add_assoc, List.cons_append]

/-- An element that a loop reaches which stops at the first one that is not good. -/
def Reached (good : α → Prop) (l : List α) (a : α) : Prop :=
  ∃ l₁ l₂, l = l₁ ++ a :: l₂ ∧ ∀ b ∈ l₁, good b

@[simp] theorem not_reached_nil {good : α → Prop} {a : α} : ¬ Reached good [] a := by
  rintro ⟨l₁, l₂, h, -⟩
  cases l₁ <;> cases h

theorem reached_cons {good : α → Prop} {l : List α} {a b : α} :
    Reached good (b :: l) a ↔ a = b ∨ good b ∧ Reached good l a := by
  constructor
  · rintro ⟨l₁, l₂, h, hgood⟩
    cases l₁ with
    | nil =>
      cases h
      exact .inl rfl
    | cons c l₁ =>
      cases h
      refine .inr ⟨hgood b (List.mem_cons_self ..), l₁, l₂, rfl, fun d hd => ?_⟩
      exact hgood d (List.mem_cons_of_mem _ hd)
  · rintro (rfl | ⟨hb, l₁, l₂, rfl, hgood⟩)
    · exact ⟨[], l, rfl, by simp⟩
    · exact ⟨b :: l₁, l₂, rfl, List.forall_mem_cons.mpr ⟨hb, hgood⟩⟩

/-- A loop leaves a list as it is exactly if it leaves every element so that it reaches. -/
theorem forEach_object_iff {p : Pass M α} {l : List α} :
    (p.forEach l).object = l ↔
      ∀ a, Reached (fun b => (p b).threw = false) l a → (p a).object = a := by
  induction l with
  | nil => exact iff_of_true rfl fun a h => absurd h not_reached_nil
  | cons b l ih =>
    simp only [reached_cons, forall_eq_or_imp]
    rw [forEach]
    cases hb : (p b).threw
    · simp [ih]
    · simp

/-- A loop counts the elements before the one it stops at, if this does not count. -/
theorem forEach_added {p : Pass M α} {l : List α}
    (h : ∀ a ∈ l, (p a).threw = true → (p a).added = 0) :
    (p.forEach l).added =
      ((l.takeWhile fun a => !(p a).threw).map fun a => (p a).added).sum := by
  induction l with
  | nil => rfl
  | cons a l ih =>
    rw [forEach, List.takeWhile_cons]
    cases ha : (p a).threw
    · rw [if_neg Bool.false_ne_true, ih fun b hb => h b (List.mem_cons_of_mem _ hb)]
      rfl
    · exact h a (List.mem_cons_self ..) ha

/-- What a pass makes of an object: it goes through if this is well formed, it adds its contribution
then and what it has reached otherwise, and it leaves a settled object as it is. -/
structure Values (p : Pass M α) (a : α) (WellFormed : Prop) (contribution reached : M)
    (Settled : Prop) : Prop where
  threw_iff : (p a).threw = false ↔ WellFormed
  added_eq : WellFormed → (p a).added = contribution
  reached_eq : ¬ WellFormed → (p a).added = reached
  object_iff : (p a).object = a ↔ Settled

section
variable {v : Visit M α} {a : α} {WellFormed Settled : Prop} {contribution reached : M}

omit [AddMonoid M] in
theorem Values.of_eq {p q : Pass M α} (H : q.Values a WellFormed contribution reached Settled)
    (h : p a = q a) : p.Values a WellFormed contribution reached Settled := by
  refine ⟨?_, ?_, ?_, ?_⟩ <;> rw [h]
  · exact H.threw_iff
  · exact H.added_eq
  · exact H.reached_eq
  · exact H.object_iff

omit [AddMonoid M] in
/-- What is to be said of a visit to a well-formed object. -/
theorem values_of_done (hthrew : v.threw = false) (hwf : WellFormed) (hadded : v.added = contribution)
    (hobject : v.object = a ↔ Settled) :
    (v.threw = false ↔ WellFormed) ∧ (WellFormed → v.added = contribution) ∧
      (¬ WellFormed → v.added = reached) ∧ (v.object = a ↔ Settled) :=
  ⟨iff_of_true hthrew hwf, fun _ => hadded, fun h => absurd hwf h, hobject⟩

omit [AddMonoid M] in
/-- What is to be said of a visit that throws. -/
theorem values_of_threw (hthrew : v.threw = true) (hwf : ¬ WellFormed) (hadded : v.added = reached)
    (hobject : v.object = a ↔ Settled) :
    (v.threw = false ↔ WellFormed) ∧ (WellFormed → v.added = contribution) ∧
      (¬ WellFormed → v.added = reached) ∧ (v.object = a ↔ Settled) :=
  ⟨iff_of_false (Bool.not_eq_false _ ▸ hthrew) hwf, fun h => absurd h hwf, fun _ => hadded, hobject⟩

end

/-! ## Passes that stop at once -/

/-- The pass throws on an object before it has done anything. -/
def StopsAt (p : Pass M α) (a : α) : Prop := p a = ⟨a, 0, true⟩

/-- The pass stops at every object. -/
def Stops (p : Pass M α) : Prop := ∀ a, p.StopsAt a

theorem StopsAt.seq {p : Pass M α} {a : α} (h : p.StopsAt a) (q : Pass M α) :
    (p.seq q).StopsAt a := by
  unfold StopsAt
  rwa [seq_of_threw (by rw [h])]

/-- A pass stops after a statement that does nothing. -/
theorem StopsAt.after {p q : Pass M α} {a : α} (hp : p a = ⟨a, 0, false⟩) (h : q.StopsAt a) :
    (p.seq q).StopsAt a := by
  unfold StopsAt
  rw [seq_of_silent hp, h]

theorem StopsAt.onField {p : Pass M β} {get : α → β} {put : β → α → α} {a : α}
    (h : p.StopsAt (get a)) (hput : put (get a) a = a) : (p.onField get put).StopsAt a := by
  unfold StopsAt
  rw [onField_of_eq h, hput]

theorem StopsAt.cond {c : α → Bool} {p q : Pass M α} {a : α} (hp : c a = true → p.StopsAt a)
    (hq : c a = false → q.StopsAt a) : (cond c p q).StopsAt a := by
  unfold StopsAt
  cases hc : c a
  · exact (cond_of_false hc).trans (hq hc)
  · exact (cond_of_true hc).trans (hp hc)

theorem StopsAt.needed {p : Pass M α} {o : Option α} (h : ∀ a, o = some a → p.StopsAt a) :
    (needed p).StopsAt o := by
  cases o with
  | none => rfl
  | some a =>
    have hstops : p a = ⟨a, 0, true⟩ := h a rfl
    simp [StopsAt, Pass.needed, hstops]

theorem StopsAt.optional {p : Pass M α} {a : α} (h : p.StopsAt a) : (optional p).StopsAt (some a) := by
  have hstops : p a = ⟨a, 0, true⟩ := h
  simp [StopsAt, Pass.optional, hstops]

/-- What is required is missing, or the rest stops. -/
theorem StopsAt.require {c : α → Bool} {p : Pass M α} {a : α} (h : c a = true → p.StopsAt a) :
    ((require c).seq p).StopsAt a := by
  cases hc : c a
  · exact require_seq_of_false hc p
  · exact StopsAt.after (require_of_true hc) (h hc)

/-- A pass over a field that changes nothing yet. -/
theorem onField_eq_skip {p : Pass M β} {get : α → β} {put : β → α → α} {a : α} {b : β}
    (h : get a = b) (hp : p b = ⟨b, 0, false⟩) (hput : put b a = a) :
    p.onField get put a = ⟨a, 0, false⟩ := by
  subst h
  rw [onField_of_eq hp, hput]

theorem stops_throwing : Stops (throwing : Pass M α) := fun _ => rfl

theorem Stops.seq {p : Pass M α} (h : p.Stops) (q : Pass M α) : (p.seq q).Stops :=
  fun a => (h a).seq q

theorem Stops.onField {p : Pass M β} {get : α → β} {put : β → α → α} (h : p.Stops)
    (hput : ∀ a, put (get a) a = a) : (p.onField get put).Stops :=
  fun a => (h (get a)).onField (hput a)

theorem Stops.needed {p : Pass M α} (h : p.Stops) : (needed p).Stops :=
  fun _ => StopsAt.needed fun a _ => h a

theorem Stops.forEach {p : Pass M α} (h : p.Stops) {l : List α} (hl : l ≠ []) :
    (forEach p).StopsAt l := by
  cases l with
  | nil => exact absurd rfl hl
  | cons a l =>
    unfold StopsAt
    rw [Pass.forEach, h a, if_pos rfl]

theorem Stops.forEachSharing {p : Pass M (σ × α)} (h : p.Stops) (s : σ) {l : List α} (hl : l ≠ []) :
    (forEachSharing p).StopsAt (s, l) := by
  cases l with
  | nil => exact absurd rfl hl
  | cons a l =>
    unfold StopsAt
    rw [Pass.forEachSharing, h (s, a)]
    rfl

end Pass
end Theory
end DefiBackend
