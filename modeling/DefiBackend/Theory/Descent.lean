import Mathlib.Data.Fintype.EquivFin
import Mathlib.Data.Set.Finite.Basic
import Mathlib.Logic.Relation

/-! # Searches that go down

A search settles an object at once, or gives it up, or searches the objects below it one after the
other: the object is settled when they all are, and given up with the first of them that is.

* `Descent.Settles` and `Descent.Stops`: the searches that come to an end.
* `Descent.Sound`: nothing below the object is given up or leads back to itself.
* `Descent.Follows`: the search of the first object gets to the second.
* Where only finitely many objects are below others, a search settles what is sound
  (`Descent.settles_iff_sound`), and it comes to an end exactly when it gets to nothing that it gets
  back to (`Descent.ends_iff`). -/

namespace DefiBackend
namespace Theory
open Relation

section
variable {r : α → α → Prop}

/-- Nothing that is reached leads back to itself. -/
def AcyclicFrom (r : α → α → Prop) (a : α) : Prop :=
  ∀ b, ReflTransGen r a b → ¬ TransGen r b b

theorem AcyclicFrom.next {a b : α} (H : AcyclicFrom r a) (h : r a b) : AcyclicFrom r b :=
  fun c hc => H c (hc.head h)

theorem acyclicFrom_of_next {a : α} (H : ∀ b, r a b → AcyclicFrom r b) : AcyclicFrom r a := by
  intro c hc hcycle
  rcases hc.cases_head with rfl | ⟨b, hb, hbc⟩
  · obtain ⟨b, hb, hba⟩ := TransGen.head'_iff.mp hcycle
    exact H b hb _ hba hcycle
  · exact H b hb c hbc hcycle

theorem AcyclicFrom.mono {r' : α → α → Prop} {a : α} (H : AcyclicFrom r a)
    (h : ∀ a b, r' a b → r a b) : AcyclicFrom r' a :=
  fun b hb hcycle => H b (ReflTransGen.mono h _ _ hb) (TransGen.mono h _ _ hcycle)

/-- A relation that only leads into a finite set goes down, where nothing leads back to itself. -/
theorem AcyclicFrom.acc {a : α} (H : AcyclicFrom r a) {s : Set α} (hs : s.Finite)
    (hr : ∀ a b, r a b → b ∈ s) : Acc (fun b a => r a b) a := by
  let T := {b // ReflTransGen r a b}
  have hT : {b | ReflTransGen r a b} ⊆ insert a s := by
    intro b hb
    rcases hb.cases_tail with rfl | ⟨c, -, hc⟩
    · exact Set.mem_insert _ _
    · exact Set.mem_insert_of_mem _ (hr _ _ hc)
  have : Finite T := (hs.insert a).subset hT
  let R : T → T → Prop := fun x y => TransGen r y.1 x.1
  have : IsTrans T R := ⟨fun _ _ _ hxy hyz => hyz.trans hxy⟩
  have : Std.Irrefl R := ⟨fun x => H x.1 x.2⟩
  have hwf : WellFounded R := Finite.wellFounded_of_trans_of_irrefl R
  have hacc : ∀ x : T, Acc (fun b a => r a b) x.1 := by
    intro x
    induction x using hwf.induction with
    | _ x ih => exact ⟨_, fun y hy => ih ⟨y, x.2.tail hy⟩ (.single hy)⟩
  exact hacc ⟨a, .refl⟩

end

/-- How objects are searched: some are settled, and the others have objects below them or none. -/
structure Descent (α : Type u) where
  settled : α → Prop
  below : α → Option (List α)

namespace Descent

section
variable (D : Descent α)

/-- The second object is below the first, which is not settled. -/
def Step (a b : α) : Prop :=
  ¬ D.settled a ∧ ∃ list, D.below a = some list ∧ b ∈ list

/-- The search of an object ends, and settles it. -/
inductive Settles : α → Prop
  | settled : D.settled a → Settles a
  | all : ¬ D.settled a → D.below a = some list → (∀ b ∈ list, Settles b) → Settles a

/-- The search of an object ends, and gives it up. -/
inductive Stops : α → Prop
  | dead : ¬ D.settled a → D.below a = none → Stops a
  | first : ¬ D.settled a → D.below a = some (before ++ b :: after) →
    (∀ c ∈ before, D.Settles c) → Stops b → Stops a

/-- Nothing below an object is given up or leads back to itself. -/
def Sound (a : α) : Prop :=
  (∀ b, ReflTransGen D.Step a b → D.settled b ∨ (D.below b).isSome) ∧ AcyclicFrom D.Step a

/-- The search gets from an object to one below it when those before it are sound. -/
def Follows (a b : α) : Prop :=
  ¬ D.settled a ∧ ∃ before after, D.below a = some (before ++ b :: after) ∧
    ∀ c ∈ before, D.Sound c

/-- Only finitely many objects are below others. -/
def FinitelyBelow : Prop := {b | ∃ a list, D.below a = some list ∧ b ∈ list}.Finite

end

variable {D : Descent α}

theorem Follows.step {a b : α} (h : D.Follows a b) : D.Step a b := by
  obtain ⟨hsettled, before, after, hbelow, -⟩ := h
  exact ⟨hsettled, _, hbelow, List.mem_append_cons_self⟩

theorem not_step_of_settled {a b : α} (h : D.settled a) : ¬ D.Step a b := fun hstep => hstep.1 h

/-- An object that is not settled is sound with those below it. -/
theorem sound_of_below {a : α} {list : List α} (hbelow : D.below a = some list)
    (h : ∀ b ∈ list, D.Sound b) : D.Sound a := by
  have hnext : ∀ b, D.Step a b → D.Sound b := by
    intro b ⟨_, list', hlist', hb⟩
    rw [hbelow] at hlist'
    cases hlist'
    exact h b hb
  refine ⟨fun c hc => ?_, acyclicFrom_of_next fun b hb => (hnext b hb).2⟩
  rcases hc.cases_head with rfl | ⟨b, hb, hbc⟩
  · exact .inr (hbelow ▸ rfl)
  · exact (hnext b hb).1 c hbc

theorem Sound.next {a b : α} (H : D.Sound a) (h : D.Step a b) : D.Sound b :=
  ⟨fun c hc => H.1 c (hc.head h), H.2.next h⟩

theorem Settles.sound {a : α} (H : D.Settles a) : D.Sound a := by
  induction H with
  | @settled a h =>
    refine ⟨fun b hb => ?_, acyclicFrom_of_next fun b hb => (not_step_of_settled h hb).elim⟩
    rcases hb.cases_head with rfl | ⟨c, hc, -⟩
    · exact .inl h
    · exact (not_step_of_settled h hc).elim
  | all _ hbelow _ ih => exact sound_of_below hbelow ih

theorem settles_iff_sound (hfin : D.FinitelyBelow) {a : α} : D.Settles a ↔ D.Sound a := by
  refine ⟨Settles.sound, fun H => ?_⟩
  have hacc : Acc (fun b a => D.Step a b) a :=
    H.2.acc hfin fun a b ⟨_, list, hbelow, hb⟩ => ⟨a, list, hbelow, hb⟩
  induction hacc with
  | intro a _ ih =>
    by_cases hsettled : D.settled a
    · exact .settled hsettled
    · obtain ⟨list, hbelow⟩ := Option.isSome_iff_exists.mp ((H.1 a .refl).resolve_left hsettled)
      refine .all hsettled hbelow fun b hb => ?_
      have hstep : D.Step a b := ⟨hsettled, list, hbelow, hb⟩
      exact ih b hstep (H.next hstep)

/-- What is given up is not settled. -/
theorem Stops.not_settles {a : α} (H : D.Stops a) : ¬ D.Settles a := by
  induction H with
  | dead hsettled hbelow =>
    intro h
    cases h with
    | settled h => exact hsettled h
    | all _ h _ =>
      rw [hbelow] at h
      cases h
  | first hsettled hbelow _ _ ih =>
    intro h
    cases h with
    | settled h => exact hsettled h
    | all _ hbelow' h =>
      rw [hbelow] at hbelow'
      cases hbelow'
      exact ih (h _ List.mem_append_cons_self)

/-- The objects that the search of one gets to before it gives up. -/
theorem follows_of_stops (hfin : D.FinitelyBelow) {a b c : α} {before after : List α}
    (hbelow : D.below a = some (before ++ b :: after)) (hstops : D.Stops b)
    (h : D.Follows a c) : c ∈ before ∨ c = b := by
  obtain ⟨-, before', after', hbelow', hsound⟩ := h
  rw [hbelow] at hbelow'
  have hlist : before ++ b :: after = before' ++ c :: after' := Option.some.inj hbelow'
  rcases List.append_eq_append_iff.mp hlist with ⟨mid, rfl, hmid⟩ | ⟨mid, rfl, hmid⟩
  · cases mid with
    | nil => exact .inr (List.cons.inj hmid).1.symm
    | cons d mid =>
      have hd : b = d := (List.cons.inj hmid).1
      exact absurd ((settles_iff_sound hfin).mpr (hsound b (by simp [hd]))) hstops.not_settles
  · cases mid with
    | nil => exact .inr (List.cons.inj hmid).1
    | cons d mid =>
      have hd : c = d := (List.cons.inj hmid).1
      exact .inl (by simp [hd])

/-- A search comes to an end exactly when nothing that it gets to leads it back. -/
theorem ends_iff (hfin : D.FinitelyBelow) {a : α} :
    D.Settles a ∨ D.Stops a ↔ AcyclicFrom D.Follows a := by
  constructor
  · intro h
    have hsettles : ∀ {a}, D.Settles a → AcyclicFrom D.Follows a :=
      fun h => h.sound.2.mono fun _ _ => Follows.step
    rcases h with h | h
    · exact hsettles h
    · induction h with
      | dead _ hbelow =>
        refine acyclicFrom_of_next fun b hb => ?_
        obtain ⟨-, _, _, h, -⟩ := hb
        rw [hbelow] at h
        cases h
      | first _ hbelow hbefore hstops ih =>
        refine acyclicFrom_of_next fun c hc => ?_
        rcases follows_of_stops hfin hbelow hstops hc with hmem | rfl
        · exact hsettles (hbefore c hmem)
        · exact ih
  · intro H
    have hacc : Acc (fun b a => D.Follows a b) a :=
      H.acc hfin fun a b h => ⟨a, h.step.2⟩
    induction hacc with
    | intro a _ ih =>
      by_cases hsettled : D.settled a
      · exact .inl (.settled hsettled)
      cases hbelow : D.below a with
      | none => exact .inr (.dead hsettled hbelow)
      | some list =>
        classical
        cases hfirst : list.find? (fun b => ¬ D.Settles b) with
        | none =>
          refine .inl (.all hsettled hbelow fun b hb => ?_)
          simpa using List.find?_eq_none.mp hfirst b hb
        | some b =>
          obtain ⟨hb, before, after, rfl, hbefore⟩ := List.find?_eq_some_iff_append.mp hfirst
          have hbefore : ∀ c ∈ before, D.Settles c := fun c hc => by simpa using hbefore c hc
          have hfollows : D.Follows a b :=
            ⟨hsettled, before, after, hbelow, fun c hc => (hbefore c hc).sound⟩
          have hstops : D.Stops b :=
            (ih b hfollows (H.next hfollows)).resolve_left (of_decide_eq_true hb)
          exact .inr (.first hsettled hbelow hbefore hstops)

/-- Objects that are alike for the search settle together. -/
theorem Settles.congr {a b : α} (H : D.Settles a) (hsettled : D.settled a ↔ D.settled b)
    (hbelow : D.below a = D.below b) : D.Settles b := by
  cases H with
  | settled h => exact .settled (hsettled.mp h)
  | all h h' hlist => exact .all (mt hsettled.mpr h) (hbelow ▸ h') hlist

end Descent

end Theory
end DefiBackend
