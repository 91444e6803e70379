import DefiBackend.Theory.Run
import Mathlib.Data.List.Perm.Basic
import Mathlib.Logic.Function.Basic

/-! # Tasks that are awaited together

`await Promise.all(batch.map(...))` in a loop over batches: the tasks of a batch wait at once, and
each takes effect, without a break, when what it waits for comes; the next batch begins when none
waits.

* `Batches.step`: a batch begins, or one of the waiting tasks takes effect;
* `exists_order`: when all is done, the state is that of the tasks taken in some order;
* `answers_order`: so it is for the tasks of one batch alone.

With `Promise.all(list.map(async (tasks) => { for (const task of tasks) await ... }))` each list of
tasks is worked off in its order, and the lists take turns in any way.

* `Sequences.step`: the next task of one of the lists takes effect;
* `Separate.run_view`: what only one list acts on becomes what that list alone makes of it. -/

namespace DefiBackend
namespace Theory

structure Batches (σ : Type u) (α : Type v) where
  todo : List (List α)
  waiting : List α
  state : σ

inductive Turn
  | begin
  | answer (i : Nat)

namespace Batches
variable {σ : Type u} {α : Type v} (effect : σ → α → σ) {b b' : Batches σ α}

/-- Before the first batch. -/
def init (todo : List (List α)) (s : σ) : Batches σ α := ⟨todo, [], s⟩

def step (b : Batches σ α) : Turn → Option (Batches σ α)
  | .begin =>
    match b.waiting, b.todo with
    | [], batch :: todo => some ⟨todo, batch, b.state⟩
    | _, _ => none
  | .answer i =>
    b.waiting[i]?.map fun a => ⟨b.todo, b.waiting.eraseIdx i, effect b.state a⟩

/-- The tasks that have not taken effect. -/
def rest (b : Batches σ α) : List α := b.waiting ++ b.todo.flatten

structure Done (b : Batches σ α) : Prop where
  todo : b.todo = []
  waiting : b.waiting = []

variable {effect}

theorem step_cases {turn : Turn} (h : b.step effect turn = some b') :
    (b'.state = b.state ∧ b'.rest = b.rest) ∨
      ∃ a, b'.state = effect b.state a ∧ b.rest.Perm (a :: b'.rest) := by
  obtain ⟨todo, waiting, s⟩ := b
  cases turn with
  | begin =>
    cases waiting with
    | cons a waiting => cases h
    | nil =>
      cases todo with
      | nil => cases h
      | cons batch todo =>
        cases h
        exact .inl ⟨rfl, rfl⟩
  | answer i =>
    obtain ⟨a, ha, rfl⟩ := Option.map_eq_some_iff.mp h
    obtain ⟨hi, rfl⟩ := List.getElem?_eq_some_iff.mp ha
    exact .inr ⟨_, rfl, (List.getElem_cons_eraseIdx_perm hi).symm.append_right _⟩

/-- Whatever has taken effect did so in some order. -/
theorem run_order {turns : List Turn} (h : run (step effect) b turns = some b') :
    ∃ order, b.rest.Perm (order ++ b'.rest) ∧ b'.state = order.foldl effect b.state := by
  induction turns generalizing b with
  | nil =>
    cases h
    exact ⟨[], .refl _, rfl⟩
  | cons turn turns ih =>
    obtain ⟨b₁, hstep, hrest⟩ := Option.bind_eq_some_iff.mp h
    obtain ⟨order, hperm, hstate⟩ := ih hrest
    obtain ⟨hs, hr⟩ | ⟨a, hs, hr⟩ := step_cases hstep
    · rw [hs] at hstate
      rw [hr] at hperm
      exact ⟨order, hperm, hstate⟩
    · rw [hs] at hstate
      exact ⟨a :: order, hr.trans (hperm.cons a), hstate⟩

theorem exists_order {todo : List (List α)} {s : σ} {turns : List Turn}
    (h : run (step effect) (init todo s) turns = some b') (hdone : b'.Done) :
    ∃ order : List α, order.Perm todo.flatten ∧ b'.state = order.foldl effect s := by
  obtain ⟨order, hperm, hstate⟩ := run_order h
  have hrest : b'.rest = [] := by
    rw [rest, hdone.todo, hdone.waiting, List.flatten_nil, List.append_nil]
  rw [hrest, List.append_nil] at hperm
  exact ⟨order, hperm.symm, hstate⟩

theorem answers_todo {answers : List Nat}
    (h : run (step effect) b (answers.map .answer) = some b') : b'.todo = b.todo := by
  induction answers generalizing b with
  | nil =>
    cases h
    rfl
  | cons i answers ih =>
    obtain ⟨b₁, hstep, hrest⟩ := Option.bind_eq_some_iff.mp h
    obtain ⟨a, -, rfl⟩ := Option.map_eq_some_iff.mp hstep
    have htodo := ih hrest
    exact htodo

/-- Without a further batch: the tasks that wait take effect in some order. -/
theorem answers_order {answers : List Nat}
    (h : run (step effect) b (answers.map .answer) = some b') (hdone : b'.waiting = []) :
    ∃ order : List α, order.Perm b.waiting ∧ b'.state = order.foldl effect b.state := by
  obtain ⟨order, hperm, hstate⟩ := run_order h
  rw [rest, rest, answers_todo h, hdone, List.nil_append, List.perm_append_right_iff] at hperm
  exact ⟨order, hperm.symm, hstate⟩

end Batches

/-- Lists of tasks under names, side by side. -/
structure Sequences (κ : Type w) (σ : Type u) (α : Type v) where
  todo : κ → List α
  state : σ

namespace Sequences
variable {κ : Type w} {σ : Type u} {α : Type v} {β : Type x} [DecidableEq κ]
variable {effect : σ → κ → α → σ} {p p' : Sequences κ σ α}

def step (effect : σ → κ → α → σ) (p : Sequences κ σ α) (k : κ) : Option (Sequences κ σ α) :=
  match p.todo k with
  | [] => none
  | a :: todo => some ⟨Function.update p.todo k todo, effect p.state k a⟩

theorem step_cases (h : p.step effect k = some p') :
    ∃ a todo, p.todo k = a :: todo ∧ p'.todo = Function.update p.todo k todo ∧
      p'.state = effect p.state k a := by
  unfold step at h
  split at h
  · cases h
  · cases h
    exact ⟨_, _, ‹_›, rfl, rfl⟩

/-- A view of the state on which only the tasks under the same name act. -/
structure Separate (effect : σ → κ → α → σ) (view : σ → κ → β) (act : κ → β → α → β) :
    Prop where
  own : view (effect s k a) k = act k (view s k) a
  other : k' ≠ k → view (effect s k a) k' = view s k'

namespace Separate
variable {view : σ → κ → β} {act : κ → β → α → β}

/-- What is left of a list makes of its view what the list made of it before the step. -/
theorem step_view (S : Separate effect view act) (h : p.step effect k = some p') (k' : κ) :
    (p'.todo k').foldl (act k') (view p'.state k') =
      (p.todo k').foldl (act k') (view p.state k') := by
  obtain ⟨a, todo, ha, htodo, hstate⟩ := step_cases h
  rw [htodo, hstate]
  by_cases hk : k' = k
  · subst hk
    rw [Function.update_self, S.own, ha, List.foldl_cons]
  · rw [Function.update_of_ne hk, S.other hk]

theorem run_view (S : Separate effect view act) {turns : List κ}
    (h : run (step effect) p turns = some p') (k : κ) :
    (p'.todo k).foldl (act k) (view p'.state k) = (p.todo k).foldl (act k) (view p.state k) := by
  induction turns generalizing p with
  | nil =>
    cases h
    rfl
  | cons turn turns ih =>
    obtain ⟨p₁, hstep, hrest⟩ := Option.bind_eq_some_iff.mp h
    exact (ih hrest).trans (S.step_view hstep k)

/-- When a list is done, its view is what the list alone makes of it. -/
theorem done_view (S : Separate effect view act) {turns : List κ}
    (h : run (step effect) p turns = some p') (hdone : p'.todo k = []) :
    view p'.state k = (p.todo k).foldl (act k) (view p.state k) := by
  rw [← S.run_view h k, hdone, List.foldl_nil]

end Separate
end Sequences
end Theory
end DefiBackend
