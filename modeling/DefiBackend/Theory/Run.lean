import Mathlib.Data.List.Infix
import Mathlib.Logic.Basic

/-! # Runs of partial step functions

A system is given by a partial step function `step : σ → α → Option σ`: in state `s` the
environment may choose the action `a` when `step s a` is defined. Interleavings of concurrent
calls, failures and expiries are all choices of actions.

* `run step s as`: the state after a list of actions;
* `RunsUnder step C s as t`: a run from `s` to `t` each step of which meets the condition `C` on
  the state before the step and its action;
* `RunsUnder.invariant`: a property kept by every step that meets the condition holds at the end
  of every such run, hence in every state reached;
* `runsUnder_iff`: where the condition is also necessary, step by step, it is met by exactly those
  runs that reach only good states. -/

namespace DefiBackend
namespace Theory

variable {σ : Type u} {α : Type v} {step : σ → α → Option σ} {C : σ → α → Prop}

/-- The state after a list of actions, undefined when one of them is not enabled. -/
def run (step : σ → α → Option σ) : σ → List α → Option σ
  | s, [] => some s
  | s, a :: as => (step s a).bind (run step · as)

@[simp] theorem run_nil : run step s [] = some s := rfl

@[simp] theorem run_cons : run step s (a :: as) = (step s a).bind (run step · as) := rfl

/-- A run in two parts. -/
theorem run_of_append (as bs : List α) :
    run step s (as ++ bs) = (run step s as).bind fun s => run step s bs := by
  induction as generalizing s with
  | nil => rfl
  | cons a as ih =>
    rw [List.cons_append, run_cons, run_cons, Option.bind_assoc]
    exact Option.bind_congr fun s' _ => ih

/-- A run whose actions are all of one kind. -/
theorem run_map (f : β → α) (bs : List β) :
    run step s (bs.map f) = run (fun s b => step s (f b)) s bs := by
  induction bs generalizing s with
  | nil => rfl
  | cons b bs ih =>
    rw [List.map_cons, run_cons, run_cons]
    exact Option.bind_congr fun s' _ => ih

/-- A run whose steps all meet `C`. -/
inductive RunsUnder (step : σ → α → Option σ) (C : σ → α → Prop) : σ → List α → σ → Prop
  | nil : RunsUnder step C s [] s
  | cons : C s a → step s a = some s' → RunsUnder step C s' as t → RunsUnder step C s (a :: as) t

theorem RunsUnder.run_eq (H : RunsUnder step C s as t) : run step s as = some t := by
  induction H with
  | nil => rfl
  | cons _ h _ ih => simp [h, ih]

/-- A run meets a condition on actions that all of its actions meet. -/
theorem RunsUnder.of_forall {as : List α} {D : α → Prop} (hD : ∀ a ∈ as, D a)
    (h : run step s as = some t) : RunsUnder step (fun _ => D) s as t := by
  induction as generalizing s with
  | nil =>
    cases h
    exact .nil
  | cons a as ih =>
    obtain ⟨s', hs, h⟩ := Option.bind_eq_some_iff.mp h
    obtain ⟨ha, has⟩ := List.forall_mem_cons.mp hD
    exact .cons ha hs (ih has h)

/-- Every run meets the trivial condition. -/
theorem RunsUnder.of_run {as : List α} (h : run step s as = some t) :
    RunsUnder step (fun _ _ => True) s as t := .of_forall (fun _ _ => trivial) h

/-- The invariant rule. -/
theorem RunsUnder.invariant {I : σ → Prop} (H : RunsUnder step C s as t)
    (hstep : ∀ {s a s'}, I s → C s a → step s a = some s' → I s') (h0 : I s) : I t := by
  induction H with
  | nil => exact h0
  | cons hC h _ ih => exact ih (hstep h0 hC h)

/-- A weaker condition is met by more runs. -/
theorem RunsUnder.mono {C' : σ → α → Prop} (H : RunsUnder step C s as t)
    (hC : ∀ {s a}, C s a → C' s a) : RunsUnder step C' s as t := by
  induction H with
  | nil => exact .nil
  | cons h hs _ ih => exact .cons (hC h) hs ih

/-- Runs compose. -/
theorem RunsUnder.append (H : RunsUnder step C s as t) (H' : RunsUnder step C t bs u) :
    RunsUnder step C s (as ++ bs) u := by
  induction H with
  | nil => exact H'
  | cons h hs _ ih => exact .cons h hs (ih H')

/-- A condition that keeps an invariant, under which states are good, and that no step to a good
state violates. -/
theorem runsUnder_iff {I V : σ → Prop} (hgood : ∀ {s}, I s → V s)
    (hstep : ∀ {s a s'}, I s → C s a → step s a = some s' → I s')
    (hback : ∀ {s a s'}, I s → step s a = some s' → V s' → C s a) {as : List α} (h0 : I s)
    (hrun : run step s as = some t) : RunsUnder step C s as t ↔
      ∀ pre u, pre <+: as → run step s pre = some u → V u := by
  induction as generalizing s with
  | nil =>
    obtain rfl : s = t := by simpa using hrun
    refine ⟨fun _ pre u hpre hu => ?_, fun _ => .nil⟩
    rw [List.prefix_nil.mp hpre] at hu
    cases hu
    exact hgood h0
  | cons a as ih =>
    obtain ⟨s', hs, hrun'⟩ := Option.bind_eq_some_iff.mp hrun
    constructor
    · intro H pre u hpre hu
      cases H with
      | cons hC hs₂ hrest =>
        cases Option.some.inj (hs.symm.trans hs₂)
        have h1 : I s' := hstep h0 hC hs
        rcases List.prefix_cons_iff.mp hpre with rfl | ⟨pre', rfl, hpre'⟩
        · cases hu
          exact hgood h0
        · rw [run_cons, hs] at hu
          exact (ih h1 hrun').mp hrest pre' u hpre' hu
    · intro H
      have hV : V s' := H [a] s' (List.prefix_cons_iff.mpr (.inr ⟨[], rfl, List.nil_prefix⟩)) (by
        rw [run_cons, hs]
        rfl)
      have hC : C s a := hback h0 hs hV
      refine .cons hC hs ((ih (hstep h0 hC hs) hrun').mpr fun pre u hpre hu => ?_)
      refine H (a :: pre) u (List.prefix_cons_iff.mpr (.inr ⟨pre, rfl, hpre⟩)) ?_
      rw [run_cons, hs]
      exact hu

end Theory
end DefiBackend
