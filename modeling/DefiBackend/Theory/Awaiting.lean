import Mathlib.Logic.Basic

/-! # Jobs that can fail

A job works on a state and may throw; what it did to the state before it threw stays done.
`Ends x s Q E` says of the job `x` started in the state `s` what holds where it returns (`Q`, with
the value) and where it throws (`E`). The rules follow the syntax: `pure`, `throw`, `get`, `set`,
`bind`, `ite`, `forM`. -/

namespace DefiBackend
namespace Theory

/-- A job on states `σ`. -/
abbrev Job (σ α : Type) := ExceptT String (StateM σ) α

/-- The state that a job leaves. -/
def Job.after {σ α : Type} (x : Job σ α) (s : σ) : σ := (x.run s).2

/-- What holds after a job, by the way it ends. -/
def Ends {σ α : Type} (x : Job σ α) (s : σ) (Q : α → σ → Prop) (E : σ → Prop) : Prop :=
  match x.run s with
  | (.ok a, s') => Q a s'
  | (.error _, s') => E s'

namespace Ends
variable {σ α β : Type} {s s' : σ} {x : Job σ α} {f : α → Job σ β} {Q Q' : α → σ → Prop}
  {R : β → σ → Prop} {E E' : σ → Prop}

protected theorem pure {a : α} (h : Q a s) : Ends (pure a) s Q E := h

protected theorem throw {e : String} (h : E s) : Ends (throw e : Job σ α) s Q E := h

protected theorem get {f : σ → Job σ β} (h : Ends (f s) s R E) :
    Ends ((get : Job σ σ) >>= f) s R E := h

protected theorem set {f : PUnit → Job σ β} (h : Ends (f ⟨⟩) s' R E) :
    Ends ((set s' : Job σ PUnit) >>= f) s R E := h

protected theorem bind (hx : Ends x s Q E) (hf : ∀ a s', Q a s' → Ends (f a) s' R E) :
    Ends (x >>= f) s R E := by
  unfold Ends at hx ⊢
  simp only [ExceptT.bind, ExceptT.run, ExceptT.mk, ExceptT.bindCont, bind, StateT.bind] at hx ⊢
  cases hrun : x s with
  | mk result s' =>
    rw [hrun] at hx
    cases result with
    | ok a => exact hf a s' hx
    | error e => exact hx

/-- The rule of consequence. -/
theorem mono (h : Ends x s Q E) (hQ : ∀ a s', Q a s' → Q' a s') (hE : ∀ s', E s' → E' s') :
    Ends x s Q' E' := by
  unfold Ends at h ⊢
  revert h
  cases x.run s with
  | mk result s' =>
    cases result with
    | ok a => exact hQ a s'
    | error e => exact hE s'

/-- A branch is taken under its condition. -/
protected theorem ite {c : Prop} [Decidable c] {x y : Job σ α} (hx : c → Ends x s Q E)
    (hy : ¬ c → Ends y s Q E) : Ends (if c then x else y) s Q E := by
  split
  · exact hx ‹_›
  · exact hy ‹_›

/-- A loop keeps an invariant of the rounds that are done. -/
protected theorem forM {l : List α} {f : α → Job σ PUnit} {I : List α → σ → Prop} (h0 : I [] s)
    (h : ∀ done a rest s', l = done ++ a :: rest → I done s' →
      Ends (f a) s' (fun _ => I (done ++ [a])) E) :
    Ends (l.forM f) s (fun _ => I l) E := by
  suffices ∀ rest done s, l = done ++ rest → I done s → Ends (rest.forM f) s (fun _ => I l) E from
    this l [] s rfl h0
  intro rest
  induction rest with
  | nil =>
    intro done s hl hs
    rw [List.append_nil] at hl
    subst hl
    exact .pure hs
  | cons a rest ih =>
    intro done s hl hs
    change Ends (f a >>= fun _ => rest.forM f) s (fun _ => I l) E
    exact (h done a rest s hl hs).bind fun _ s' hs' => ih (done ++ [a]) s' (by rw [hl]; simp) hs'

/-- One assertion for both ends holds in the state that the job leaves. -/
theorem after (h : Ends x s (fun _ => E) E) : E (x.after s) := by
  unfold Ends at h
  unfold Job.after
  revert h
  cases x.run s with
  | mk result s' => cases result <;> exact id

end Ends

end Theory
end DefiBackend
