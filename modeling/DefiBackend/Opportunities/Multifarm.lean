import DefiBackend.Theory.Loops
import Mathlib.Data.List.Range

/-! # Assets page by page

`queryMultifarmAssets` of `multifarm.adapter.ts`: the assets are asked for page by page. A page that
fails is asked for once more and then skipped, and after too many pages have been skipped in a row
no other one is asked for.

* `nextPage`, `start`: the loop;
* `queried`: it comes to an end, with the pages that have not failed twice, in their order. All
  pages are visited, unless the first one or six in a row fail. -/

namespace DefiBackend
namespace Opportunities
namespace Multifarm
open Theory

variable {α : Type}

/-- The data of a page: `getAssets`. -/
structure Page (α : Type) where
  assets : List α
  total : Nat

structure MultifarmQueryPageOptions (α : Type) where
  found : Nat
  total : Nat
  offset : Nat
  consecutivePageSkips : Nat
  opportunities : List α

/-- The page size: this is the maximum their api supports currently. -/
def limit : Nat := 20

/-- `retry`: an action that has been tried some times, and may be tried again some times. -/
def retry (action : Nat → Option β) : Nat → Nat → Option β
  | tried, 0 => action tried
  | tried, maxRetries + 1 =>
    match action tried with
    | some result => some result
    | none => retry action (tried + 1) maxRetries

/-- What the service answers for an offset, by how often it has been asked for it: a page, or
nothing when the request fails or has errors. -/
abbrev Api (α : Type) := Nat → Nat → Option (Page α)

def attemptNextMultifarmPage (api : Api α) (options : MultifarmQueryPageOptions α) (tried : Nat) :
    Option (MultifarmQueryPageOptions α) :=
  (api options.offset tried).map fun data =>
    { opportunities := options.opportunities ++ data.assets
      offset := options.offset + limit
      found := options.found + data.assets.length
      total := data.total
      consecutivePageSkips := 0 }

/-- The body of the loop, and whether it is run again. -/
def nextPage (api : Api α) (options : MultifarmQueryPageOptions α) :
    MultifarmQueryPageOptions α × Bool :=
  match retry (attemptNextMultifarmPage api options) 0 1 with
  | some options => (options, options.found < options.total)
  | none =>
    let options := { options with
      offset := options.offset + limit
      found := options.found + limit
      consecutivePageSkips := options.consecutivePageSkips + 1 }
    if options.consecutivePageSkips > 5 then (options, false)
    else (options, options.found < options.total)

def start : MultifarmQueryPageOptions α := ⟨0, 0, 0, 0, []⟩

/-! ## A list of assets -/

/-- The service has some assets, and some requests fail. -/
def serve (assets : List α) (fails : Nat → Nat → Bool) : Api α := fun offset tried =>
  if fails offset tried then none else some ⟨page offset limit assets, assets.length⟩

/-- A page is answered at the first or at the second time. -/
def answered (fails : Nat → Nat → Bool) (p : Nat) : Bool :=
  !(fails (limit * p) 0 && fails (limit * p) 1)

/-- The assets of the pages before one that have been answered. -/
def collected (assets : List α) (fails : Nat → Nat → Bool) (n : Nat) : List α :=
  ((List.range n).filter (answered fails)).flatMap fun p => page (limit * p) limit assets

section
variable {assets : List α} {fails : Nat → Nat → Bool} {options t : MultifarmQueryPageOptions α}
  {p : Nat}

theorem collected_succ (p : Nat) : collected assets fails (p + 1) =
    collected assets fails p ++
      if answered fails p then page (limit * p) limit assets else [] := by
  rw [collected, List.range_succ, List.filter_append, List.flatMap_append, ← collected]
  congr 1
  split
  · next h => rw [List.filter_singleton, h]; exact List.flatMap_singleton ..
  · next h => rw [List.filter_singleton, Bool.eq_false_iff.mpr h]; rfl

/-- A page that is answered, be it at the second time, is appended. -/
theorem nextPage_answered (hoffset : options.offset = limit * p) (h : answered fails p) :
    nextPage (serve assets fails) options =
      (.mk (options.found + (page (limit * p) limit assets).length) assets.length (limit * (p + 1)) 0
        (options.opportunities ++ page (limit * p) limit assets),
        decide (options.found + (page (limit * p) limit assets).length < assets.length)) := by
  have hretry : retry (attemptNextMultifarmPage (serve assets fails) options) 0 1 =
      some ⟨options.found + (page (limit * p) limit assets).length, assets.length, limit * (p + 1), 0,
        options.opportunities ++ page (limit * p) limit assets⟩ := by
    unfold answered at h
    rw [retry, attemptNextMultifarmPage, serve, hoffset]
    cases h0 : fails (limit * p) 0 with
    | false => rfl
    | true =>
      have h1 : fails (limit * p) 1 = false := by simpa [h0] using h
      rw [if_pos rfl, Option.map_none, retry, attemptNextMultifarmPage, serve, hoffset, Nat.zero_add,
        h1]
      rfl
  rw [nextPage, hretry]

/-- A page that fails twice is skipped. -/
theorem nextPage_skipped (hoffset : options.offset = limit * p) (h : ¬ answered fails p) :
    nextPage (serve assets fails) options =
      (.mk (options.found + limit) options.total (limit * (p + 1)) (options.consecutivePageSkips + 1)
        options.opportunities,
        decide (options.consecutivePageSkips < 5 ∧ options.found + limit < options.total)) := by
  have hretry : retry (attemptNextMultifarmPage (serve assets fails) options) 0 1 = none := by
    obtain ⟨h0, h1⟩ : fails (limit * p) 0 = true ∧ fails (limit * p) 1 = true := by
      simpa [answered] using h
    rw [retry, attemptNextMultifarmPage, serve, hoffset, h0, if_pos rfl, Option.map_none, retry,
      attemptNextMultifarmPage, serve, hoffset, Nat.zero_add, h1, if_pos rfl, Option.map_none]
  rw [nextPage, hretry]
  by_cases hskips : options.consecutivePageSkips < 5
  · rw [if_neg (by dsimp only; omega), hoffset]
    simp only [hskips, true_and]
    rfl
  · rw [if_pos (by dsimp only; omega), hoffset]
    simp only [hskips, false_and]
    rfl

/-- Before a page is asked for, unless it is the first one: the pages before it have been visited,
and it is one of the list. -/
structure Before (assets : List α) (fails : Nat → Nat → Bool) (options : MultifarmQueryPageOptions α)
    (p : Nat) : Prop where
  offset : options.offset = limit * p
  opportunities : options.opportunities = collected assets fails p
  skips : options.consecutivePageSkips ≤ 5 ∧ options.consecutivePageSkips ≤ p
  skipped : ∀ q, p ≤ q + options.consecutivePageSkips → q < p → ¬ answered fails q
  first : p = 0 → options.found = 0 ∧ options.total = 0
  later : p ≠ 0 → answered fails 0 ∧ options.found = limit * p ∧ options.total = assets.length ∧
    limit * p < assets.length

/-- What has been collected when the loop ends: the pages before one. If pages are left, the first
one or the last six have failed. -/
def Collected (assets : List α) (fails : Nat → Nat → Bool) (opportunities : List α) : Prop :=
  ∃ n, opportunities = collected assets fails n ∧
    (limit * n < assets.length →
      n = 1 ∧ ¬ answered fails 0 ∨ 6 ≤ n ∧ ∀ q, n ≤ q + 6 → q < n → ¬ answered fails q)

theorem Before.start : Before assets fails (start : MultifarmQueryPageOptions α) 0 where
  offset := rfl
  opportunities := rfl
  skips := ⟨Nat.zero_le 5, le_refl 0⟩
  skipped q _ hq := absurd hq (Nat.not_lt_zero q)
  first _ := ⟨rfl, rfl⟩
  later h := absurd rfl h

/-- As many assets have been found as are before the page. -/
theorem Before.found (H : Before assets fails options p) : options.found = limit * p := by
  by_cases hp : p = 0
  · rw [(H.first hp).1, hp, Nat.mul_zero]
  · exact (H.later hp).2.1

theorem Before.answer (H : Before assets fails options p) (h : answered fails p)
    (hmore : limit * (p + 1) < assets.length) :
    Before assets fails (nextPage (serve assets fails) options).1 (p + 1) := by
  rw [nextPage_answered H.offset h]
  have hlength : (page (limit * p) limit assets).length = limit := by
    rw [page, List.length_take, List.length_drop]
    rw [Nat.mul_succ] at hmore
    omega
  refine ⟨rfl, ?_, ⟨Nat.zero_le 5, Nat.zero_le _⟩, fun q hle hlt => ?_,
    fun hp => absurd hp (Nat.succ_ne_zero p), fun _ => ⟨?_, ?_, rfl, hmore⟩⟩
  · rw [collected_succ, if_pos h, H.opportunities]
  · exact absurd (show p + 1 ≤ q + 0 from hle) (by omega)
  · by_cases hp : p = 0
    · rwa [← hp]
    · exact (H.later hp).1
  · change options.found + _ = _
    rw [H.found, hlength, Nat.mul_succ]

theorem Before.skip (H : Before assets fails options p) (h : ¬ answered fails p)
    (hskips : options.consecutivePageSkips < 5) (hmore : options.found + limit < options.total) :
    Before assets fails (nextPage (serve assets fails) options).1 (p + 1) := by
  rw [nextPage_skipped H.offset h]
  have hp : p ≠ 0 := by
    intro hp
    obtain ⟨-, htotal⟩ := H.first hp
    omega
  obtain ⟨hfirst, hfound, htotal, -⟩ := H.later hp
  refine ⟨rfl, ?_, ⟨hskips, Nat.succ_le_succ H.skips.2⟩, fun q hle hlt => ?_,
    fun hp => absurd hp (Nat.succ_ne_zero p), fun _ => ⟨hfirst, ?_, htotal, ?_⟩⟩
  · rw [collected_succ, if_neg h, List.append_nil]
    exact H.opportunities
  · rcases Nat.lt_succ_iff_lt_or_eq.mp hlt with hlt | rfl
    · exact H.skipped q (by dsimp only at hle; omega) hlt
    · exact h
  · change options.found + limit = _
    rw [hfound, Nat.mul_succ]
  · rw [hfound, htotal] at hmore
    rwa [Nat.mul_succ]

/-- When the loop goes on, the next page is asked for. -/
theorem Before.next (H : Before assets fails options p)
    (hnext : (nextPage (serve assets fails) options).2 = true) :
    Before assets fails (nextPage (serve assets fails) options).1 (p + 1) ∧
      limit * p < assets.length := by
  by_cases h : answered fails p
  · rw [nextPage_answered H.offset h, decide_eq_true_eq, H.found, page, List.length_take,
      List.length_drop] at hnext
    have hmore : limit * (p + 1) < assets.length := by
      rw [Nat.mul_succ]
      omega
    refine ⟨H.answer h hmore, ?_⟩
    rw [Nat.mul_succ] at hmore
    omega
  · rw [nextPage_skipped H.offset h, decide_eq_true_eq] at hnext
    have hp : p ≠ 0 := by
      intro hp
      obtain ⟨-, htotal⟩ := H.first hp
      omega
    exact ⟨H.skip h hnext.1 hnext.2, (H.later hp).2.2.2⟩

/-- When the loop ends. -/
theorem Before.last (H : Before assets fails options p)
    (hlast : (nextPage (serve assets fails) options).2 = false) :
    Collected assets fails (nextPage (serve assets fails) options).1.opportunities := by
  refine ⟨p + 1, ?_, fun hmore => ?_⟩
  · by_cases h : answered fails p
    · rw [nextPage_answered H.offset h, collected_succ, if_pos h, H.opportunities]
    · rw [nextPage_skipped H.offset h, collected_succ, if_neg h, List.append_nil]
      exact H.opportunities
  · rw [Nat.mul_succ] at hmore
    by_cases h : answered fails p
    · rw [nextPage_answered H.offset h, decide_eq_false_iff_not, H.found, page, List.length_take,
        List.length_drop] at hlast
      omega
    · rw [nextPage_skipped H.offset h, decide_eq_false_iff_not] at hlast
      by_cases hp : p = 0
      · exact .inl ⟨by rw [hp], hp ▸ h⟩
      · obtain ⟨-, hfound, htotal, -⟩ := H.later hp
        have hskips : options.consecutivePageSkips = 5 := by
          have := H.skips.1
          by_contra hne
          exact hlast ⟨by omega, by omega⟩
        have hle := H.skips.2
        refine .inr ⟨by omega, fun q hq hlt => ?_⟩
        rcases Nat.lt_succ_iff_lt_or_eq.mp hlt with hlt | rfl
        · exact H.skipped q (by omega) hlt
        · exact h

/-- The query ends with the pages that have been answered, in their order: all of them, unless the
first page or six pages in a row fail twice. -/
theorem queried (assets : List α) (fails : Nat → Nat → Bool) :
    ∃ t, EndsIn (nextPage (serve assets fails)) start t ∧ Collected assets fails t.opportunities := by
  have hend : ∃ t, EndsIn (nextPage (serve assets fails)) start t := by
    refine exists_endsIn (I := fun options => ∃ p, Before assets fails options p)
      (fun options => assets.length + limit - options.offset) ⟨0, .start⟩ ?_
    rintro options ⟨p, H⟩ hnext
    obtain ⟨hbefore, hless⟩ := H.next hnext
    refine ⟨⟨p + 1, hbefore⟩, ?_⟩
    rw [hbefore.offset, H.offset, Nat.mul_succ]
    have hlimit : limit = 20 := rfl
    omega
  obtain ⟨t, ht⟩ := hend
  refine ⟨t, ht, ht.induction (I := fun options => ∃ p, Before assets fails options p)
    (Q := fun options => Collected assets fails options.opportunities) ⟨0, .start⟩ ?_ ?_⟩
  · rintro options ⟨p, H⟩ hnext
    exact ⟨p + 1, (H.next hnext).1⟩
  · rintro options ⟨p, H⟩ hlast
    exact H.last hlast

end
end Multifarm
end Opportunities
end DefiBackend
