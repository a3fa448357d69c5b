/-
  Runs of a program given by its atomic steps: `step s l` is the state after the step `l`, or
  `none` when `l` cannot happen in `s`. The labels say which thread takes a step, so a list of labels
  is a schedule.

  * `Reach ok s t`: some run from `s` ends in `t`, each step `(state, label)` of which meets `ok`.
  * `Reach.inv`: a property that one step keeps holds of everything reached.
  * `run`: a schedule, followed; `reach_of_run`: it is a run.
  * `length_le_of_run`: a measure that every step lowers bounds the schedules.

  Generic in the states and labels.
-/
import Mathlib

namespace Walk

universe u v

variable {σ : Type u} {ε : Type v} (step : σ → ε → Option σ)

/-- Reachable from `s` by steps that all meet `ok`. -/
inductive Reach (ok : σ → ε → Prop) (s : σ) : σ → Prop where
  | refl : Reach ok s s
  | tail {t u : σ} {l : ε} : Reach ok s t → ok t l → step t l = some u → Reach ok s u

/-- Follow a schedule, as long as every step of it meets `ok`. -/
def run (ok : σ → ε → Prop) [∀ s l, Decidable (ok s l)] (s : σ) : List ε → Option σ
  | [] => some s
  | l :: ls => if ok s l then (step s l).bind fun t => run ok t ls else none

variable {step} {ok : σ → ε → Prop} {s t u : σ}

/-- The invariant rule. -/
theorem Reach.inv {I : σ → Prop} (h0 : I s)
    (hstep : ∀ t l u, I t → ok t l → step t l = some u → I u) (h : Reach step ok s t) : I t := by
  induction h with
  | refl => exact h0
  | tail _ hok hs ih => exact hstep _ _ _ ih hok hs

theorem Reach.trans (h : Reach step ok s t) (h' : Reach step ok t u) : Reach step ok s u := by
  induction h' with
  | refl => exact h
  | tail _ hok hs ih => exact .tail ih hok hs

theorem Reach.mono {ok' : σ → ε → Prop} (hle : ∀ s l, ok s l → ok' s l)
    (h : Reach step ok s t) : Reach step ok' s t := by
  induction h with
  | refl => exact .refl
  | tail _ hok hs ih => exact .tail ih (hle _ _ hok) hs

variable [∀ s l, Decidable (ok s l)]

theorem run_cons {l : ε} {ls : List ε} (h : run step ok s (l :: ls) = some u) :
    ok s l ∧ ∃ t, step s l = some t ∧ run step ok t ls = some u := by
  simp only [run] at h
  split at h
  · next hok => exact ⟨hok, Option.bind_eq_some_iff.mp h⟩
  · cases h

/-- A schedule whose steps all meet `ok` is a run. -/
theorem reach_of_run (ls : List ε) (h : run step ok s ls = some t) : Reach step ok s t := by
  induction ls generalizing s with
  | nil => exact Option.some.inj h ▸ .refl
  | cons l ls ih =>
      obtain ⟨hok, u, hs, hrest⟩ := run_cons h
      exact Reach.trans (.tail .refl hok hs) (ih hrest)

/-- No schedule is longer than a measure that each of its steps lowers. -/
theorem length_le_of_run {work : σ → Nat}
    (hless : ∀ s l t, ok s l → step s l = some t → work t < work s)
    (ls : List ε) (h : run step ok s ls = some t) : ls.length ≤ work s := by
  induction ls generalizing s with
  | nil => exact Nat.zero_le _
  | cons l ls ih =>
      obtain ⟨hok, u, hstep, hrest⟩ := run_cons h
      have hle := ih hrest
      have hlt := hless s l u hok hstep
      rw [List.length_cons]
      omega

end Walk
