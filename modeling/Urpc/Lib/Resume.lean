/-
  Resumable systems: single-threaded programs whose functions hand control to foreign code
  (callbacks, a library session) in the middle of their bodies.

  A function body is cut at its foreign calls. The part up to the first foreign call runs as
  one step; what is left of the body is a *frame* on a stack, run later by `exec`. While
  frames wait, the environment may fire the events that can happen inside foreign code
  (`anytime`). The remaining events need an empty stack and a state at rest (`settled`):
  they are the ones the event loop itself starts.

  * `System.step` is a function of the label, so a list of labels is a schedule and a run
    can be evaluated (`System.run`).
  * `Reach ok c d`: some run from `c` ends in `d`, each step `(configuration, label)` of which
    meets `ok`.
  * `Reach.inv`: a property that one step keeps holds of everything reached.
  * `Completes c d`: the run from `c` to the end of what it is in the middle of.
  * `Hist rec`: a run with a history, to which `rec` adds every label.
  * `Interleaved`: many copies of a system that take turns; each makes a run of its own.

  Generic in the states, frames and events.
-/
import Mathlib

namespace Resume

universe u v w

variable {σ : Type u} {φ : Type v} {ε : Type w}

/-- `exec` runs a frame, `fire` runs an event; both return the new state and the frames
    left to run, innermost first. `fire e s = none` when `e` cannot happen in `s`. -/
structure System (σ : Type u) (φ : Type v) (ε : Type w) where
  exec : φ → σ → σ × List φ
  fire : ε → σ → Option (σ × List φ)
  anytime : ε → Bool
  settled : σ → Bool

/-- A state and the frames waiting on the stack. -/
structure Conf (σ : Type u) (φ : Type v) where
  st : σ
  frames : List φ := []

/-- What one step does: run the top frame, or fire an event. -/
inductive Label (ε : Type w) where
  | resume
  | event (e : ε)
  deriving DecidableEq

namespace System

variable (M : System σ φ ε)

/-- May `e` happen now? -/
def enabled (e : ε) (c : Conf σ φ) : Bool :=
  M.anytime e || (c.frames.isEmpty && M.settled c.st)

def step (c : Conf σ φ) : Label ε → Option (Conf σ φ)
  | .resume =>
      match c.frames with
      | [] => none
      | f :: fs => some ⟨(M.exec f c.st).1, (M.exec f c.st).2 ++ fs⟩
  | .event e =>
      if M.enabled e c then
        (M.fire e c.st).map fun r => ⟨r.1, r.2 ++ c.frames⟩
      else none

/-- Follow a schedule, as long as every step of it meets `ok`. -/
def run (ok : Conf σ φ → Label ε → Prop) [∀ c l, Decidable (ok c l)] (c : Conf σ φ) :
    List (Label ε) → Option (Conf σ φ)
  | [] => some c
  | l :: ls => if ok c l then (M.step c l).bind fun d => run ok d ls else none

/-- Reachable from `c` by steps that all meet `ok`. -/
inductive Reach (ok : Conf σ φ → Label ε → Prop) (c : Conf σ φ) : Conf σ φ → Prop where
  | refl : Reach ok c c
  | tail {d e : Conf σ φ} {l : Label ε} :
      Reach ok c d → ok d l → M.step d l = some e → Reach ok c e

variable {M}

/-! ## Inversion of one step -/

theorem step_resume {c d : Conf σ φ} (h : M.step c .resume = some d) :
    ∃ f fs, c.frames = f :: fs ∧
      d = ⟨(M.exec f c.st).1, (M.exec f c.st).2 ++ fs⟩ := by
  simp only [step] at h
  split at h
  · cases h
  · next f fs hf => exact ⟨f, fs, hf, (Option.some.inj h).symm⟩

theorem step_event {c d : Conf σ φ} {e : ε} (h : M.step c (.event e) = some d) :
    M.enabled e c = true ∧
      ∃ s gs, M.fire e c.st = some (s, gs) ∧ d = ⟨s, gs ++ c.frames⟩ := by
  simp only [step] at h
  split at h
  · next hen =>
      obtain ⟨⟨s, gs⟩, hf, hd⟩ := Option.map_eq_some_iff.mp h
      exact ⟨hen, s, gs, hf, hd.symm⟩
  · cases h

theorem enabled_base {e : ε} {c : Conf σ φ} (he : M.anytime e = false)
    (h : M.enabled e c = true) : c.frames = [] ∧ M.settled c.st = true := by
  simpa [enabled, he] using h

/-! ## Runs -/

namespace Reach

variable {ok : Conf σ φ → Label ε → Prop} {c d e : Conf σ φ}

/-- The invariant rule. -/
theorem inv {I : Conf σ φ → Prop} (h0 : I c)
    (hstep : ∀ d l e, I d → ok d l → M.step d l = some e → I e)
    (h : Reach M ok c d) : I d := by
  induction h with
  | refl => exact h0
  | tail _ hok hs ih => exact hstep _ _ _ ih hok hs

theorem trans (h : Reach M ok c d) (h' : Reach M ok d e) : Reach M ok c e := by
  induction h' with
  | refl => exact h
  | tail _ hok hs ih => exact .tail ih hok hs

theorem mono {ok' : Conf σ φ → Label ε → Prop} (hok : ∀ d l, ok d l → ok' d l)
    (h : Reach M ok c d) : Reach M ok' c d := by
  induction h with
  | refl => exact .refl
  | tail _ h hs ih => exact .tail ih (hok _ _ h) hs

end Reach

/-- A schedule whose steps all meet `ok` is a run. -/
theorem reach_of_run {ok : Conf σ φ → Label ε → Prop} [∀ c l, Decidable (ok c l)]
    (ls : List (Label ε)) (c d : Conf σ φ) (h : M.run ok c ls = some d) : Reach M ok c d := by
  induction ls generalizing c with
  | nil =>
      simp only [run, Option.some.injEq] at h
      exact h ▸ .refl
  | cons l ls ih =>
      simp only [run] at h
      split at h
      · next hok =>
          obtain ⟨e, he, hd⟩ := Option.bind_eq_some_iff.mp h
          exact Reach.trans (.tail .refl hok he) (ih e hd)
      · cases h

/-- What no step reads: `g` changes it, and the runs stay the same. -/
theorem run_map {ok : Conf σ φ → Label ε → Prop} [∀ c l, Decidable (ok c l)]
    {g : Conf σ φ → Conf σ φ} {I : Conf σ φ → Prop}
    (hok : ∀ c l, ok (g c) l ↔ ok c l)
    (hstep : ∀ c l, I c → ok c l → M.step (g c) l = (M.step c l).map g)
    (hkeep : ∀ c l d, I c → ok c l → M.step c l = some d → I d)
    (ls : List (Label ε)) (c : Conf σ φ) (hc : I c) :
    M.run ok (g c) ls = (M.run ok c ls).map g := by
  induction ls generalizing c with
  | nil => rfl
  | cons l ls ih =>
      simp only [run, hok]
      split
      · next hl =>
          rw [hstep c l hc hl]
          cases hs : M.step c l with
          | none => rfl
          | some d => exact ih d (hkeep c l d hc hl hs)
      · rfl

/-! ## To the end of what has begun -/

/-- What `c` is in the middle of is over in `d`, whatever came in between. -/
def Completes (M : System σ φ ε) (c d : Conf σ φ) : Prop :=
  Reach M (fun e _ => e.frames ≠ []) c d ∧ d.frames = []

theorem Completes.eq_of_nil {c d : Conf σ φ} (h : Completes M c d) (hc : c.frames = []) : d = c :=
  h.1.inv (I := fun e => e = c) rfl fun _ _ _ he hne _ => absurd (he ▸ hc) hne

/-- What `c` is in the middle of is over in `d`, and nothing came in between. -/
def Resumes (M : System σ φ ε) (c d : Conf σ φ) : Prop :=
  Reach M (fun _ l => l = .resume) c d ∧ d.frames = []

theorem Resumes.eq_of_nil {c d : Conf σ φ} (h : Resumes M c d) (hc : c.frames = []) : d = c := by
  refine h.1.inv (I := fun e => e = c) rfl ?_
  rintro e l e' rfl rfl hs
  obtain ⟨f, fs, hf, -⟩ := step_resume hs
  cases hc.symm.trans hf

theorem Resumes.resume {c d : Conf σ φ} {f : φ} {fs : List φ} (h : Resumes M c d)
    (hc : c.frames = f :: fs) : Resumes M ⟨(M.exec f c.st).1, (M.exec f c.st).2 ++ fs⟩ d := by
  refine ⟨?_, h.2⟩
  suffices key : d = c ∨ Reach M (fun _ l => l = .resume)
      ⟨(M.exec f c.st).1, (M.exec f c.st).2 ++ fs⟩ d by
    rcases key with rfl | hr
    · cases hc.symm.trans h.2
    · exact hr
  refine h.1.inv (I := fun e => e = c ∨ Reach M (fun _ l => l = .resume)
    ⟨(M.exec f c.st).1, (M.exec f c.st).2 ++ fs⟩ e) (.inl rfl) ?_
  rintro e l e' (rfl | hr) rfl hs
  · obtain ⟨g, gs, hg, rfl⟩ := step_resume hs
    cases hc.symm.trans hg
    exact .inr .refl
  · exact .inr (.tail hr rfl hs)

/-- One frame is left. What holds until it is resumed holds of the state that it meets. -/
theorem Completes.of_frame {c d : Conf σ φ} {f : φ} {I : σ → Prop} (h : Completes M c d)
    (hc : c.frames = [f]) (hi : I c.st)
    (hevent : ∀ e s s' gs, M.anytime e = true → I s → M.fire e s = some (s', gs) → gs = [] ∧ I s')
    (hexec : ∀ s, I s → (M.exec f s).2 = []) :
    ∃ s, I s ∧ d.st = (M.exec f s).1 := by
  suffices key : d.frames = [f] ∧ I d.st ∨ d.frames = [] ∧ ∃ s, I s ∧ d.st = (M.exec f s).1 by
    rcases key with ⟨hf, -⟩ | ⟨-, hd⟩
    · rw [h.2] at hf
      cases hf
    · exact hd
  refine h.1.inv (I := fun e => e.frames = [f] ∧ I e.st ∨
    e.frames = [] ∧ ∃ s, I s ∧ e.st = (M.exec f s).1) (.inl ⟨hc, hi⟩) ?_
  rintro e l e' (⟨hf, hie⟩ | ⟨hnil, -⟩) hne hs
  · cases l with
    | event ev =>
        obtain ⟨hen, s', gs, hfire, rfl⟩ := step_event hs
        have hany : M.anytime ev = true := by
          by_contra hbase
          exact hne (enabled_base (by simpa using hbase) hen).1
        obtain ⟨rfl, hi'⟩ := hevent ev e.st s' gs hany hie hfire
        exact .inl ⟨hf, hi'⟩
    | resume =>
        obtain ⟨g, fs, hg, rfl⟩ := step_resume hs
        rw [hf] at hg
        cases hg
        exact .inr ⟨by simp [hexec e.st hie], e.st, hie, rfl⟩
  · exact absurd hnil hne

/-! ## Runs with a history -/

section History

variable {ρ : Type*}

/-- Reachable from `c`; a record that starts as `r` takes in the label of every step. -/
inductive Hist (M : System σ φ ε) (rec : ρ → Label ε → ρ) (ok : Conf σ φ → Label ε → Prop)
    (c : Conf σ φ) (r : ρ) : Conf σ φ → ρ → Prop where
  | refl : Hist M rec ok c r c r
  | tail {d e : Conf σ φ} {l : Label ε} {q : ρ} :
      Hist M rec ok c r d q → ok d l → M.step d l = some e → Hist M rec ok c r e (rec q l)

variable {rec : ρ → Label ε → ρ} {ok : Conf σ φ → Label ε → Prop} {c d : Conf σ φ} {r q : ρ}

theorem Hist.reach (h : Hist M rec ok c r d q) : Reach M ok c d := by
  induction h with
  | refl => exact .refl
  | tail _ hok hs ih => exact .tail ih hok hs

/-- The invariant rule. -/
theorem Hist.inv {I : Conf σ φ → ρ → Prop} (h0 : I c r)
    (hstep : ∀ d l e q, I d q → ok d l → M.step d l = some e → I e (rec q l))
    (h : Hist M rec ok c r d q) : I d q := by
  induction h with
  | refl => exact h0
  | tail _ hok hs ih => exact hstep _ _ _ _ ih hok hs

theorem hist_of_run (rec : ρ → Label ε → ρ) (r : ρ) [∀ c l, Decidable (ok c l)]
    (ls : List (Label ε)) (h : M.run ok c ls = some d) : Hist M rec ok c r d (ls.foldl rec r) := by
  suffices key : ∀ (ls : List (Label ε)) (b : Conf σ φ) (q : ρ), Hist M rec ok c r b q →
      M.run ok b ls = some d → Hist M rec ok c r d (ls.foldl rec q) from key ls c r .refl h
  intro ls
  induction ls with
  | nil =>
      intro b q hb h
      simp only [run, Option.some.injEq] at h
      exact h ▸ hb
  | cons l ls ih =>
      intro b q hb h
      simp only [run] at h
      split at h
      · next hok =>
          obtain ⟨e, he, hd⟩ := Option.bind_eq_some_iff.mp h
          exact ih e _ (.tail hb hok he) hd
      · cases h

end History

/-! ## Many copies -/

section Family

variable {ι : Type*} [DecidableEq ι]

/-- Runs of a family of copies that take turns in any order. -/
inductive Interleaved (M : System σ φ ε) (ok : Conf σ φ → Label ε → Prop)
    (c : ι → Conf σ φ) : (ι → Conf σ φ) → Prop where
  | refl : Interleaved M ok c c
  | tail {d : ι → Conf σ φ} {e : Conf σ φ} {l : Label ε} (i : ι) :
      Interleaved M ok c d → ok (d i) l → M.step (d i) l = some e →
      Interleaved M ok c (Function.update d i e)

/-- Each copy makes a run of its own. -/
theorem Interleaved.proj {ok : Conf σ φ → Label ε → Prop} {c d : ι → Conf σ φ}
    (h : Interleaved M ok c d) (i : ι) : Reach M ok (c i) (d i) := by
  induction h with
  | refl => exact .refl
  | tail j _ hok hs ih =>
      by_cases hij : i = j
      · subst hij
        rw [Function.update_self]
        exact .tail ih hok hs
      · rw [Function.update_of_ne hij]
        exact ih

/-- A run of one copy, the others at rest. -/
theorem Interleaved.single {ok : Conf σ φ → Label ε → Prop} {c : ι → Conf σ φ} {i : ι}
    {e : Conf σ φ} (h : Reach M ok (c i) e) : Interleaved M ok c (Function.update c i e) := by
  induction h with
  | refl =>
      rw [Function.update_eq_self]
      exact .refl
  | @tail d e l _ hok hs ih =>
      have hi : Function.update c i d i = d := Function.update_self ..
      have := Interleaved.tail i ih (hi.symm ▸ hok) (hi.symm ▸ hs)
      rwa [Function.update_idem] at this

end Family

end System

end Resume
