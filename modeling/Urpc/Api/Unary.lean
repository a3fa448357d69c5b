/-
  `RegisterUnaryFor` (`urpc/unary.h`): the typed unary call and its request arena.

  The raw handler parses the request into an arena of its own and gives the typed handler a `done`
  that answers the call and then frees the arena. `RegisterService` puts a wrapper around the
  method of the service, whose `catch` calls `done` too.

  `machine` runs one call. The handler may call `done` any number of times, while it runs or
  later, also inside another call of `done` (the core's `Respond` flushes, and callbacks run);
  and it may raise an exception. `ops` is a record kept for the proofs: what was done with the
  request arena, in order. What the handler itself reads of the request is left out.

  Proved:
  * `request_arena_released`: with nothing running, the arena of a call whose handler was called
    has been freed once, and not used afterwards, exactly when `done` was called once, the call
    in the `catch` included.
  * `request_arena_freed_twice`: a handler that answers and then raises an exception.
-/
import Urpc.Lib.Resume
import Urpc.Status

namespace Urpc.Api.Unary

open Cxx

/-! ## The model -/

/-- A use of the request arena. -/
inductive ArenaOp where
  | new
  | parse
  | encode
  | copy                               -- of the encoded response, which is in the arena
  | free
  deriving DecidableEq

/-- The response given to `done`: none if it is null; as `upb_Encode` encodes it, if it can. -/
abbrev Response := Option (Option Bytes)

structure State where
  ops : List ArenaOp := []
  responds : List (Status × Bytes) := []   -- what the core's `Respond` was called with
  started : Bool := false                  -- the raw handler was called
  called : Bool := false                   -- the typed handler was called
  running : Bool := false                  -- and is not over
  answering : Nat := 0                     -- calls of `done` that are running

inductive Frame where
  | freeArena
  | handlerReturns
  deriving DecidableEq

inductive Event where
  | call (arena parsed : Bool)         -- `upb_Arena_New` gives an arena, `ParseRequest` a message
  | done (st : Status) (res : Response)
  | raise
  deriving DecidableEq

def handlerRaised : Status := ⟨.internal, str "service handler raised an exception"⟩

def State.use (s : State) (op : ArenaOp) : State := { s with ops := s.ops ++ [op] }

def State.respond (s : State) (st : Status) (payload : Bytes) : State :=
  { s with responds := s.responds ++ [(st, payload)] }

/-- `typed_done`, up to the core's `Respond`. -/
def typedDone (s : State) (st : Status) (res : Response) : State × List Frame :=
  let s := { s with answering := s.answering + 1 }
  if !st.ok || res.isNone then (s.respond st [], [.freeArena])
  else
    let s := s.use .encode
    match res.join with
    | none => (s.respond responseEncodeFailed [], [.freeArena])
    | some payload => ((s.use .copy).respond st payload, [.freeArena])

/-- The raw handler, up to the typed one. -/
def rawHandler (s : State) (arena parsed : Bool) : State × List Frame :=
  let s := { s with started := true }
  if !arena then (s.respond arenaAllocFailed [], [])
  else
    let s := (s.use .new).use .parse
    if !parsed then ((s.use .free).respond requestDecodeFailed [], [])
    else ({ s with called := true, running := true }, [.handlerReturns])

/-- The handler raises an exception; `wrapped` if it runs in the wrapper of `RegisterService`. -/
def raised (wrapped : Bool) (s : State) : State × List Frame :=
  let s := { s with running := false }
  if wrapped then typedDone s handlerRaised none else (s, [])

def exec (f : Frame) (s : State) : State × List Frame :=
  match f with
  | .freeArena => ({ s.use .free with answering := s.answering - 1 }, [])
  | .handlerReturns => ({ s with running := false }, [])

def fire (wrapped : Bool) (e : Event) (s : State) : Option (State × List Frame) :=
  match e with
  | .call arena parsed => if s.started then none else some (rawHandler s arena parsed)
  | .done st res => if s.called then some (typedDone s st res) else none
  -- an exception of the handler's own code: no call of `done` is on its stack
  | .raise => if s.running && s.answering == 0 then some (raised wrapped s) else none

def anytime : Event → Bool
  | .call .. => false
  | .done .. | .raise => true

def machine (wrapped : Bool) : Resume.System State Frame Event where
  exec := exec
  fire := fire wrapped
  anytime := anytime
  settled _ := true

abbrev Conf := Resume.Conf State Frame
abbrev Label := Resume.Label Event

def fresh : Conf := ⟨{}, []⟩

def anyStep (_ : Conf) (_ : Label) : Prop := True

instance (c : Conf) (l : Label) : Decidable (anyStep c l) := .isTrue trivial

/-! ## What happens to the arena -/

/-- Freed once, and not used afterwards. -/
def ReleasedOnce (ops : List ArenaOp) : Prop := ∃ before, ops = before ++ [.free] ∧ .free ∉ before

/-- A step that calls `done`. -/
def callsDone (wrapped : Bool) : Label → Bool
  | .event (.done ..) => true
  | .event .raise => wrapped
  | .event (.call ..) | .resume => false

/-- How often `done` was called, by the handler or in the `catch`. -/
def doneCalls (wrapped : Bool) (r : List Label) : Nat := r.countP (callsDone wrapped)

/-- A run with the list of its steps. -/
abbrev Run (wrapped : Bool) : Conf → List Label → Prop :=
  Resume.System.Hist (machine wrapped) (fun r l => r ++ [l]) anyStep fresh []

theorem ReleasedOnce.count {ops : List ArenaOp} (h : ReleasedOnce ops) : ops.count .free = 1 := by
  obtain ⟨before, rfl, hb⟩ := h
  rw [List.count_append, List.count_eq_zero.mpr hb]
  rfl

theorem releasedOnce_append {ops : List ArenaOp} (h : ops.count .free = 0) :
    ReleasedOnce (ops ++ [.free]) :=
  ⟨ops, rfl, List.count_eq_zero.mp h⟩

/-- Calls of `done` and frees of the arena; a call that runs has its free before it. -/
structure Counted (c : Conf) (n : Nat) : Prop where
  uncalled : c.st.called = false → n = 0 ∧ c.frames = []
  failed : c.st.called = false → c.st.ops = [] ∨ ReleasedOnce c.st.ops
  unstarted : c.st.started = false → c.st.called = false ∧ c.st.ops = []
  running : c.st.running = true → c.st.called = true
  frees : c.st.called = true → c.st.ops.count .free + c.frames.count .freeArena = n
  once : c.st.called = true → n ≤ 1 → .free ∈ c.st.ops → ReleasedOnce c.st.ops

variable {wrapped : Bool} {c d : Conf} {n : Nat}

theorem Counted.started (h : Counted c n) (hc : c.st.called = true) : c.st.started = true := by
  by_contra hs
  cases hc.symm.trans (h.unstarted (by simpa using hs)).1

/-- `typed_done` uses the arena and leaves the free for later. -/
theorem typedDone_eq (s : State) (st : Status) (res : Response) :
    ∃ uses responds, .free ∉ uses ∧ typedDone s st res =
      ({ s with answering := s.answering + 1, ops := s.ops ++ uses, responds }, [.freeArena]) := by
  simp only [typedDone]
  split
  · exact ⟨[], s.responds ++ [(st, [])], by simp, by simp [State.respond]⟩
  · split
    · exact ⟨[.encode], s.responds ++ [(responseEncodeFailed, [])], by simp,
        by simp [State.use, State.respond]⟩
    · next payload _ =>
        exact ⟨[.encode, .copy], s.responds ++ [(st, payload)], by simp,
          by simp [State.use, State.respond]⟩

theorem counted_done (h : Counted c n) (hc : c.st.called = true) (st : Status) (res : Response) :
    Counted ⟨(typedDone c.st st res).1, (typedDone c.st st res).2 ++ c.frames⟩ (n + 1) := by
  obtain ⟨uses, responds, huses, heq⟩ := typedDone_eq c.st st res
  have hstarted := h.started hc
  have hcount : (c.st.ops ++ uses).count .free = c.st.ops.count .free := by
    rw [List.count_append, List.count_eq_zero.mpr huses, Nat.add_zero]
  rw [heq]
  refine ⟨?_, ?_, ?_, h.running, ?_, ?_⟩
  · simp [hc]
  · simp [hc]
  · simp [hstarted]
  · intro _
    have := h.frees hc
    simp only [hcount, List.singleton_append, List.count_cons_self]
    omega
  · -- the first call: nothing was freed before it
    intro _ hn hmem
    have := h.frees hc
    have hpos := List.count_pos_iff.mpr hmem
    simp only [hcount] at hpos
    omega

theorem counted_free {fs : List Frame} (h : Counted c n) (hc : c.frames = .freeArena :: fs) :
    Counted ⟨(exec .freeArena c.st).1, fs⟩ n := by
  have hcalled : c.st.called = true := by
    by_contra hno
    have := (h.uncalled (by simpa using hno)).2
    rw [hc] at this
    cases this
  have hstarted := h.started hcalled
  have hfrees := h.frees hcalled
  rw [hc, List.count_cons_self] at hfrees
  refine ⟨by simp [exec, State.use, hcalled], by simp [exec, State.use, hcalled],
    by simp [exec, State.use, hstarted], h.running, fun _ => ?_, fun _ hn _ => ?_⟩
  · simp only [exec, State.use, List.count_append, List.count_singleton_self]
    omega
  · exact releasedOnce_append (by omega)

theorem counted_return {fs : List Frame} (h : Counted c n) (hc : c.frames = .handlerReturns :: fs) :
    Counted ⟨(exec .handlerReturns c.st).1, fs⟩ n := by
  have hcalled : c.st.called = true := by
    by_contra hno
    have := (h.uncalled (by simpa using hno)).2
    rw [hc] at this
    cases this
  have hfrees := h.frees hcalled
  rw [hc, List.count_cons_of_ne (by simp)] at hfrees
  exact ⟨fun hno => absurd (hcalled.symm.trans hno) (by simp), h.failed, h.unstarted, nofun,
    fun _ => hfrees, h.once⟩

/-- The handler's own code is over. -/
theorem counted_over (h : Counted c n) : Counted ⟨{ c.st with running := false }, c.frames⟩ n :=
  ⟨h.uncalled, h.failed, h.unstarted, nofun, h.frees, h.once⟩

theorem counted_call (h : Counted c n) (hnew : c.st.started = false) (arena parsed : Bool) :
    Counted ⟨(rawHandler c.st arena parsed).1, (rawHandler c.st arena parsed).2 ++ c.frames⟩ n := by
  obtain ⟨hcalled, hops⟩ := h.unstarted hnew
  obtain ⟨rfl, hframes⟩ := h.uncalled hcalled
  cases arena with
  | false =>
      refine ⟨fun _ => ⟨rfl, hframes⟩, fun _ => .inl hops, ?_, h.running, ?_, ?_⟩ <;>
        simp [rawHandler, State.respond, hcalled]
  | true =>
      cases parsed with
      | false =>
          have hops' : (rawHandler c.st true false).1.ops = [.new, .parse] ++ [.free] := by
            simp [rawHandler, State.respond, State.use, hops]
          refine ⟨fun _ => ⟨rfl, hframes⟩, fun _ => .inr (hops' ▸ ⟨_, rfl, by simp⟩), ?_, h.running,
            ?_, ?_⟩ <;> simp [rawHandler, State.respond, State.use, hcalled]
      | true =>
          constructor <;> simp [rawHandler, State.use, hops, hframes]

theorem counted_step {l : Label} (h : Counted c n) (hs : (machine wrapped).step c l = some d) :
    Counted d (n + (callsDone wrapped l).toNat) := by
  cases l with
  | resume =>
      obtain ⟨f, fs, hf, rfl⟩ := Resume.System.step_resume hs
      cases f with
      | freeArena => exact counted_free h hf
      | handlerReturns => exact counted_return h hf
  | event e =>
      obtain ⟨-, s, gs, hfire, rfl⟩ := Resume.System.step_event hs
      have hfire : fire wrapped e c.st = some (s, gs) := hfire
      cases e with
      | call arena parsed =>
          simp only [fire] at hfire
          split at hfire
          · cases hfire
          · next hnew =>
              have hr := Option.some.inj hfire
              have hcounted := counted_call h (by simpa using hnew) arena parsed
              rw [hr] at hcounted
              exact hcounted
      | done st res =>
          simp only [fire] at hfire
          split at hfire
          · next hcalled =>
              have hr := Option.some.inj hfire
              have hcounted := counted_done h hcalled st res
              rw [hr] at hcounted
              exact hcounted
          · cases hfire
      | raise =>
          simp only [fire] at hfire
          split at hfire
          · next hrun =>
              have hcalled : c.st.called = true := h.running (by simp_all)
              have hr := Option.some.inj hfire
              have hover := counted_over h
              cases wrapped with
              | true =>
                  have hcounted := counted_done hover hcalled handlerRaised none
                  simp only [raised, if_true] at hr
                  rw [hr] at hcounted
                  exact hcounted
              | false =>
                  simp only [raised] at hr
                  cases hr
                  exact hover
          · cases hfire

theorem counted_run {r : List Label} (h : Run wrapped c r) : Counted c (doneCalls wrapped r) := by
  refine h.inv (I := fun c r => Counted c (doneCalls wrapped r)) ?_ fun c l d r hc _ hs => ?_
  · constructor <;> simp [fresh, doneCalls]
  · have hcount : doneCalls wrapped (r ++ [l]) =
        doneCalls wrapped r + (callsDone wrapped l).toNat := by
      rw [doneCalls, List.countP_append, ← doneCalls, List.countP_singleton]
      cases callsDone wrapped l <;> rfl
    exact hcount ▸ counted_step hc hs

/-- With nothing running, the request arena of a call whose handler was called has been freed once,
    and not used afterwards, exactly when `done` was called once, by the handler or by the `catch`
    of the wrapper. A call that never got to its handler has freed the arena that it had. -/
theorem request_arena_released (wrapped : Bool) (c : Conf) (r : List Label) (h : Run wrapped c r)
    (hrest : c.frames = []) :
    (c.st.called = true → (ReleasedOnce c.st.ops ↔ doneCalls wrapped r = 1)) ∧
      (c.st.called = false → c.st.ops = [] ∨ ReleasedOnce c.st.ops) := by
  have hcounted := counted_run h
  refine ⟨fun hcalled => ?_, hcounted.failed⟩
  have hfrees := hcounted.frees hcalled
  rw [hrest, List.count_nil, Nat.add_zero] at hfrees
  constructor
  · intro hone
    rw [← hfrees, hone.count]
  · intro hone
    refine hcounted.once hcalled (Nat.le_of_eq hone) (List.count_pos_iff.mp ?_)
    omega

/-- A handler that answers later, after it has returned. -/
theorem request_arena_released_later :
    ∃ c r, Run true c r ∧ c.frames = [] ∧ c.st.called = true ∧ ReleasedOnce c.st.ops := by
  obtain ⟨c, hc, hrest, hcalled⟩ : ∃ c, (machine true).run anyStep fresh
      [.event (.call true true), .resume, .event (.done .okay (some (some [5]))), .resume] = some c ∧
      c.frames = [] ∧ c.st.called = true := ⟨_, rfl, rfl, rfl⟩
  have hr := Resume.System.hist_of_run (fun r l => r ++ [l]) [] _ hc
  exact ⟨c, _, hr, hrest, hcalled, ((request_arena_released true c _ hr hrest).1 hcalled).mpr rfl⟩

/-- A handler of a registered service that answers and then raises an exception. -/
theorem request_arena_freed_twice :
    ((machine true).run anyStep fresh
      [.event (.call true true), .event (.done .okay (some (some [5]))), .resume, .event .raise,
        .resume, .resume]).map (fun c => (c.frames, c.st.ops, c.st.responds))
      = some ([], [.new, .parse, .encode, .copy, .free, .free],
          [(.okay, [5]), (handlerRaised, [])]) := by
  decide

end Urpc.Api.Unary
