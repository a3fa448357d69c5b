/-
  `ServerWriter` (`urpc/stream.h`): the typed end of a server-streaming call.

  `RegisterServerStreamingFor` reads the request, calls the handler with a writer and finishes the
  call with OK when the handler has returned and no write is outstanding. The writer and this
  wrapper share a `ServerWriteState`. Each function ends in at most one call of the core's
  context, which is part of its result here.

  `AutoFinish.machine` runs them with any core that calls every write callback at most once, at
  once or later, and any handler: it may write and finish inside callbacks, and after it has
  returned. The user's part of a write callback runs before `OnDelivered`, which is a frame. An
  exception of the handler unwinds the callbacks that run inside it, up to the `catch` of
  `RegisterStreamRaw`.

  Proved: `auto_finish_exact`.
-/
import Urpc.Lib.Resume
import Urpc.Status

namespace Urpc.Api

open Cxx

/-! ## The model -/

/-- `detail::ServerWriteState`. -/
structure ServerWriteState where
  wrote : Bool := false
  finished : Bool := false
  inFlight : Nat := 0
  handlerReturned : Bool := false
  finishCtx : Bool := false            -- `finish_ctx` is set

/-- What a call of `Write` meets: the message, none if it is null, as `upb_Encode` encodes it if it
    can; and whether `upb_Arena_New` gives an arena. -/
structure Outgoing where
  msg : Option (Option Bytes)
  arena : Bool := true
  deriving DecidableEq

/-- What the read callback of the wrapper does first. -/
inductive Reception where
  | ignore
  | refuse (st : Status)
  | call
  deriving DecidableEq

def nullMessage : Status := ⟨.internal, str "null message"⟩
def streamAlreadyFinished : Status := ⟨.internal, str "stream already finished"⟩
def noResponsesWritten : Status :=
  ⟨.unimplemented, str "method not implemented: no responses written"⟩

/-- The read callback of `RegisterServerStreamingFor` up to the handler. -/
def onRequest (st : Status) (eos arena parsed : Bool) : Reception :=
  if !st.ok || eos then .ignore
  else if !arena then .refuse arenaAllocFailed
  else if !parsed then .refuse requestDecodeFailed
  else .call

namespace ServerWriteState

/-- The `fetch_sub(1)` of a `size_t`. -/
def fetchSub (n : Nat) : Nat := if n = 0 then 2 ^ 64 - 1 else n - 1

/-- `MaybeAutoFinish`, and the status that it gives to the core's `Finish`. -/
def maybeAutoFinish (w : ServerWriteState) : ServerWriteState × Option Status :=
  if w.inFlight ≠ 0 then (w, none)
  else if !w.handlerReturned || !w.finishCtx then (w, none)
  else if w.finished then (w, none)
  else ({ w with finished := true }, some .okay)

def onDelivered (w : ServerWriteState) : ServerWriteState × Option Status :=
  let w' := { w with inFlight := fetchSub w.inFlight }
  if w.inFlight = 1 then maybeAutoFinish w' else (w', none)

/-- `Write` up to the core's `WriteMessage`: the payload, or the status for `fail`. -/
def encode (w : ServerWriteState) (m : Outgoing) : Except Status Bytes :=
  match m.msg with
  | none => .error nullMessage
  | some encoded =>
      if w.finished then .error streamAlreadyFinished
      else if !m.arena then .error arenaAllocFailed
      else
        match encoded with
        | some payload => .ok payload
        | none => .error responseEncodeFailed

/-- `Write` returns. -/
def writeReturns (w : ServerWriteState) (m : Outgoing) : Bool := (w.encode m).toBool

/-- What `Write` counts before it calls `WriteMessage`. -/
def counted (w : ServerWriteState) : ServerWriteState :=
  { w with wrote := true, inFlight := w.inFlight + 1 }

/-- `Finish`, and whether it calls the core's `Finish`. -/
def finish (w : ServerWriteState) : ServerWriteState × Bool :=
  ({ w with finished := true }, !w.finished)

/-- The wrapper after the handler, and the status that it gives to the core's `Finish`. -/
def afterHandler (w : ServerWriteState) : ServerWriteState × Option Status :=
  if w.finished then (w, none)
  else if !w.wrote then (w, some noResponsesWritten)
  else maybeAutoFinish { w with handlerReturned := true, finishCtx := true }

end ServerWriteState

namespace AutoFinish

/-- A call of a handler that `RegisterServerStreamingFor` has registered. `unwound`, `explicit`,
    `autos`, `returned` and `wroteFirst` are records kept for the proofs. -/
structure State where
  w : ServerWriteState := {}
  received : Bool := false             -- the read callback was called
  serving : Bool := false              -- the handler was called
  sent : Nat := 0                      -- messages given to `WriteMessage`
  held : List Nat := []                -- those whose callback was not called yet
  running : Bool := false              -- the handler was called and is not over
  raised : Bool := false               -- it has raised an exception, which is not caught yet
  unwound : Nat := 0                   -- callbacks that the exception has cut off
  explicit : Bool := false             -- the writer's `Finish` has finished the call
  autos : Nat := 0                     -- automatic `Finish(OK)`
  returned : Bool := false             -- the handler has returned
  wroteFirst : Bool := false           -- and had written

inductive Frame where
  | onDelivered (i : Nat)
  | afterHandler
  deriving DecidableEq

inductive Event where
  | read (st : Status) (eos arena parsed : Bool)
  | write (m : Outgoing)
  | finish (st : Status)
  | raise
  | callback (i : Nat)                 -- the core calls the callback of a message
  deriving DecidableEq

def exec (f : Frame) (s : State) : State :=
  match f with
  | .onDelivered _ =>
      if s.raised then { s with unwound := s.unwound + 1 }
      else
        let (w, st) := s.w.onDelivered
        { s with w, autos := s.autos + st.toList.length }
  | .afterHandler =>
      -- the `catch` finishes the call with an error of the core
      if s.raised then { s with running := false, raised := false }
      else
        let (w, st) := s.w.afterHandler
        { s with w
                 running := false
                 autos := s.autos + (st.toList.filter Status.ok).length
                 returned := true
                 wroteFirst := s.w.wrote }

def fire (e : Event) (s : State) : Option (State × List Frame) :=
  match e with
  | .read st eos arena parsed =>
      if s.received then none
      else
        match onRequest st eos arena parsed with
        | .call =>
            some ({ s with received := true, serving := true, running := true }, [.afterHandler])
        | .ignore | .refuse _ => some ({ s with received := true }, [])
  | .write m =>
      if !s.serving || s.raised then none
      else
        match s.w.encode m with
        | .ok _ => some ({ s with w := s.w.counted
                                  sent := s.sent + 1
                                  held := s.held ++ [s.sent] }, [])
        | .error _ => some (s, [])
  | .finish _ =>
      if !s.serving || s.raised then none
      else
        let (w, finishes) := s.w.finish
        some ({ s with w, explicit := s.explicit || finishes }, [])
  | .raise => if s.running && !s.raised then some ({ s with raised := true }, []) else none
  | .callback i =>
      if i ∈ s.held && !s.raised then
        some ({ s with held := s.held.erase i }, [.onDelivered i])
      else none

def machine : Resume.System State Frame Event where
  exec f s := (exec f s, [])
  fire := fire
  anytime _ := true
  settled _ := true

abbrev Conf := Resume.Conf State Frame
abbrev Label := Resume.Label Event

def anyStep (_ : Conf) (_ : Label) : Prop := True

instance (c : Conf) (l : Label) : Decidable (anyStep c l) := .isTrue trivial

/-! ## Counting -/

def Frame.delivers : Frame → Bool
  | .onDelivered _ => true
  | .afterHandler => false

/-- The messages whose callback has not completed: it was not called yet, it is running, or an
    exception has cut it off. -/
def outstanding (c : Conf) : Nat :=
  c.st.held.length + c.frames.countP Frame.delivers + c.st.unwound

structure Counted (c : Conf) : Prop where
  inFlight : c.st.w.inFlight = outstanding c
  flags : c.st.w.finishCtx = c.st.w.handlerReturned
  returned : c.st.w.handlerReturned = true → c.st.returned = true
  once : c.frames.count .afterHandler + c.st.returned.toNat ≤ c.st.received.toNat
  finished : c.st.w.finished = true ↔ c.st.explicit = true ∨ c.st.autos = 1
  alone : c.st.explicit = true → c.st.autos = 0
  one : c.st.autos ≤ 1
  waits : c.st.w.handlerReturned = true → c.st.w.finished = false → outstanding c ≠ 0
  issued : c.st.autos = 1 → c.st.w.handlerReturned = true
  serves : c.st.returned = true → c.st.wroteFirst = true → c.st.explicit = false →
    c.st.w.handlerReturned = true

/-- `MaybeAutoFinish` does nothing, or it finishes the call. -/
theorem maybeAutoFinish_cases (w : ServerWriteState) :
    w.maybeAutoFinish = (w, none) ∧
        (w.inFlight = 0 → w.handlerReturned = true → w.finishCtx = true → w.finished = true) ∨
      w.maybeAutoFinish = ({ w with finished := true }, some .okay) ∧ w.inFlight = 0 ∧
        w.handlerReturned = true ∧ w.finished = false := by
  unfold ServerWriteState.maybeAutoFinish
  split
  · next h => exact .inl ⟨rfl, fun h0 => absurd h0 h⟩
  · next h =>
      split
      · next hf => exact .inl ⟨rfl, fun _ hr hctx => by simp [hr, hctx] at hf⟩
      · next hf =>
          split
          · next hdone => exact .inl ⟨rfl, fun _ _ _ => hdone⟩
          · next hdone =>
              obtain ⟨hr, -⟩ : w.handlerReturned = true ∧ w.finishCtx = true := by
                simpa using hf
              exact .inr ⟨rfl, by omega, hr, by simpa using hdone⟩

section Steps

variable {c d : Conf}

/-- The frame of a write callback ends. -/
theorem counted_onDelivered {i : Nat} {fs : List Frame} (h : Counted c)
    (hc : c.frames = .onDelivered i :: fs) :
    Counted ⟨exec (.onDelivered i) c.st, fs⟩ := by
  have hcount : outstanding c =
      c.st.held.length + fs.countP Frame.delivers + c.st.unwound + 1 := by
    rw [outstanding, hc, List.countP_cons_of_pos rfl]
    omega
  have hin := h.inFlight
  have hsub : ServerWriteState.fetchSub c.st.w.inFlight =
      c.st.held.length + fs.countP Frame.delivers + c.st.unwound := by
    rw [ServerWriteState.fetchSub, if_neg (by omega)]
    omega
  have honce : fs.count .afterHandler + c.st.returned.toNat ≤ c.st.received.toNat := by
    simpa [hc] using h.once
  simp only [exec]
  split
  · have hsame : outstanding ⟨{ c.st with unwound := c.st.unwound + 1 }, fs⟩ = outstanding c := by
      rw [hcount]
      simp only [outstanding]
      omega
    refine ⟨?_, h.flags, h.returned, honce, h.finished, h.alone, h.one, ?_, h.issued, h.serves⟩
    · rw [hsame]
      exact hin
    · rw [hsame]
      exact h.waits
  simp only [ServerWriteState.onDelivered]
  split
  · next hlast =>
      have hzero : c.st.held.length + fs.countP Frame.delivers + c.st.unwound = 0 := by omega
      rcases maybeAutoFinish_cases { c.st.w with
        inFlight := ServerWriteState.fetchSub c.st.w.inFlight } with ⟨heq, hno⟩ | ⟨heq, -, hr, hf⟩
      · rw [heq]
        refine ⟨hsub, h.flags, h.returned, honce, h.finished, h.alone, h.one, ?_, h.issued,
          h.serves⟩
        intro hr hf
        have hdone : c.st.w.finished = true :=
          hno (hsub.trans hzero) hr (h.flags.trans hr)
        exact absurd (hdone.symm.trans hf) (by simp)
      · rw [heq]
        have hf : c.st.w.finished = false := hf
        have hnot : ¬ (c.st.explicit = true ∨ c.st.autos = 1) := by
          rw [← h.finished, hf]
          simp
        have hone := h.one
        have hautos : c.st.autos = 0 := by omega
        refine ⟨hsub, h.flags, h.returned, honce, ?_, ?_, ?_, nofun, fun _ => hr, h.serves⟩
        · simp [hautos]
        · exact fun he => absurd (.inl he) hnot
        · simp [hautos]
  · next hmore =>
      refine ⟨hsub, h.flags, h.returned, honce, h.finished, h.alone, h.one, ?_, h.issued, h.serves⟩
      intro _ _
      simp only [outstanding]
      omega

/-- The handler has returned. -/
theorem counted_afterHandler {fs : List Frame} (h : Counted c)
    (hc : c.frames = .afterHandler :: fs) : Counted ⟨exec .afterHandler c.st, fs⟩ := by
  have hcount : outstanding c = c.st.held.length + fs.countP Frame.delivers + c.st.unwound := by
    simp [outstanding, hc, Frame.delivers]
  have hin := h.inFlight.trans hcount
  have hreturned := Bool.toNat_le c.st.received
  obtain ⟨hnew, honce⟩ : c.st.returned = false ∧
      fs.count .afterHandler + 1 ≤ c.st.received.toNat := by
    have := h.once
    rw [hc, List.count_cons_self] at this
    cases hr : c.st.returned with
    | false => exact ⟨rfl, by simpa [hr] using this⟩
    | true =>
        simp only [hr, Bool.toNat_true] at this
        omega
  have hnot : c.st.w.handlerReturned = false := by
    by_contra hr
    rw [h.returned (by simpa using hr)] at hnew
    cases hnew
  have hautos : c.st.autos = 0 := by
    have hone := h.one
    by_contra hne
    rw [h.issued (by omega)] at hnot
    cases hnot
  have hfinished : c.st.w.finished = c.st.explicit := by
    rw [Bool.eq_iff_iff, h.finished, hautos]
    simp
  simp only [exec]
  split
  · refine ⟨hin, h.flags, h.returned, ?_, h.finished, h.alone, h.one, ?_, h.issued, h.serves⟩
    · rw [hnew]
      exact Nat.le_of_succ_le honce
    · exact fun hr => absurd (hnot.symm.trans hr) (by simp)
  simp only [ServerWriteState.afterHandler]
  split
  · next hf =>
      have hf : c.st.explicit = true := hfinished.symm.trans hf
      refine ⟨hin, h.flags, fun _ => rfl, honce, h.finished, h.alone, h.one, ?_, h.issued, ?_⟩
      · exact fun hr => absurd (hnot.symm.trans hr) (by simp)
      · exact fun _ _ he => absurd (hf.symm.trans he) (by simp)
  · next hf =>
      have hf : c.st.w.finished = false := by simpa using hf
      have hexplicit : c.st.explicit = false := hfinished.symm.trans hf
      split
      · next hw =>
          have hw : c.st.w.wrote = false := by simpa using hw
          refine ⟨hin, h.flags, fun _ => rfl, honce, h.finished, h.alone, h.one, ?_, h.issued, ?_⟩
          · exact fun hr => absurd (hnot.symm.trans hr) (by simp)
          · exact fun _ hwrote => absurd (hw.symm.trans hwrote) (by simp)
      · rcases maybeAutoFinish_cases { c.st.w with handlerReturned := true, finishCtx := true } with
          ⟨heq, hno⟩ | ⟨heq, h0, -, -⟩
        · rw [heq]
          refine ⟨hin, rfl, fun _ => rfl, honce, h.finished, h.alone, h.one, ?_, fun _ => rfl,
            fun _ _ _ => rfl⟩
          intro _ hopen hzero
          have hdone : c.st.w.finished = true := hno (hin.trans hzero) rfl rfl
          exact absurd (hdone.symm.trans hf) (by simp)
        · rw [heq]
          refine ⟨hin, rfl, fun _ => rfl, honce, ?_, ?_, ?_, nofun, fun _ => rfl, fun _ _ _ => rfl⟩
          · simp [hautos, Status.ok, Status.okay]
          · exact fun he => absurd (hexplicit.symm.trans he) (by simp)
          · simp [hautos, Status.ok, Status.okay]

theorem counted_fire {e : Event} {s' : State} {gs : List Frame} (h : Counted c)
    (hfire : fire e c.st = some (s', gs)) : Counted ⟨s', gs ++ c.frames⟩ := by
  cases e with
  | read st eos arena parsed =>
      simp only [fire] at hfire
      split at hfire
      · cases hfire
      · next hnew =>
          have hnew : c.st.received = false := by simpa using hnew
          have honce := h.once
          rw [hnew, Bool.toNat_false] at honce
          split at hfire
          · cases hfire
            refine ⟨h.inFlight, h.flags, h.returned, ?_, h.finished, h.alone, h.one, h.waits,
              h.issued, h.serves⟩
            simp only [List.singleton_append, List.count_cons_self, Bool.toNat_true]
            omega
          all_goals
            cases hfire
            refine ⟨h.inFlight, h.flags, h.returned, ?_, h.finished, h.alone, h.one, h.waits,
              h.issued, h.serves⟩
            simp only [List.nil_append, Bool.toNat_true]
            omega
  | write m =>
      simp only [fire] at hfire
      split at hfire
      · cases hfire
      · split at hfire
        · cases hfire
          have hcount : outstanding ⟨{ c.st with
              w := c.st.w.counted, sent := c.st.sent + 1, held := c.st.held ++ [c.st.sent] },
              [] ++ c.frames⟩ = outstanding c + 1 := by
            simp only [outstanding, List.length_append, List.length_singleton, List.nil_append]
            omega
          refine ⟨?_, h.flags, h.returned, h.once, h.finished, h.alone, h.one, ?_, h.issued,
            h.serves⟩
          · rw [hcount, ← h.inFlight]
            rfl
          · rw [hcount]
            exact fun _ _ => Nat.succ_ne_zero _
        · cases hfire
          exact h
  | finish st =>
      simp only [fire, ServerWriteState.finish] at hfire
      split at hfire
      · cases hfire
      · cases hfire
        have hfinished := h.finished
        have hone := h.one
        cases hf : c.st.w.finished with
        | true =>
            have hexplicit : (c.st.explicit || !true) = c.st.explicit := Bool.or_false _
            rw [hexplicit]
            refine ⟨h.inFlight, h.flags, h.returned, h.once, ?_, h.alone, h.one, nofun, h.issued,
              h.serves⟩
            rw [hf] at hfinished
            exact hfinished
        | false =>
            have hnot : ¬ (c.st.explicit = true ∨ c.st.autos = 1) := by
              rw [← hfinished, hf]
              simp
            have hautos : c.st.autos = 0 := by omega
            refine ⟨h.inFlight, h.flags, h.returned, h.once, ?_, fun _ => hautos, h.one, nofun,
              h.issued, ?_⟩ <;> simp
  | raise =>
      simp only [fire] at hfire
      split at hfire
      · cases hfire
        exact ⟨h.inFlight, h.flags, h.returned, h.once, h.finished, h.alone, h.one, h.waits,
          h.issued, h.serves⟩
      · cases hfire
  | callback i =>
      simp only [fire] at hfire
      split at hfire
      · next hmem =>
          cases hfire
          have hmem : i ∈ c.st.held := by
            have := hmem
            simp only [Bool.and_eq_true, decide_eq_true_eq] at this
            exact this.1
          have hcount : outstanding ⟨{ c.st with held := c.st.held.erase i },
              [.onDelivered i] ++ c.frames⟩ = outstanding c := by
            have hlen := List.length_erase_of_mem hmem
            have hpos := List.length_pos_of_mem hmem
            rw [outstanding, List.singleton_append, List.countP_cons_of_pos rfl, hlen]
            simp only [outstanding]
            omega
          refine ⟨?_, h.flags, h.returned, h.once, h.finished, h.alone, h.one, ?_, h.issued,
            h.serves⟩
          · rw [hcount]
            exact h.inFlight
          · rw [hcount]
            exact h.waits
      · cases hfire

theorem counted_step {l : Label} (h : Counted c) (hs : machine.step c l = some d) : Counted d := by
  cases l with
  | resume =>
      obtain ⟨f, fs, hf, rfl⟩ := Resume.System.step_resume hs
      cases f with
      | onDelivered i => exact counted_onDelivered h hf
      | afterHandler => exact counted_afterHandler h hf
  | event e =>
      obtain ⟨-, s', gs, hfire, rfl⟩ := Resume.System.step_event hs
      exact counted_fire h hfire

theorem counted_fresh : Counted { st := {} } := by
  constructor <;> simp [outstanding]

theorem counted_reach (h : machine.Reach anyStep { st := {} } c) : Counted c :=
  h.inv counted_fresh fun _ _ _ hc _ hs => counted_step hc hs

/-- Events make no automatic `Finish`. -/
theorem fire_autos {e : Event} {s s' : State} {gs : List Frame} (hfire : fire e s = some (s', gs)) :
    s'.autos = s.autos := by
  cases e with
  | read st eos arena parsed =>
      simp only [fire] at hfire
      split at hfire
      · cases hfire
      · split at hfire <;> cases hfire <;> rfl
  | write m =>
      simp only [fire] at hfire
      split at hfire
      · cases hfire
      · split at hfire <;> cases hfire <;> rfl
  | finish st =>
      simp only [fire] at hfire
      split at hfire <;> cases hfire
      rfl
  | raise | callback i =>
      simp only [fire] at hfire
      split at hfire <;> cases hfire
      rfl

/-- A frame that makes the automatic `Finish` leaves nothing in flight. -/
theorem exec_autos (f : Frame) (s : State) (hauto : (exec f s).autos ≠ s.autos) :
    (exec f s).w.inFlight = 0 ∧ (exec f s).explicit = s.explicit ∧
      (exec f s).autos = s.autos + 1 := by
  have hmaybe : ∀ w : ServerWriteState, w.maybeAutoFinish.2 ≠ none →
      w.maybeAutoFinish.1.inFlight = 0 ∧ w.maybeAutoFinish.2 = some .okay := by
    intro w hw
    rcases maybeAutoFinish_cases w with ⟨heq, -⟩ | ⟨heq, h0, -, -⟩
    · exact absurd (congrArg Prod.snd heq) hw
    · rw [heq]
      exact ⟨h0, rfl⟩
  cases f with
  | onDelivered i =>
      simp only [exec, ServerWriteState.onDelivered] at hauto ⊢
      split at hauto
      · exact absurd rfl hauto
      next hcalm =>
      rw [if_neg hcalm]
      split at hauto
      · next hlast =>
          rw [if_pos hlast]
          obtain ⟨h0, hst⟩ := hmaybe _ fun hnone => hauto (by rw [hnone]; rfl)
          exact ⟨h0, rfl, by rw [hst]; rfl⟩
      · exact absurd rfl hauto
  | afterHandler =>
      simp only [exec, ServerWriteState.afterHandler] at hauto ⊢
      split at hauto
      · exact absurd rfl hauto
      next hcalm =>
      rw [if_neg hcalm]
      split at hauto
      · exact absurd rfl hauto
      · next hopen =>
          rw [if_neg hopen]
          split at hauto
          · exact absurd rfl hauto
          · next hwrote =>
              rw [if_neg hwrote]
              obtain ⟨h0, hst⟩ := hmaybe _ fun hnone => hauto (by rw [hnone]; rfl)
              exact ⟨h0, rfl, by rw [hst]; rfl⟩

/-- The automatic `Finish` comes after the handler, the last callback and no other `Finish`. -/
theorem auto_step {l : Label} (h : Counted c) (hs : machine.step c l = some d)
    (hauto : d.st.autos ≠ c.st.autos) :
    d.st.returned = true ∧ outstanding d = 0 ∧ c.st.explicit = false := by
  have hd := counted_step h hs
  cases l with
  | resume =>
      obtain ⟨f, fs, -, rfl⟩ := Resume.System.step_resume hs
      obtain ⟨h0, hexplicit, hplus⟩ := exec_autos f c.st hauto
      have hone := hd.one
      have hautos : (exec f c.st).autos = 1 := by
        have : (exec f c.st).autos ≤ 1 := hone
        omega
      refine ⟨hd.returned (hd.issued hautos), hd.inFlight.symm.trans h0, ?_⟩
      rw [← hexplicit]
      by_contra hex
      have hex : (exec f c.st).explicit = true := by simpa using hex
      exact absurd (hautos.symm.trans (hd.alone hex)) (by simp)
  | event e =>
      obtain ⟨-, s', gs, hfire, rfl⟩ := Resume.System.step_event hs
      exact absurd (fire_autos hfire) hauto

end Steps

/-- **The automatic finish is exact.** In every run of a handler that `RegisterServerStreamingFor`
    has registered: `in_flight` is the number of messages whose callback has not completed, and is
    positive when one completes. The automatic `Finish(OK)` is made at most once; when it is made
    the handler has returned, no message is outstanding and the writer's `Finish` was not called.
    Once the handler has returned after a write, with no `Finish` of its own, it has been made as
    soon as `in_flight` is zero. -/
theorem auto_finish_exact (c : Conf) (h : machine.Reach anyStep { st := {} } c) :
    c.st.w.inFlight = outstanding c ∧
    (∀ i fs, c.frames = .onDelivered i :: fs → 0 < c.st.w.inFlight) ∧
    c.st.autos ≤ 1 ∧
    (∀ l d, machine.step c l = some d → d.st.autos ≠ c.st.autos →
      d.st.returned = true ∧ outstanding d = 0 ∧ c.st.explicit = false) ∧
    (c.st.returned = true → c.st.wroteFirst = true → c.st.explicit = false →
      c.st.w.inFlight = 0 → c.st.autos = 1) := by
  have hc := counted_reach h
  refine ⟨hc.inFlight, fun i fs hf => ?_, hc.one, fun l d hs hauto => auto_step hc hs hauto, ?_⟩
  · rw [hc.inFlight, outstanding, hf, List.countP_cons_of_pos rfl]
    omega
  · intro hr hw he h0
    have hreturned := hc.serves hr hw he
    have hdone : c.st.w.finished = true := by
      by_contra hopen
      exact hc.waits hreturned (by simpa using hopen) (hc.inFlight ▸ h0)
    exact (hc.finished.mp hdone).resolve_left (by simp [he])

/-- A handler writes two messages and returns; the second callback comes first and writes a third.
    The last callback finishes the call. -/
theorem auto_finish_exact_chained :
    ∃ c d, machine.Reach anyStep { st := {} } c ∧ machine.step c .resume = some d ∧
      c.st.autos = 0 ∧ d.st.autos = 1 ∧ outstanding d = 0 := by
  obtain ⟨c, d, hc, hd, hautos, hautos'⟩ : ∃ c d, machine.run anyStep { st := {} }
      [.event (.read .okay false true true), .event (.write ⟨some (some [1]), true⟩),
        .event (.write ⟨some (some [2]), true⟩), .resume, .event (.callback 1),
        .event (.write ⟨some (some [3]), true⟩), .resume, .event (.callback 2), .resume,
        .event (.callback 0)] = some c ∧
      machine.step c .resume = some d ∧ c.st.autos = 0 ∧ d.st.autos = 1 :=
    ⟨_, _, rfl, rfl, rfl, rfl⟩
  have hr := Resume.System.reach_of_run _ _ _ hc
  have hstep := (auto_finish_exact c hr).2.2.2.1 .resume d hd (by rw [hautos, hautos']; decide)
  exact ⟨c, d, hr, hd, hautos, hautos', hstep.2.1⟩

end AutoFinish

end Urpc.Api
