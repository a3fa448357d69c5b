/-
  The cancellation callbacks of a server call.

  `OnCancel` keeps a callback until `FireCancel` runs them all, once. `Life` is a stream with
  what the callbacks are about: the end of its connection in `FinishShutdown`, and two records
  for the proofs. `registered`: the callbacks that `OnCancel` took. `cause`: the deadline fired,
  the stream closed or the connection ended before a terminal block was submitted.

  `FinishShutdown` drops the connection with its calls; the frame `closeErase` stands for that.

  Proved: `turn_step`, what a step does to the callbacks.
-/
import Urpc.Server.Stream

namespace Urpc.Server

open Cxx

/-! ## The life of a call -/

structure Life where
  st : State := {}
  removed : Bool := false              -- `FinishShutdown` has dropped the connection
  registered : List CbId := []
  cause : Bool := false

inductive LifeEvent where
  | conn (e : Event)
  | forceClose                         -- `FinishShutdown`
  deriving DecidableEq

/-- What `OnCancel` returns. -/
def onCancelTaken (s : State) : Bool :=
  match s.call with
  | some k => !k.cancelFired
  | none => false

/-- The callback that the event registers. -/
def registers (s : State) : Event → List CbId
  | .op (.onCancel cb) => if onCancelTaken s then [cb] else []
  | _ => []

theorem registers_other {s : State} {e : Event} (h : ∀ cb, e ≠ .op (.onCancel cb)) :
    registers s e = [] := by
  unfold registers
  split
  · next cb => exact absurd rfl (h cb)
  · rfl

/-- The deadline, the end of the stream or of the connection. -/
def Event.cancels : Event → Bool
  | .deadline _ | .streamClose | .connectionLost => true
  | _ => false

def LifeEvent.cancels : LifeEvent → Bool
  | .conn e => e.cancels
  | .forceClose => true

/-- A terminal block was submitted. -/
def terminated (s : State) : Bool := s.h2.subs.any Submission.isTerminal

namespace Life

def exec (f : Frame) (l : Life) : Life × List Frame :=
  ({ l with st := (Server.exec f l.st).1 }, (Server.exec f l.st).2)

def fire (cfg : Config) (e : LifeEvent) (l : Life) : Option (Life × List Frame) :=
  match e with
  | .conn e =>
      -- the event loop has nothing left that leads to a connection that was dropped
      if l.removed && !anytime e then none
      else
        (Server.fire cfg e l.st).map fun r =>
          ({ l with
              st := r.1
              registered := l.registered ++ registers l.st e
              cause := l.cause || e.cancels && !terminated l.st }, r.2)
  | .forceClose =>
      if l.removed then none
      else
        some ({ l with
                st := fireCancel { l.st with connClosed := true }
                removed := true
                cause := l.cause || !terminated l.st }, [.closeErase])

def anytime : LifeEvent → Bool
  | .conn e => Server.anytime e
  | .forceClose => false

def machine (cfg : Config) : Resume.System Life Frame LifeEvent where
  exec := exec
  fire := fire cfg
  anytime := anytime
  settled l := l.st.h2.notes.isEmpty

abbrev Conf := Resume.Conf Life Frame
abbrev Label := Resume.Label LifeEvent

end Life

/-! ## What leaves the callbacks alone -/

def Obs.cancel : Obs → Option CbId
  | .cancelled cb => some cb
  | _ => none

/-- The callbacks that have run. -/
def ranOf (log : List Obs) : List CbId := log.filterMap Obs.cancel

/-- The fields of a `Call` about cancellation. -/
def cancelSide (s : State) : Option (Bool × List CbId) :=
  s.call.map fun k => (k.cancelFired, k.cancelCbs)

/-- The callbacks that wait. -/
def waiting (s : State) : List CbId := ((cancelSide s).map Prod.snd).getD []

theorem onCancelTaken_iff {s : State} :
    onCancelTaken s = true ↔ ∃ cbs, cancelSide s = some (false, cbs) := by
  cases hk : s.call with
  | none => simp [onCancelTaken, cancelSide, hk]
  | some k => simp [onCancelTaken, cancelSide, hk]

theorem onCancel_side {s : State} {cbs : List CbId} (h : cancelSide s = some (false, cbs))
    (cb : CbId) : cancelSide (onCancel s cb) = some (false, cbs ++ [cb]) := by
  obtain ⟨k, hk, hside⟩ := Option.map_eq_some_iff.mp h
  obtain ⟨hf, rfl⟩ := Prod.mk.inj hside
  simp [onCancel, cancelSide, State.setCall, hk, hf]

theorem onCancel_refused {s : State} (h : onCancelTaken s = false) (cb : CbId) :
    onCancel s cb = s := by
  unfold onCancel
  split
  · next k hk =>
      have hf : k.cancelFired = true := by simpa [onCancelTaken, hk] using h
      rw [if_pos hf]
  · rfl

theorem onCancel_rest (s : State) (cb : CbId) : (onCancel s cb).log = s.log ∧
    (onCancel s cb).h2 = s.h2 ∧ (onCancel s cb).opened = s.opened := by
  unfold onCancel
  split
  · split <;> exact ⟨rfl, rfl, rfl⟩
  · exact ⟨rfl, rfl, rfl⟩

structure Leaves (s s' : State) : Prop where
  side : cancelSide s' = cancelSide s
  ran : ranOf s'.log = ranOf s.log
  closed : s'.h2.closed = s.h2.closed
  opened : s.opened = true → s'.opened = true
  terminated : terminated s = true → terminated s' = true

section Functions

variable {s s' s'' : State} {k k' : Call}

theorem Leaves.refl (s : State) : Leaves s s := ⟨rfl, rfl, rfl, id, id⟩

theorem Leaves.trans (h : Leaves s s') (h' : Leaves s' s'') : Leaves s s'' where
  side := h'.side.trans h.side
  ran := h'.ran.trans h.ran
  closed := h'.closed.trans h.closed
  opened ho := h'.opened (h.opened ho)
  terminated ho := h'.terminated (h.terminated ho)

theorem Leaves.waits (h : Leaves s s') : waiting s' = waiting s := by
  rw [waiting, h.side]
  rfl

theorem leaves_setCall (hc : s.call = some k)
    (hk : (k'.cancelFired, k'.cancelCbs) = (k.cancelFired, k.cancelCbs)) :
    Leaves s (s.setCall k') :=
  ⟨by rw [cancelSide, cancelSide, hc]; exact congrArg some hk, rfl, rfl, id, id⟩

theorem leaves_note {o : Obs} (ho : o.cancel = none) : Leaves s (s.note o) :=
  ⟨rfl, by simp [ranOf, State.note, ho], rfl, id, id⟩

theorem leaves_h2 {h2 : Sender (Option CbId)} (hclosed : h2.closed = s.h2.closed)
    (hsubs : s.h2.subs <+: h2.subs) : Leaves s { s with h2 } where
  side := rfl
  ran := rfl
  closed := hclosed
  opened := id
  terminated h := by
    obtain ⟨new, hnew⟩ := hsubs
    change h2.subs.any Submission.isTerminal = true
    rw [← hnew, List.any_append, show s.h2.subs.any _ = true from h, Bool.true_or]

theorem leaves_sendHeaders (fields : HeaderMap) (e : Bool) : Leaves s (s.sendHeaders fields e) :=
  leaves_h2 (by simp) (by simp)

theorem leaves_sendData (data : Bytes) (n : Option (Option CbId)) : Leaves s (s.sendData data n) :=
  leaves_h2 (by simp) (by simp)

theorem leaves_sendTrailers (fields : HeaderMap) : Leaves s (s.sendTrailers fields) :=
  leaves_h2 (by simp) (by simp)

theorem leaves_stopDeadline (hc : s.call = some k)
    (hk : (k'.cancelFired, k'.cancelCbs) = (k.cancelFired, k.cancelCbs)) :
    Leaves s (stopDeadline s k') :=
  ⟨by rw [cancelSide, cancelSide, hc]; exact congrArg some hk, rfl, rfl, id, id⟩

theorem leaves_trailersOnly (st : Status) : Leaves s (trailersOnly s st) := by
  unfold trailersOnly
  split
  · next k hc =>
      split
      · exact .refl s
      · exact (leaves_stopDeadline hc (by rfl)).trans (leaves_sendHeaders _ _)
  · exact leaves_sendHeaders _ _

theorem leaves_respondError (st : Status) : Leaves s (respondError s st) := by
  unfold respondError
  split
  · next k hc =>
      split
      · exact .refl s
      · exact (leaves_stopDeadline hc (by rfl)).trans (leaves_trailersOnly st)
  · exact .refl s

theorem leaves_finishStream (st : Status) : Leaves s (finishStream s st) := by
  unfold finishStream
  split
  · next k hc =>
      split
      · exact .refl s
      · have hstop : Leaves s (stopDeadline s { k with
            responded := true, writeClosed := true, readFinished := true }) :=
          leaves_stopDeadline hc (by rfl)
        dsimp only
        split
        · exact hstop.trans (leaves_setCall rfl (by rfl))
        · split
          · exact hstop.trans (leaves_sendHeaders _ _)
          · exact hstop.trans (leaves_sendTrailers _)
  · exact .refl s

theorem leaves_maybeSendDeferredFinish : Leaves s (maybeSendDeferredFinish s) := by
  unfold maybeSendDeferredFinish
  split
  · next k hc =>
      split
      · exact .refl s
      · split
        · exact .refl s
        · exact (leaves_setCall hc (by rfl)).trans (leaves_sendTrailers _)
  · exact .refl s

theorem leaves_pumpOut : Leaves s (pumpOut s).1 := by
  unfold pumpOut
  split
  · next k hc =>
      split
      · exact .refl s
      · split
        · exact .refl s
        · dsimp only
          split
          · exact (leaves_setCall hc (by rfl)).trans (leaves_sendHeaders _ _)
          · exact (leaves_setCall hc (by rfl)).trans (leaves_sendData _ _)
  · exact .refl s

theorem leaves_onConsumed (cb : Option CbId) : Leaves s (onConsumed s cb).1 := by
  have hset : Leaves s (match s.call with
      | some k => s.setCall { k with outInflight := false }
      | none => s) := by
    split
    · next k hc => exact leaves_setCall hc (by rfl)
    · exact .refl s
  cases cb with
  | some cb => exact hset.trans (leaves_note rfl)
  | none => exact hset

theorem leaves_respond (st : Status) (payload : Bytes) : Leaves s (respond s st payload).1 := by
  unfold respond
  split
  · next k hc =>
      split
      · exact .refl s
      · have hstop : Leaves s (stopDeadline s { k with responded := true }) :=
          leaves_stopDeadline hc (by rfl)
        dsimp only
        split
        · exact hstop.trans (leaves_sendHeaders _ _)
        · exact hstop.trans (leaves_sendHeaders _ _)
  · exact .refl s

theorem leaves_dispatchStream (first : Option Bytes) : Leaves s (dispatchStream s first) := by
  unfold dispatchStream
  split
  · next k hc =>
      split
      · exact .refl s
      · have hset : Leaves s { s.setCall { k with dispatched := true } with
            ctx := some (.stream first) } := (leaves_setCall hc (by rfl)).trans ⟨rfl, rfl, rfl, id, id⟩
        exact hset.trans (leaves_note rfl)
  · exact .refl s

theorem leaves_deliverRead (st : Status) (eos : Bool) (msg : Bytes) :
    Leaves s (deliverRead s st eos msg) := by
  unfold deliverRead
  split
  · next k hc =>
      split
      · exact .refl s
      · split
        · split
          · exact (leaves_setCall hc (by rfl)).trans (leaves_note rfl)
          · exact leaves_setCall hc (by rfl)
        · split
          · exact (leaves_setCall hc (by rfl)).trans (leaves_note rfl)
          · split
            · exact leaves_finishStream _
            · exact leaves_setCall hc (by rfl)
  · exact .refl s

theorem leaves_finishRequest : Leaves s (finishRequest s) := by
  unfold finishRequest
  split
  · exact .refl s
  · next k hc =>
      split
      · exact .refl s
      · dsimp only
        split
        · exact (leaves_setCall hc (by rfl)).trans (leaves_trailersOnly _)
        · split
          · split
            · exact (leaves_setCall hc (by rfl)).trans (leaves_trailersOnly _)
            · split
              · exact (leaves_setCall hc (by rfl)).trans (leaves_trailersOnly _)
              · have hctx : Leaves s { s.setCall { k with
                    requestDone := true, decoder := k.decoder.takeMessage.2 } with
                    ctx := some .unary } := (leaves_setCall hc (by rfl)).trans ⟨rfl, rfl, rfl, id, id⟩
                exact hctx.trans (leaves_note rfl)
          · split
            · split
              · exact (leaves_setCall hc (by rfl)).trans (leaves_trailersOnly _)
              · exact (leaves_setCall hc (by rfl)).trans (leaves_dispatchStream _)
            · exact (leaves_setCall hc (by rfl)).trans (leaves_deliverRead _ _ _)
          · split
            · exact (leaves_setCall hc (by rfl)).trans (leaves_trailersOnly _)
            · exact (leaves_setCall hc (by rfl)).trans (leaves_deliverRead _ _ _)

theorem leaves_armDeadline (k : Call) (headers : HeaderMap) :
    Leaves (s.setCall k) (armDeadline s k headers) := by
  unfold armDeadline
  dsimp only
  split
  · exact ⟨rfl, rfl, rfl, id, id⟩
  · exact .refl _

theorem routedCall_side (cfg : Config) (s : State) (path : Bytes) :
    ((routedCall cfg s path).cancelFired, (routedCall cfg s path).cancelCbs) =
      (cancelSide s).getD (false, []) := by
  unfold routedCall cancelSide
  dsimp only
  cases s.call <;> split <;> rfl

/-- A block of request headers keeps the call, or registers one without callbacks. -/
theorem leaves_onHeadersComplete (cfg : Config) (headers : HeaderMap) (e : Bool) :
    Leaves s (onHeadersComplete cfg s headers e).1 ∨
      s.call = none ∧ ∃ k, (k.cancelFired, k.cancelCbs) = (false, []) ∧
        Leaves (s.setCall k) (onHeadersComplete cfg s headers e).1 := by
  unfold onHeadersComplete
  split
  · next ct path _ _ =>
      split
      · exact .inl (leaves_trailersOnly _)
      · have hroute : ∀ s', Leaves (armDeadline s (routedCall cfg s path) headers) s' →
            Leaves s s' ∨ s.call = none ∧ ∃ k, (k.cancelFired, k.cancelCbs) = (false, []) ∧
              Leaves (s.setCall k) s' := by
          intro s' hs'
          have hrest := (leaves_armDeadline (routedCall cfg s path) headers).trans hs'
          have hside := routedCall_side cfg s path
          cases hc : s.call with
          | none =>
              rw [cancelSide, hc] at hside
              exact .inr ⟨rfl, _, hside, hrest⟩
          | some k =>
              rw [cancelSide, hc] at hside
              exact .inl ((leaves_setCall hc hside).trans hrest)
        dsimp only
        split
        · exact hroute _ (leaves_dispatchStream none)
        · exact hroute _ (.refl _)
  · exact .inl (leaves_trailersOnly _)

theorem leaves_onData (chunk : Bytes) (e : Bool) : Leaves s (onData s chunk e).1 := by
  unfold onData
  split
  · exact .refl s
  · next k hc =>
      split
      · exact .refl s
      · generalize (if chunk.isEmpty then _ else _) = r
        have hset : Leaves s { s.setCall { k with decoder := r.2 } with recv := s.recv ++ chunk } :=
          (leaves_setCall hc (by rfl)).trans ⟨rfl, rfl, rfl, id, id⟩
        dsimp only
        split
        · exact hset.trans (leaves_respondError _)
        · exact hset

theorem leaves_onDataRest (e : Bool) : Leaves s (onDataRest s e).1 := by
  unfold onDataRest
  split
  · exact .refl s
  · next k hc =>
      split
      · have hset : Leaves s (s.setCall { k with decoder := k.decoder.takeMessage.2 }) :=
          leaves_setCall hc (by rfl)
        dsimp only
        split
        · split
          · exact hset.trans (leaves_finishStream _)
          · exact hset.trans (leaves_dispatchStream _)
        · exact hset.trans (leaves_deliverRead _ _ _)
      · split
        · exact leaves_finishRequest
        · exact .refl s

theorem leaves_onDeadlineRest : Leaves s (onDeadlineRest s) := by
  unfold onDeadlineRest
  split
  · next k hc =>
      split
      · exact .refl s
      · dsimp only
        split
        · exact (leaves_setCall hc (by rfl)).trans (leaves_sendTrailers _)
        · exact (leaves_setCall hc (by rfl)).trans (leaves_sendHeaders _ _)
  · exact .refl s

theorem leaves_cancelStreamIo : Leaves s (cancelStreamIo s) := by
  unfold cancelStreamIo
  split
  · next k hc =>
      split
      · exact (leaves_setCall hc (by rfl)).trans (leaves_note rfl)
      · exact leaves_setCall hc (by rfl)
  · exact .refl s

theorem leaves_cancelOut : Leaves s (cancelOut s).1 := by
  unfold cancelOut
  split
  · next k hc =>
      split
      · exact .refl s
      · dsimp only
        split
        · exact (leaves_setCall hc (by rfl)).trans (leaves_note rfl)
        · exact leaves_setCall hc (by rfl)
  · exact .refl s

theorem leaves_readMessage (first : Option Bytes) (cb : CbId) :
    Leaves s (readMessage s first cb) := by
  unfold readMessage
  split
  · exact leaves_note rfl
  · next k hc =>
      split
      · exact leaves_note rfl
      · split
        · have hctx : Leaves s { s with ctx := some (.stream none) } := ⟨rfl, rfl, rfl, id, id⟩
          exact hctx.trans (leaves_note rfl)
        · split
          · exact (leaves_setCall hc (by rfl)).trans (leaves_note rfl)
          · split
            · exact (leaves_setCall hc (by rfl)).trans (leaves_note rfl)
            · split
              · exact leaves_note rfl
              · exact leaves_setCall hc (by rfl)

theorem leaves_tellWriter (cb : Option CbId) (st : Status) : Leaves s (tellWriter s cb st) := by
  cases cb with
  | some cb => exact leaves_note rfl
  | none => exact .refl s

theorem leaves_writeMessage (msg : Bytes) (cb : Option CbId) :
    Leaves s (writeMessage s msg cb).1 := by
  unfold writeMessage
  split
  · exact leaves_tellWriter _ _
  · next k hc =>
      split
      · exact leaves_tellWriter _ _
      · split
        · exact leaves_tellWriter _ _
        · have hset : Leaves s { s.setCall { k with
              outQueue := k.outQueue ++ [⟨encodeFrame msg, cb⟩] } with
              accepted := s.accepted ++ [msg] } :=
            (leaves_setCall hc (by rfl)).trans ⟨rfl, rfl, rfl, id, id⟩
          exact hset.trans leaves_pumpOut

theorem leaves_writeDone : Leaves s (writeDone s) := by
  unfold writeDone
  split
  · next k hc => exact leaves_setCall hc (by rfl)
  · exact .refl s

theorem leaves_finish (st : Status) : Leaves s (finish s st) := by
  have hcalls : Leaves s { s with finishCalls := s.finishCalls ++ [st] } := ⟨rfl, rfl, rfl, id, id⟩
  exact hcalls.trans (leaves_finishStream st)

/-- The callbacks that `FireCancel` runs. -/
def due (s : State) : List CbId :=
  match cancelSide s with
  | some (false, cbs) => cbs
  | _ => []

/-- What `FireCancel` does. -/
structure FiresCancel (s s' : State) : Prop where
  side : cancelSide s' = (cancelSide s).map fun p => (true, if p.1 then p.2 else [])
  ran : ranOf s'.log = ranOf s.log ++ due s
  closed : s'.h2.closed = s.h2.closed
  opened : s.opened = true → s'.opened = true
  terminated : terminated s = true → terminated s' = true

theorem fires_fireCancel : FiresCancel s (fireCancel s) := by
  unfold fireCancel
  split
  · next k hc =>
      split
      · next hf => exact ⟨by simp [cancelSide, hc, hf], by simp [due, cancelSide, hc, hf], rfl, id, id⟩
      · next hf =>
          have hrun : (k.cancelCbs.map Obs.cancelled).filterMap Obs.cancel = k.cancelCbs := by
            rw [List.filterMap_map]
            exact List.filterMap_some
          refine ⟨by simp [cancelSide, hc, hf], ?_, rfl, id, id⟩
          rw [ranOf, List.filterMap_append, hrun]
          simp [ranOf, due, cancelSide, hc, hf]
  · next hc => exact ⟨by simp [cancelSide, hc], by simp [due, cancelSide, hc], rfl, id, id⟩

end Functions

/-! ## Frames -/

/-- Frames that wait inside `OnStreamClose` and at the end of a connection. -/
def Frame.closes : Frame → Bool
  | .fireCancel | .closeErase => true
  | _ => false

/-- Frames that can wait above them. -/
def Frame.brief : Frame → Bool
  | .respondData _ | .respondTrailers | .pumpOutData _ | .consumedRest | .cancelOut => true
  | _ => false

theorem Frame.brief_closes {f : Frame} (h : f.brief = true) : f.closes = false := by
  cases f with
  | fireCancel | closeErase => cases h
  | _ => rfl

section Frames

variable {s : State}

theorem pumpOut_brief : ∀ g ∈ (pumpOut s).2, g.brief = true := by
  unfold pumpOut
  split
  · split
    · nofun
    · split
      · nofun
      · dsimp only
        split
        · simp [Frame.brief]
        · nofun
  · nofun

theorem writeMessage_brief (msg : Bytes) (cb : Option CbId) :
    ∀ g ∈ (writeMessage s msg cb).2, g.brief = true := by
  unfold writeMessage
  split
  · nofun
  · split
    · nofun
    · split
      · nofun
      · exact pumpOut_brief

theorem respond_brief (st : Status) (payload : Bytes) :
    ∀ g ∈ (respond s st payload).2, g.brief = true := by
  unfold respond
  split
  · split
    · nofun
    · dsimp only
      split
      · simp [Frame.brief]
      · nofun
  · nofun

theorem onConsumed_brief (cb : Option CbId) : ∀ g ∈ (onConsumed s cb).2, g.brief = true := by
  cases cb with
  | some cb => simp [onConsumed, Frame.brief]
  | none => simp [onConsumed, Frame.brief]

/-- An operation other than `OnCancel`. -/
theorem applyOp_leaves {o : Op} {s' : State} {gs : List Frame} (ho : ∀ cb, o ≠ .onCancel cb)
    (h : applyOp s o = some (s', gs)) : Leaves s s' ∧ ∀ g ∈ gs, g.brief = true := by
  cases o with
  | respond st payload =>
      simp only [applyOp] at h
      split at h
      · have hr := Option.some.inj h
        have hleaves := leaves_respond (s := s) st payload
        have hbrief := respond_brief (s := s) st payload
        rw [hr] at hleaves hbrief
        exact ⟨hleaves, hbrief⟩
      · cases h
        exact ⟨leaves_finish st, nofun⟩
      · cases h
  | readMessage cb =>
      simp only [applyOp] at h
      split at h
      · cases h
        exact ⟨leaves_readMessage _ cb, nofun⟩
      · cases h
  | writeMessage msg cb =>
      simp only [applyOp] at h
      split at h
      · have hr := Option.some.inj h
        have hleaves := leaves_writeMessage (s := s) msg cb
        have hbrief := writeMessage_brief (s := s) msg cb
        rw [hr] at hleaves hbrief
        exact ⟨hleaves, hbrief⟩
      · cases h
  | writeDone =>
      simp only [applyOp] at h
      split at h
      · cases h
        exact ⟨leaves_writeDone, nofun⟩
      · cases h
  | finish st =>
      simp only [applyOp] at h
      split at h
      · cases h
        exact ⟨leaves_finish st, nofun⟩
      · cases h
  | onCancel cb => exact absurd rfl (ho cb)

/-- How much there is to do before a frame of `OnStreamClose` gets its turn. -/
def Frame.cost : Frame → Nat
  | .respondData _ => 2
  | _ => 1

def backlog (s : State) : Nat := (s.call.map fun k => k.outQueue.length).getD 0

theorem backlog_maybeSendDeferredFinish : backlog (maybeSendDeferredFinish s) = backlog s := by
  unfold maybeSendDeferredFinish
  split
  · next k hc =>
      split
      · rfl
      · split
        · rfl
        · simp [backlog, State.setCall, State.sendTrailers, hc]
  · rfl

theorem exec_brief {f : Frame} (hf : f.brief = true) (s : State) :
    Leaves s (exec f s).1 ∧ (∀ g ∈ (exec f s).2, g.brief = true) ∧
      ((exec f s).2.map Frame.cost).sum + backlog (exec f s).1 < f.cost + backlog s := by
  cases f with
  | respondData framed =>
      refine ⟨leaves_sendData _ _, by simp [exec, Frame.brief], ?_⟩
      simp [exec, Frame.cost, backlog, State.sendData]
  | respondTrailers =>
      refine ⟨leaves_sendTrailers _, nofun, ?_⟩
      simp [exec, Frame.cost, backlog, State.sendTrailers]
  | pumpOutData out =>
      refine ⟨leaves_sendData _ _, nofun, ?_⟩
      simp [exec, Frame.cost, backlog, State.sendData]
  | consumedRest =>
      have hposted : Leaves s { s with posted := s.posted + 1 } := ⟨rfl, rfl, rfl, id, id⟩
      refine ⟨hposted.trans leaves_maybeSendDeferredFinish, nofun, ?_⟩
      have hload : backlog (maybeSendDeferredFinish { s with posted := s.posted + 1 }) = backlog s :=
        backlog_maybeSendDeferredFinish
      simp only [exec, List.map_nil, List.sum_nil, hload, Frame.cost]
      omega
  | cancelOut =>
      refine ⟨leaves_cancelOut, ?_⟩
      simp only [exec, cancelOut]
      split
      · next k hc =>
          split
          · simp [Frame.cost]
          · next out queue hq =>
              split
              · simp [Frame.brief, Frame.cost, backlog, State.setCall, State.note, hc, hq]
              · simp [Frame.brief, Frame.cost, backlog, State.setCall, hc, hq]
      · simp [Frame.cost]
  | _ => cases hf

end Frames

/-! ## Steps -/

namespace Life

/-- The records stay as they are. -/
def Kept (l l' : Life) : Prop := l'.registered = l.registered ∧ l'.cause = l.cause

/-- No frame, or one that does not close. -/
def Lone (gs : List Frame) : Prop := gs.length ≤ 1 ∧ ∀ g ∈ gs, g.closes = false

theorem Lone.nil : Lone [] := ⟨Nat.zero_le _, nofun⟩

theorem Lone.single {f : Frame} (h : f.closes = false) : Lone [f] := ⟨Nat.le_refl _, by simpa using h⟩

/-- What a step does to the callbacks. -/
inductive Turn (c d : Conf) : Label → Prop where
  | resumed {f : Frame} {fs gs : List Frame} : c.frames = f :: fs → d.frames = gs ++ fs →
      f.closes = false → (f.brief = true ∧ (∀ g ∈ gs, g.brief = true) ∨
        f.brief = false ∧ Lone gs) →
      Leaves c.st.st d.st.st → Kept c.st d.st → Turn c d .resume
  | fired {fs : List Frame} : c.frames = .fireCancel :: fs → d.frames = fs →
      FiresCancel c.st.st d.st.st → Kept c.st d.st → Turn c d .resume
  | erased {fs : List Frame} : c.frames = .closeErase :: fs → d.frames = fs →
      cancelSide d.st.st = none → ranOf d.st.st.log = ranOf c.st.st.log →
      (terminated c.st.st = true → terminated d.st.st = true) → Kept c.st d.st → Turn c d .resume
  | quiet {e : LifeEvent} {gs : List Frame} : d.frames = gs ++ c.frames →
      (∀ g ∈ gs, g.brief = true) ∨ c.frames = [] ∧ Lone gs →
      Leaves c.st.st d.st.st → Kept c.st d.st → Turn c d (.event e)
  | created {e : LifeEvent} : c.frames = [] → Lone d.frames → cancelSide c.st.st = none →
      cancelSide d.st.st = some (false, []) → ranOf d.st.st.log = ranOf c.st.st.log →
      d.st.st.h2.closed = false → d.st.st.opened = true →
      (terminated c.st.st = true → terminated d.st.st = true) → Kept c.st d.st → Turn c d (.event e)
  | taken {cb : CbId} {cbs : List CbId} : d.frames = c.frames →
      cancelSide c.st.st = some (false, cbs) → cancelSide d.st.st = some (false, cbs ++ [cb]) →
      ranOf d.st.st.log = ranOf c.st.st.log → d.st.st.h2 = c.st.st.h2 →
      d.st.st.opened = c.st.st.opened → d.st.registered = c.st.registered ++ [cb] →
      d.st.cause = c.st.cause → Turn c d (.event (.conn (.op (.onCancel cb))))
  | ended {e : LifeEvent} {gs : List Frame} : e.cancels = true → d.frames = gs ++ c.frames →
      (gs = [] ∧ cancelSide c.st.st = none ∨
        gs.find? Frame.closes = some .fireCancel ∧ ∀ g ∈ gs, g.brief = true ∨ g.closes = true) →
      cancelSide d.st.st = cancelSide c.st.st → ranOf d.st.st.log = ranOf c.st.st.log →
      (c.st.st.opened = true → d.st.st.opened = true) →
      (terminated c.st.st = true → terminated d.st.st = true) → d.st.registered = c.st.registered →
      d.st.cause = (c.st.cause || !terminated c.st.st) → Turn c d (.event e)
  | cancelled {e : LifeEvent} : e.cancels = true → c.frames = [] → d.frames.length ≤ 1 →
      .fireCancel ∉ d.frames → FiresCancel c.st.st d.st.st → d.st.registered = c.st.registered →
      d.st.cause = (c.st.cause || !terminated c.st.st) → Turn c d (.event e)

theorem onDataRest_lone (s : State) (e : Bool) : Lone (onDataRest s e).2 := by
  unfold onDataRest
  split
  · exact .nil
  · split
    · dsimp only
      split
      · split
        · exact .nil
        · exact .single rfl
      · exact .single rfl
    · exact .nil

theorem turn_resume {cfg : Config} {c d : Conf} (h : (machine cfg).step c .resume = some d) :
    Turn c d .resume := by
  obtain ⟨f, fs, hf, rfl⟩ := Resume.System.step_resume h
  have hbrief : f.brief = true → Turn c ⟨(exec f c.st).1, (exec f c.st).2 ++ fs⟩ .resume := by
    intro hb
    obtain ⟨hleaves, hgs, -⟩ := exec_brief hb c.st.st
    exact .resumed hf rfl (Frame.brief_closes hb) (.inl ⟨hb, hgs⟩) hleaves ⟨rfl, rfl⟩
  cases f with
  | respondData | respondTrailers | pumpOutData | consumedRest | cancelOut => exact hbrief rfl
  | onHeadersRest e =>
      refine .resumed hf rfl rfl (.inr ⟨rfl, .nil⟩) ?_ ⟨rfl, rfl⟩
      cases e with
      | true => exact leaves_finishRequest
      | false => exact .refl _
  | onDataRest e =>
      exact .resumed hf rfl rfl (.inr ⟨rfl, onDataRest_lone c.st.st e⟩) (leaves_onDataRest e)
        ⟨rfl, rfl⟩
  | onDeadlineRest =>
      exact .resumed hf rfl rfl (.inr ⟨rfl, .nil⟩) leaves_onDeadlineRest ⟨rfl, rfl⟩
  | fireCancel => exact .fired hf rfl fires_fireCancel ⟨rfl, rfl⟩
  | closeErase =>
      cases hc : c.st.st.call with
      | none =>
          have hsame : closeErase c.st.st = c.st.st := by simp [closeErase, hc]
          refine .erased hf rfl ?_ ?_ ?_ ⟨rfl, rfl⟩ <;>
            simp [machine, Life.exec, Server.exec, hsame, cancelSide, hc]
      | some k =>
          refine .erased hf rfl ?_ ?_ ?_ ⟨rfl, rfl⟩ <;>
            simp [machine, Life.exec, Server.exec, closeErase, cancelSide, terminated, hc]

theorem onHeadersComplete_lone (cfg : Config) (s : State) (fields : HeaderMap) (e : Bool) :
    Lone (onHeadersComplete cfg s fields e).2 := by
  unfold onHeadersComplete
  split
  · split
    · exact .nil
    · exact .single rfl
  · exact .nil

theorem onData_lone (s : State) (chunk : Bytes) (e : Bool) : Lone (onData s chunk e).2 := by
  unfold onData
  split
  · exact .nil
  · split
    · exact .nil
    · generalize (if chunk.isEmpty then _ else _) = r
      dsimp only
      split
      · exact .nil
      · exact .single rfl

/-- An event of the connection that neither cancels nor registers. -/
theorem turn_quiet {cfg : Config} {c : Conf} {e : Event} {s' : State} {gs : List Frame}
    (hbase : Server.anytime e = false → c.frames = []) (hc : e.cancels = false)
    (hop : ∀ cb, e ≠ .op (.onCancel cb))
    (h : Server.fire cfg e c.st.st = some (s', gs)) :
    Turn c ⟨{ c.st with
      st := s'
      registered := c.st.registered ++ registers c.st.st e
      cause := c.st.cause || e.cancels && !terminated c.st.st }, gs ++ c.frames⟩ (.event (.conn e)) := by
  have hkept : Kept c.st { c.st with
      st := s'
      registered := c.st.registered ++ registers c.st.st e
      cause := c.st.cause || e.cancels && !terminated c.st.st } := by
    simp [Kept, registers_other hop, hc]
  cases e with
  | headers fields endStream =>
      simp only [Server.fire] at h
      split at h
      · cases h
      · next hopen =>
          have hr := Option.some.inj h
          have hlone := onHeadersComplete_lone cfg { c.st.st with opened := true } fields endStream
          rw [hr] at hlone
          have hopened : Leaves c.st.st { c.st.st with opened := true } :=
            ⟨rfl, rfl, rfl, fun _ => rfl, id⟩
          have hleaves := leaves_onHeadersComplete (s := { c.st.st with opened := true }) cfg fields
            endStream
          rw [hr] at hleaves
          rcases hleaves with hl | ⟨hnone, k, hk, hl⟩
          · exact .quiet rfl (.inr ⟨hbase rfl, hlone⟩) (hopened.trans hl) hkept
          · refine .created (hbase rfl) ?_ ?_ ?_ hl.ran ?_ (hl.opened rfl) hl.terminated hkept
            · rw [hbase rfl, List.append_nil]
              exact hlone
            · exact congrArg _ hnone
            · exact hl.side.trans (congrArg some hk)
            · exact hl.closed.trans (Bool.eq_false_of_not_eq_true hopen)
  | data chunk endStream =>
      simp only [Server.fire] at h
      split at h
      · have hr := Option.some.inj h
        have hleaves := leaves_onData (s := c.st.st) chunk endStream
        have hlone := onData_lone c.st.st chunk endStream
        rw [hr] at hleaves hlone
        exact .quiet rfl (.inr ⟨hbase rfl, hlone⟩) hleaves hkept
      · cases h
  | pump =>
      simp only [Server.fire] at h
      split at h
      · have hr := Option.some.inj h
        have hposted : Leaves c.st.st { c.st.st with posted := c.st.st.posted - 1 } :=
          ⟨rfl, rfl, rfl, id, id⟩
        have hleaves := leaves_pumpOut (s := { c.st.st with posted := c.st.st.posted - 1 })
        have hbrief := pumpOut_brief (s := { c.st.st with posted := c.st.st.posted - 1 })
        rw [hr] at hleaves hbrief
        exact .quiet rfl (.inl hbrief) (hposted.trans hleaves) hkept
      · cases h
  | credit n =>
      simp only [Server.fire] at h
      split at h
      · cases h
      · cases h
        exact .quiet rfl (.inl nofun) (leaves_h2 (by simp) (by simp)) hkept
  | consumed =>
      simp only [Server.fire] at h
      split at h
      · cases h
      · next cb notes hn =>
          have hr := Option.some.inj h
          have hnotes : Leaves c.st.st { c.st.st with h2 := { c.st.st.h2 with notes } } :=
            ⟨rfl, rfl, rfl, id, id⟩
          have hleaves := leaves_onConsumed
            (s := { c.st.st with h2 := { c.st.st.h2 with notes } }) cb
          have hbrief := onConsumed_brief
            (s := { c.st.st with h2 := { c.st.st.h2 with notes } }) cb
          rw [hr] at hleaves hbrief
          exact .quiet rfl (.inl hbrief) (hnotes.trans hleaves) hkept
  | op o =>
      obtain ⟨hleaves, hbrief⟩ := applyOp_leaves (fun cb heq => hop cb (by rw [heq])) h
      exact .quiet rfl (.inl hbrief) hleaves hkept
  | deadline | streamClose | connectionLost => cases hc

/-- The deadline, the end of the stream, the loss of the connection. -/
theorem turn_cancels {cfg : Config} {c : Conf} {e : Event} {s' : State} {gs : List Frame}
    (hbase : Server.anytime e = false → c.frames = []) (hc : e.cancels = true)
    (h : Server.fire cfg e c.st.st = some (s', gs)) :
    Turn c ⟨{ c.st with
      st := s'
      registered := c.st.registered ++ registers c.st.st e
      cause := c.st.cause || e.cancels && !terminated c.st.st }, gs ++ c.frames⟩ (.event (.conn e)) := by
  have hreg : c.st.registered ++ registers c.st.st e = c.st.registered := by
    rw [registers_other, List.append_nil]
    rintro cb rfl
    cases hc
  have hcause : (c.st.cause || e.cancels && !terminated c.st.st) = (c.st.cause || !terminated c.st.st) := by
    rw [hc, Bool.true_and]
  cases e with
  | deadline t =>
      simp only [Server.fire] at h
      split at h
      · have hfires := fires_fireCancel (s := { c.st.st with timers := c.st.st.timers.erase t })
        split at h
        · cases h
          refine .cancelled hc (hbase rfl) ?_ ?_ ⟨hfires.side, hfires.ran, hfires.closed,
            hfires.opened, hfires.terminated⟩ hreg hcause <;> simp [hbase rfl]
        · next hnone =>
            cases h
            have hnone : c.st.st.call = none := by simpa using hnone
            refine .ended hc rfl (.inl ⟨rfl, congrArg _ hnone⟩) rfl rfl id id hreg hcause
      · cases h
  | streamClose =>
      simp only [Server.fire] at h
      split at h
      · split at h
        · cases h
          have hleaves := leaves_cancelStreamIo (s := { c.st.st with h2 := c.st.st.h2.close })
          exact .ended hc rfl (.inr ⟨rfl, by simp [Frame.brief, Frame.closes]⟩) hleaves.side
            hleaves.ran hleaves.opened hleaves.terminated hreg hcause
        · next hnone =>
            cases h
            have hnone : c.st.st.call = none := by simpa using hnone
            exact .ended hc rfl (.inl ⟨rfl, congrArg _ hnone⟩) rfl rfl id id hreg hcause
      · cases h
  | connectionLost =>
      simp only [Server.fire] at h
      split at h
      · cases h
      · cases h
        have hleaves := leaves_cancelStreamIo (s := { c.st.st with connClosed := true })
        exact .ended hc rfl (.inr ⟨rfl, by simp [Frame.brief, Frame.closes]⟩) hleaves.side
          hleaves.ran hleaves.opened hleaves.terminated hreg hcause
  | _ => cases hc

theorem turn_onCancel {cfg : Config} {c : Conf} {cb : CbId} {s' : State} {gs : List Frame}
    (h : Server.fire cfg (.op (.onCancel cb)) c.st.st = some (s', gs)) :
    Turn c ⟨{ c.st with
      st := s'
      registered := c.st.registered ++ registers c.st.st (.op (.onCancel cb))
      cause := c.st.cause || Event.cancels (.op (.onCancel cb)) && !terminated c.st.st },
        gs ++ c.frames⟩ (.event (.conn (.op (.onCancel cb)))) := by
  simp only [Server.fire, applyOp] at h
  split at h
  · cases h
    cases htaken : onCancelTaken c.st.st with
    | false =>
        refine .quiet rfl (.inl nofun) ?_ (by simp [Kept, registers, htaken, Event.cancels])
        change Leaves c.st.st (onCancel c.st.st cb)
        rw [onCancel_refused htaken cb]
        exact .refl _
    | true =>
        obtain ⟨cbs, hside⟩ := onCancelTaken_iff.mp htaken
        obtain ⟨hlog, hh2, hopened⟩ := onCancel_rest c.st.st cb
        refine .taken rfl hside (onCancel_side hside cb) (congrArg ranOf hlog) hh2 hopened ?_ ?_
        · simp [registers, htaken]
        · simp [Event.cancels]
  · cases h

theorem turn_step {cfg : Config} {c d : Conf} {l : Label} (h : (machine cfg).step c l = some d) :
    Turn c d l := by
  cases l with
  | resume => exact turn_resume h
  | event e =>
      obtain ⟨hen, l', gs, hfire, rfl⟩ := Resume.System.step_event h
      have hbase : Life.anytime e = false → c.frames = [] := fun ha =>
        (Resume.System.enabled_base ha hen).1
      cases e with
      | forceClose =>
          have hfire : Life.fire cfg .forceClose c.st = some (l', gs) := hfire
          simp only [Life.fire] at hfire
          split at hfire
          · cases hfire
          · cases hfire
            have hfires := fires_fireCancel (s := { c.st.st with connClosed := true })
            refine .cancelled rfl (hbase rfl) ?_ ?_ ⟨hfires.side, hfires.ran, hfires.closed,
              hfires.opened, hfires.terminated⟩ rfl rfl <;> simp [hbase rfl]
      | conn e =>
          have hfire : Life.fire cfg (.conn e) c.st = some (l', gs) := hfire
          simp only [Life.fire] at hfire
          split at hfire
          · cases hfire
          · obtain ⟨⟨s', gs'⟩, hr, heq⟩ := Option.map_eq_some_iff.mp hfire
            cases heq
            by_cases hop : ∃ cb, e = .op (.onCancel cb)
            · obtain ⟨cb, rfl⟩ := hop
              exact turn_onCancel hr
            · cases hc : e.cancels with
              | true => exact hc ▸ turn_cancels hbase hc hr
              | false => exact hc ▸ turn_quiet hbase hc (fun cb heq => hop ⟨cb, heq⟩) hr

end Life

end Urpc.Server
