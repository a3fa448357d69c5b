/-
  Where the callbacks of a server stream are.

  A callback given to `ReadMessage` waits in `read_cb`. One given to `WriteMessage` waits in
  `out_queue`, in the rest of `PumpOut`, in a body of the session or in its notification queue.
  `balance t` counts the callback `t` in all these places, and the times it has been called.

  Proved: `balance_step`: a step keeps the balance, except that `ReadMessage` and
  `WriteMessage` add their callback (`issues`) and `OnStreamClose` drops what the call still
  holds when it erases it.
-/
import Urpc.Server.Stream

namespace Urpc.Server

open Cxx

/-- A callback of a streaming call. -/
inductive Token where
  | read (cb : CbId)
  | write (cb : CbId)
  deriving DecidableEq

def Obs.token : Obs → Option Token
  | .read cb .. => some (.read cb)
  | .wrote cb _ => some (.write cb)
  | .unary _ | .stream _ | .cancelled _ => none

/-- The callbacks called, in order. -/
def told (log : List Obs) : List Token := log.filterMap Obs.token

def writeToken (cb : Option CbId) : List Token := (cb.map .write).toList

def queueTokens (queue : List OutMsg) : List Token := queue.flatMap fun out => writeToken out.cb

/-- The callbacks that the fields of a call hold. -/
def Call.held (k : Call) : List Token := (k.readCb.map .read).toList ++ queueTokens k.outQueue

def Frame.held : Frame → List Token
  | .pumpOutData out => writeToken out.cb
  | _ => []

/-- How often a notification of the session holds `t`. -/
def noteWeight (t : Token) (note : Option CbId) : Nat := (writeToken note).count t

def balance (t : Token) (s : State) (fs : List Frame) : Nat :=
  (told s.log).count t + (s.call.toList.flatMap Call.held).count t +
    (fs.flatMap Frame.held).count t + s.h2.carried (noteWeight t)

/-- The callback that an event hands over. -/
def Event.issues : Event → List Token
  | .op (.readMessage cb) => [.read cb]
  | .op (.writeMessage _ cb) => writeToken cb
  | _ => []

theorem count_read_queueTokens (cb : CbId) (queue : List OutMsg) :
    (queueTokens queue).count (.read cb) = 0 := by
  rw [List.count_eq_zero]
  simp [queueTokens, writeToken]

section Functions

variable {t : Token} {s : State} {fs : List Frame}

/-! ## Updates -/

theorem balance_append (gs : List Frame) :
    balance t s (gs ++ fs) = balance t s gs + (fs.flatMap Frame.held).count t := by
  simp only [balance, List.flatMap_append, List.count_append]
  omega

theorem balance_cons {f : Frame} (h : f.held = []) : balance t s (f :: fs) = balance t s fs := by
  simp [balance, h]

theorem balance_pumpOutData (out : OutMsg) :
    balance t s (.pumpOutData out :: fs) = balance t s fs + noteWeight t out.cb := by
  simp only [balance, List.flatMap_cons, Frame.held, List.count_append, noteWeight]
  omega

@[simp] theorem balance_note (o : Obs) :
    balance t (s.note o) fs = balance t s fs + o.token.toList.count t := by
  have : told (s.log ++ [o]) = told s.log ++ o.token.toList := by
    cases ho : o.token <;> simp [told, ho]
  simp only [balance, State.note, this, List.count_append]
  omega

/-- A new call takes the place of the old one. -/
theorem balance_call (t : Token) (fs : List Frame) {k : Call} (k' : Call) (hc : s.call = some k) :
    balance t (s.setCall k') fs + k.held.count t = balance t s fs + k'.held.count t := by
  simp only [balance, State.setCall, hc, Option.toList_some, List.flatMap_cons, List.flatMap_nil,
    List.append_nil]
  omega

theorem balance_setCall {k k' : Call} (hc : s.call = some k) (hk : k'.held = k.held) :
    balance t (s.setCall k') fs = balance t s fs := by
  have := balance_call t fs k' hc
  rw [hk] at this
  omega

@[simp] theorem balance_sendHeaders (fields : HeaderMap) (e : Bool) :
    balance t (s.sendHeaders fields e) fs = balance t s fs := by
  simp [balance, State.sendHeaders]

@[simp] theorem balance_sendTrailers (fields : HeaderMap) :
    balance t (s.sendTrailers fields) fs = balance t s fs := by
  simp [balance, State.sendTrailers]

@[simp] theorem balance_sendData (data : Bytes) (n : Option (Option CbId)) :
    balance t (s.sendData data n) fs = balance t s fs + (n.toList.map (noteWeight t)).sum := by
  simp only [balance, State.sendData, Sender.sendData_carried]
  omega

/-! ## Terminal blocks -/

theorem balance_stopDeadline {k k' : Call} (hc : s.call = some k) (hk : k'.held = k.held) :
    balance t (stopDeadline s k') fs = balance t s fs :=
  balance_setCall (s := { s with
    timers := if k'.deadlineTimer ≠ 0 then s.timers.erase k'.deadlineTimer else s.timers }) hc hk

@[simp] theorem balance_trailersOnly (st : Status) :
    balance t (trailersOnly s st) fs = balance t s fs := by
  unfold trailersOnly sendTrailersOnly
  split
  · next k hc =>
      split
      · rfl
      · rw [balance_sendHeaders]
        exact balance_stopDeadline hc rfl
  · exact balance_sendHeaders _ _

@[simp] theorem balance_respondError (st : Status) :
    balance t (respondError s st) fs = balance t s fs := by
  unfold respondError
  split
  · next k hc =>
      split
      · rfl
      · rw [balance_trailersOnly]
        exact balance_stopDeadline hc rfl
  · rfl

@[simp] theorem balance_finishStream (st : Status) :
    balance t (finishStream s st) fs = balance t s fs := by
  unfold finishStream sendTrailersOnly
  split
  · next k hc =>
      split
      · rfl
      · have hstop : ∀ k' : Call, k'.held = k.held →
            balance t (stopDeadline s k') fs = balance t s fs := fun _ => balance_stopDeadline hc
        dsimp only
        split
        · refine (balance_setCall rfl ?_).trans (hstop _ rfl)
          rfl
        · split
          · rw [balance_sendHeaders]
            exact hstop _ rfl
          · rw [balance_sendTrailers]
            exact hstop _ rfl
  · rfl

@[simp] theorem balance_maybeSendDeferredFinish :
    balance t (maybeSendDeferredFinish s) fs = balance t s fs := by
  unfold maybeSendDeferredFinish
  split
  · next k hc =>
      split
      · rfl
      · split
        · rfl
        · rw [balance_sendTrailers]
          exact balance_setCall hc rfl
  · rfl

@[simp] theorem balance_onDeadlineRest : balance t (onDeadlineRest s) fs = balance t s fs := by
  unfold onDeadlineRest sendTrailersOnly
  split
  · next k hc =>
      split
      · rfl
      · dsimp only
        split
        · rw [balance_sendTrailers]
          exact balance_setCall hc rfl
        · rw [balance_sendHeaders]
          exact balance_setCall hc rfl
  · rfl

/-! ## Responses -/

theorem balance_pumpOut : balance t (pumpOut s).1 (pumpOut s).2 = balance t s [] := by
  unfold pumpOut
  split
  · next k hc =>
      split
      · rfl
      · next out queue hq =>
          split
          · rfl
          · have hpop : ∀ k' : Call, k'.readCb = k.readCb → k'.outQueue = queue →
                balance t (s.setCall k') [] + noteWeight t out.cb = balance t s [] := by
              intro k' hr hq'
              have := balance_call t [] k' hc
              simp only [Call.held, hr, hq, hq', queueTokens, List.flatMap_cons, List.count_append] at this
              simp only [noteWeight]
              omega
            dsimp only
            split
            · rw [balance_pumpOutData, balance_sendHeaders]
              exact hpop { k with
                outQueue := queue, outInflight := true, responseHeadersSent := true } rfl rfl
            · rw [balance_sendData]
              exact hpop { k with outQueue := queue, outInflight := true } rfl rfl
  · rfl

theorem balance_onConsumed (cb : Option CbId) :
    balance t (onConsumed s cb).1 (onConsumed s cb).2 = balance t s [] + noteWeight t cb := by
  unfold onConsumed
  cases hc : s.call with
  | none =>
      cases cb with
      | none => rfl
      | some cb => exact balance_note _
  | some k =>
      have hset : balance t (s.setCall { k with outInflight := false }) [] = balance t s [] :=
        balance_setCall hc rfl
      cases cb with
      | none => exact hset
      | some cb => exact (balance_note _).trans (congrArg (· + _) hset)

theorem balance_respond (st : Status) (payload : Bytes) :
    balance t (respond s st payload).1 (respond s st payload).2 = balance t s [] := by
  unfold respond sendTrailersOnly
  split
  · next k hc =>
      split
      · rfl
      · have hstop : balance t (stopDeadline s { k with responded := true }) [] = balance t s [] :=
          balance_stopDeadline hc rfl
        dsimp only
        split
        · rw [balance_cons rfl, balance_sendHeaders]
          exact hstop
        · rw [balance_sendHeaders]
          exact hstop
  · rfl

/-! ## Dispatch and reads -/

@[simp] theorem balance_dispatchStream (first : Option Bytes) :
    balance t (dispatchStream s first) fs = balance t s fs := by
  unfold dispatchStream
  split
  · next k hc =>
      split
      · rfl
      · rw [balance_note]
        exact balance_setCall hc rfl
  · rfl

/-- The armed read is called. -/
theorem balance_readCb {k k' : Call} {cb : CbId} (hc : s.call = some k) (hr : k.readCb = some cb)
    (hr' : k'.readCb = none) (hq : k'.outQueue = k.outQueue) (st : Status) (eos : Bool)
    (msg : Bytes) : balance t ((s.setCall k').note (.read cb st eos msg)) fs = balance t s fs := by
  have := balance_call t fs k' hc
  simp only [Call.held, hr, hr', hq, List.count_append, Option.map_some, Option.map_none,
    Option.toList_some, Option.toList_none, List.count_nil] at this
  simp only [balance_note, Obs.token, Option.toList_some]
  omega

@[simp] theorem balance_deliverRead (st : Status) (eos : Bool) (msg : Bytes) :
    balance t (deliverRead s st eos msg) fs = balance t s fs := by
  unfold deliverRead
  split
  · next k hc =>
      split
      · rfl
      · split
        · split
          · next cb hr => refine balance_readCb hc hr ?_ ?_ _ _ _ <;> rfl
          · exact balance_setCall hc rfl
        · split
          · next cb hr => refine balance_readCb hc hr ?_ ?_ _ _ _ <;> rfl
          · split
            · exact balance_finishStream _
            · exact balance_setCall hc rfl
  · rfl

@[simp] theorem balance_finishRequest : balance t (finishRequest s) fs = balance t s fs := by
  unfold finishRequest
  split
  · rfl
  · next k hc =>
      have hset : ∀ k' : Call, k'.held = k.held →
          balance t (s.setCall k') fs = balance t s fs := fun _ => balance_setCall hc
      split
      · rfl
      · dsimp only
        split
        · rw [balance_trailersOnly]
          exact hset _ rfl
        · split
          · split
            · rw [balance_trailersOnly]
              exact hset _ rfl
            · split
              · rw [balance_trailersOnly]
                exact hset _ rfl
              · rw [balance_note]
                exact hset _ rfl
          · split
            · split
              · rw [balance_trailersOnly]
                exact hset _ rfl
              · rw [balance_dispatchStream]
                exact hset _ rfl
            · rw [balance_deliverRead]
              exact hset _ rfl
          · split
            · rw [balance_trailersOnly]
              exact hset _ rfl
            · rw [balance_deliverRead]
              exact hset _ rfl

/-! ## Transport events -/

theorem balance_routedCall (cfg : Config) (path : Bytes) :
    balance t (s.setCall (routedCall cfg s path)) fs = balance t s fs := by
  have hheld : (routedCall cfg s path).held = s.call.toList.flatMap Call.held := by
    unfold routedCall
    cases s.call with
    | none => cases cfg.router path <;> rfl
    | some k => cases cfg.router path <;> simp [Call.held]
  simp only [balance, State.setCall, Option.toList_some, List.flatMap_cons, List.flatMap_nil,
    List.append_nil, hheld]

theorem balance_armDeadline (k : Call) (headers : HeaderMap) :
    balance t (armDeadline s k headers) fs = balance t (s.setCall k) fs := by
  unfold armDeadline
  dsimp only
  split <;> rfl

theorem balance_onHeadersComplete (cfg : Config) (headers : HeaderMap) (e : Bool) :
    balance t (onHeadersComplete cfg s headers e).1 (onHeadersComplete cfg s headers e).2 =
      balance t s [] := by
  unfold onHeadersComplete
  split
  · split
    · exact balance_trailersOnly _
    · dsimp only
      rw [balance_cons rfl]
      split
      · rw [balance_dispatchStream, balance_armDeadline, balance_routedCall]
      · rw [balance_armDeadline, balance_routedCall]
  · exact balance_trailersOnly _

theorem balance_onData (chunk : Bytes) (e : Bool) :
    balance t (onData s chunk e).1 (onData s chunk e).2 = balance t s [] := by
  unfold onData
  split
  · rfl
  · next k hc =>
      split
      · rfl
      · have hset : ∀ (decoder : FrameDecoder) (recv : Bytes),
            balance t { s.setCall { k with decoder } with recv } [] = balance t s [] :=
          fun _ _ => balance_setCall (s := s) hc rfl
        generalize (if chunk.isEmpty then (Status.okay, k.decoder) else k.decoder.consume chunk) = r
        dsimp only
        split
        · rw [balance_respondError]
          exact hset _ _
        · rw [balance_cons rfl]
          exact hset _ _

theorem balance_onDataRest (e : Bool) :
    balance t (onDataRest s e).1 (onDataRest s e).2 = balance t s [] := by
  unfold onDataRest
  split
  · rfl
  · next k hc =>
      split
      · have hset : ∀ decoder : FrameDecoder,
            balance t (s.setCall { k with decoder }) [] = balance t s [] :=
          fun _ => balance_setCall hc rfl
        dsimp only
        split
        · split
          · rw [balance_finishStream]
            exact hset _
          · rw [balance_cons rfl, balance_dispatchStream]
            exact hset _
        · rw [balance_cons rfl, balance_deliverRead]
          exact hset _
      · dsimp only
        split
        · exact balance_finishRequest
        · rfl

@[simp] theorem balance_fireCancel : balance t (fireCancel s) fs = balance t s fs := by
  unfold fireCancel
  split
  · next k hc =>
      split
      · rfl
      · have hlog : told (s.log ++ k.cancelCbs.map .cancelled) = told s.log := by
          simp [told, Obs.token]
        simp only [balance, hlog, hc, Option.toList_some, List.flatMap_cons, List.flatMap_nil]
        rfl
  · rfl

@[simp] theorem balance_cancelStreamIo : balance t (cancelStreamIo s) fs = balance t s fs := by
  unfold cancelStreamIo
  split
  · next k hc =>
      split
      · next cb hr => refine balance_readCb hc hr ?_ ?_ _ _ _ <;> rfl
      · exact balance_setCall hc rfl
  · rfl

theorem balance_cancelOut : balance t (cancelOut s).1 (cancelOut s).2 = balance t s [] := by
  unfold cancelOut
  split
  · next k hc =>
      split
      · rfl
      · next out queue hq =>
          have := balance_call t [] { k with outQueue := queue } hc
          simp only [Call.held, hq, queueTokens, List.flatMap_cons, List.count_append] at this
          dsimp only
          split
          · next cb hcb =>
              rw [balance_cons rfl, balance_note]
              simp only [hcb, writeToken, Option.map_some, Option.toList_some] at this
              simp only [Obs.token, Option.toList_some]
              omega
          · next hcb =>
              simp only [hcb, writeToken, Option.map_none, Option.toList_none, List.count_nil] at this
              rw [balance_cons rfl]
              dsimp only
              omega
  · rfl

/-- The call's erasure drops what it holds. -/
theorem balance_closeErase : balance t (closeErase s) fs +
    (s.call.toList.flatMap Call.held).count t = balance t s fs := by
  unfold closeErase
  split
  · next k hc =>
      simp only [balance, hc, Option.toList_none, List.flatMap_nil, List.count_nil]
      omega
  · next hc => simp [hc]

/-! ## Handler operations -/

@[simp] theorem balance_tellWriter (cb : Option CbId) (st : Status) :
    balance t (tellWriter s cb st) fs = balance t s fs + (writeToken cb).count t := by
  cases cb with
  | none => rfl
  | some cb => exact balance_note _

theorem balance_readMessage (first : Option Bytes) (cb : CbId) :
    balance t (readMessage s first cb) fs = balance t s fs + [Token.read cb].count t := by
  unfold readMessage
  split
  · exact balance_note _
  · next k hc =>
      split
      · exact balance_note _
      · split
        · exact balance_note _
        · split
          · rw [balance_note]
            exact congrArg (· + _) (balance_setCall hc rfl)
          · split
            · rw [balance_note]
              exact congrArg (· + _) (balance_setCall hc rfl)
            · split
              · exact balance_note _
              · next hr =>
                  have hr : k.readCb = none := by simpa using hr
                  have := balance_call t fs { k with readCb := some cb } hc
                  simp only [Call.held, hr, List.count_append, Option.map_some, Option.map_none,
                    Option.toList_some, Option.toList_none, List.count_nil] at this
                  omega

theorem balance_writeMessage (msg : Bytes) (cb : Option CbId) :
    balance t (writeMessage s msg cb).1 (writeMessage s msg cb).2 =
      balance t s [] + (writeToken cb).count t := by
  unfold writeMessage
  split
  · exact balance_tellWriter _ _
  · next k hc =>
      split
      · exact balance_tellWriter _ _
      · split
        · exact balance_tellWriter _ _
        · rw [balance_pumpOut]
          have := balance_call t [] { k with outQueue := k.outQueue ++ [⟨encodeFrame msg, cb⟩] } hc
          simp only [Call.held, queueTokens, List.flatMap_append, List.flatMap_cons,
            List.flatMap_nil, List.append_nil, List.count_append] at this
          have hset : ∀ s : State, balance t { s with accepted := s.accepted ++ [msg] } [] =
            balance t s [] := fun _ => rfl
          refine (hset _).trans ?_
          omega

@[simp] theorem balance_writeDone : balance t (writeDone s) fs = balance t s fs := by
  unfold writeDone
  split
  · next k hc => exact balance_setCall hc rfl
  · rfl

@[simp] theorem balance_onCancel (cb : CbId) : balance t (onCancel s cb) fs = balance t s fs := by
  unfold onCancel
  split
  · next k hc =>
      split
      · rfl
      · exact balance_setCall hc rfl
  · rfl

theorem balance_applyOp {o : Op} {r : State × List Frame} (h : applyOp s o = some r) :
    balance t r.1 r.2 = balance t s [] + (Event.op o).issues.count t := by
  cases o with
  | respond st payload =>
      simp only [applyOp] at h
      split at h <;> cases h
      · exact balance_respond st payload
      · exact balance_finishStream _
  | readMessage cb =>
      simp only [applyOp] at h
      split at h <;> cases h
      exact balance_readMessage _ cb
  | writeMessage msg cb =>
      simp only [applyOp] at h
      split at h <;> cases h
      exact balance_writeMessage msg cb
  | writeDone =>
      simp only [applyOp] at h
      split at h <;> cases h
      exact balance_writeDone
  | finish st =>
      simp only [applyOp] at h
      split at h <;> cases h
      exact balance_finishStream _
  | onCancel cb =>
      simp only [applyOp] at h
      split at h <;> cases h
      exact balance_onCancel cb

/-! ## Steps -/

/-- A frame keeps the balance, except for what the call holds when it is erased. -/
theorem balance_exec (f : Frame)
    (h : f = .closeErase → (s.call.toList.flatMap Call.held).count t = 0) :
    balance t (exec f s).1 (exec f s).2 = balance t s [f] := by
  cases f with
  | onHeadersRest e =>
      rw [balance_cons rfl]
      simp only [exec]
      split
      · exact balance_finishRequest
      · rfl
  | onDataRest e => exact (balance_onDataRest e).trans (balance_cons rfl).symm
  | respondData framed => exact balance_sendData framed none
  | respondTrailers => exact balance_sendTrailers _
  | onDeadlineRest => exact balance_onDeadlineRest
  | pumpOutData out =>
      exact (balance_sendData out.framed (some out.cb)).trans (balance_pumpOutData out).symm
  | consumedRest => exact balance_maybeSendDeferredFinish
  | cancelOut => exact balance_cancelOut
  | fireCancel => exact balance_fireCancel
  | closeErase =>
      have : balance t (closeErase s) [] + (s.call.toList.flatMap Call.held).count t = balance t s [] :=
        balance_closeErase
      rw [h rfl] at this
      exact this

theorem balance_fire {cfg : Config} {e : Event} {r : State × List Frame}
    (h : fire cfg e s = some r) : balance t r.1 r.2 = balance t s [] + e.issues.count t := by
  cases e with
  | headers fields e =>
      simp only [fire] at h
      split at h <;> cases h
      exact balance_onHeadersComplete cfg fields e
  | data chunk e =>
      simp only [fire] at h
      split at h <;> cases h
      exact balance_onData chunk e
  | deadline timer =>
      simp only [fire] at h
      split at h
      · split at h <;> cases h
        · exact balance_fireCancel
        · rfl
      · cases h
  | pump =>
      simp only [fire] at h
      split at h <;> cases h
      exact balance_pumpOut
  | connectionLost =>
      simp only [fire] at h
      split at h <;> cases h
      exact balance_cancelStreamIo
  | streamClose =>
      have hclose : balance t { s with h2 := s.h2.close } [] = balance t s [] := by
        simp [balance]
      simp only [fire] at h
      split at h
      · split at h <;> cases h
        · exact balance_cancelStreamIo.trans hclose
        · exact hclose
      · cases h
  | credit n =>
      simp only [fire] at h
      split at h <;> cases h
      simp [balance, Event.issues]
  | consumed =>
      simp only [fire] at h
      split at h
      · cases h
      · next cb notes hn =>
          cases h
          rw [balance_onConsumed]
          simp only [balance, Sender.carried, hn, List.map_cons, List.sum_cons, Event.issues,
            List.count_nil]
          omega
  | op o => exact balance_applyOp h

end Functions

/-- What a step hands over. -/
def issues : Label → List Token
  | .event e => e.issues
  | .resume => []

theorem balance_step {cfg : Config} {t : Token} {c d : Conf} {l : Label}
    (hs : (machine cfg).step c l = some d)
    (herase : ∀ fs, l = .resume → c.frames = .closeErase :: fs →
      (c.st.call.toList.flatMap Call.held).count t = 0) :
    balance t d.st d.frames = balance t c.st c.frames + (issues l).count t := by
  cases l with
  | resume =>
      obtain ⟨f, fs, hf, rfl⟩ := Resume.System.step_resume hs
      change balance t (exec f c.st).1 ((exec f c.st).2 ++ fs) = _
      rw [balance_append, balance_exec f fun he => herase fs rfl (he ▸ hf), hf, ← balance_append]
      rfl
  | event e =>
      obtain ⟨-, s, gs, hfire, rfl⟩ := Resume.System.step_event hs
      have hfire : fire cfg e c.st = some (s, gs) := hfire
      have := balance_fire (t := t) hfire
      have hnil : balance t c.st c.frames =
          balance t c.st [] + (c.frames.flatMap Frame.held).count t := balance_append []
      simp only [balance_append, issues] at this ⊢
      omega

end Urpc.Server
