/-
  What the functions of a server stream do to the timers of the loop.

  The loop is shared: `CancelTimer` takes an id, whoever has set the timer. A step of a stream does
  at most one thing to the timers: it cancels the one that its call keeps as `deadline_timer`, or
  sets one more. Nothing else that it does depends on them (`Clocked`).

  Proved: `exec_clocked` and `fire_clocked`, for every frame and every event but a deadline.
-/
import Urpc.Server.Stream

namespace Urpc.Server

open Cxx

/-- What happens to the timers in a step. -/
inductive TimerOp where
  | keep
  | cancel (t : Nat)
  | arm (t : Nat)

def TimerOp.apply (ts : List Nat) : TimerOp → List Nat
  | .keep => ts
  | .cancel t => ts.erase t
  | .arm t => t :: ts

def TimerOp.next (n : Nat) : TimerOp → Nat
  | .arm _ => n + 1
  | _ => n

/-- The step is entitled to it. -/
def TimerOp.Fits (s : State) : TimerOp → Prop
  | .keep => True
  | .cancel t => t ≠ 0 ∧ ∃ k, s.call = some k ∧ k.deadlineTimer = t
  | .arm t => t = s.nextTimer

/-- The `deadline_timer` of a call is not set, is the one that it was, or has just been set. -/
def TimerOp.Keeps (op : TimerOp) (s s' : State) : Prop :=
  ∀ k', s'.call = some k' → k'.deadlineTimer = 0 ∨ op = .arm k'.deadlineTimer ∨
    ∃ k, s.call = some k ∧ k.deadlineTimer = k'.deadlineTimer

/-- `g` does `op` to the timers of `s`, whatever they are, and nothing else depends on them. -/
structure DoesTo (op : TimerOp) (g : State → State × List Frame) (s : State) : Prop where
  fits : op.Fits s
  next : (g s).1.nextTimer = op.next s.nextTimer
  keeps : op.Keeps s (g s).1
  same : ∀ ts, g { s with timers := ts } = ({ (g s).1 with timers := op.apply ts }, (g s).2)

def Clocked (g : State → State × List Frame) (s : State) : Prop := ∃ op, DoesTo op g s

variable {g g' : State → State × List Frame} {s s₁ : State}

/-- `g` leaves the timers and the `deadline_timer` alone. -/
theorem Clocked.keep (hnext : (g s).1.nextTimer = s.nextTimer)
    (hcall : ∀ k', (g s).1.call = some k' →
      k'.deadlineTimer = 0 ∨ ∃ k, s.call = some k ∧ k.deadlineTimer = k'.deadlineTimer)
    (hsame : ∀ ts, g { s with timers := ts } = ({ (g s).1 with timers := ts }, (g s).2)) :
    Clocked g s :=
  ⟨.keep, trivial, hnext, fun k' hk' => (hcall k' hk').imp_right .inr, hsame⟩

/-- `g` goes on as `g'`, after changes that have nothing to do with timers. -/
theorem Clocked.of_eq (h : Clocked g' s₁) (hnext : s₁.nextTimer = s.nextTimer)
    (hcall : ∀ k₁, s₁.call = some k₁ → ∃ k, s.call = some k ∧ k.deadlineTimer = k₁.deadlineTimer)
    (hgo : g s = g' s₁) (hsame : ∀ ts, g { s with timers := ts } = g' { s₁ with timers := ts }) :
    Clocked g s := by
  obtain ⟨op, hd⟩ := h
  refine ⟨op, ?_, ?_, ?_, fun ts => ?_⟩
  · cases op with
    | keep => trivial
    | cancel t =>
        obtain ⟨hne, k₁, hk₁, ht⟩ := hd.fits
        obtain ⟨k, hk, heq⟩ := hcall k₁ hk₁
        exact ⟨hne, k, hk, heq.trans ht⟩
    | arm t => exact Eq.trans hd.fits hnext
  · rw [hgo, hd.next, hnext]
  · rw [hgo]
    intro k' hk'
    refine (hd.keeps k' hk').imp_right (Or.imp_right ?_)
    rintro ⟨k₁, hk₁, heq⟩
    obtain ⟨k, hk, hsame⟩ := hcall k₁ hk₁
    exact ⟨k, hk, hsame.trans heq⟩
  · rw [hsame, hd.same, hgo]

theorem Clocked.congr (h : Clocked g' s)
    (hgo : ∀ ts, g { s with timers := ts } = g' { s with timers := ts }) : Clocked g s :=
  h.of_eq rfl (fun k hk => ⟨k, hk, rfl⟩) (hgo s.timers) hgo

/-- `g` changes its call, but not the `deadline_timer`, and goes on as `g'`. -/
theorem Clocked.after {k k₁ : Call} (h : Clocked g' s₁) (hk : s.call = some k)
    (hk₁ : s₁.call = some k₁) (ht : k₁.deadlineTimer = k.deadlineTimer)
    (hnext : s₁.nextTimer = s.nextTimer) (hgo : g s = g' s₁)
    (hsame : ∀ ts, g { s with timers := ts } = g' { s₁ with timers := ts }) : Clocked g s := by
  refine h.of_eq hnext (fun k' hk' => ⟨k, hk, ?_⟩) hgo hsame
  rw [hk₁] at hk'
  cases hk'
  exact ht.symm

/-- A change that has nothing to do with timers. -/
structure Apart (u : State → State) : Prop where
  timers : ∀ s ts, u { s with timers := ts } = { u s with timers := ts }
  next : ∀ s, (u s).nextTimer = s.nextTimer
  call : ∀ s k', (u s).call = some k' → ∃ k, s.call = some k ∧ k.deadlineTimer = k'.deadlineTimer

theorem Apart.id : Apart fun s => s := ⟨fun _ _ => rfl, fun _ => rfl, fun _ k h => ⟨k, h, rfl⟩⟩

theorem Clocked.andThen {u : State → State} (h : Clocked g s) (hu : Apart u) (fs : List Frame) :
    Clocked (fun s => (u (g s).1, fs)) s := by
  obtain ⟨op, hd⟩ := h
  refine ⟨op, hd.fits, (hu.next _).trans hd.next, fun k' hk' => ?_, fun ts => ?_⟩
  · obtain ⟨k, hk, heq⟩ := hu.call _ k' hk'
    rw [← heq]
    exact hd.keeps k hk
  · dsimp only
    rw [hd.same, hu.timers]

/-! ## Terminal blocks -/

/-- What `StopDeadline` does, for a call that keeps `t`. -/
def TimerOp.stop (t : Nat) : TimerOp := if t = 0 then .keep else .cancel t

theorem stopDeadline_eq (s : State) (k : Call) : stopDeadline s k =
    { s with timers := (TimerOp.stop k.deadlineTimer).apply s.timers
             call := some { k with deadlineTimer := 0 } } := by
  by_cases hz : k.deadlineTimer = 0 <;> simp [stopDeadline, TimerOp.stop, TimerOp.apply, hz]

/-- `g` stops the deadline of its call. -/
theorem Clocked.stop {k : Call} (hk : s.call = some k) (hnext : (g s).1.nextTimer = s.nextTimer)
    (hzero : ∀ k', (g s).1.call = some k' → k'.deadlineTimer = 0)
    (hsame : ∀ ts, g { s with timers := ts } =
      ({ (g s).1 with timers := (TimerOp.stop k.deadlineTimer).apply ts }, (g s).2)) :
    Clocked g s := by
  refine ⟨.stop k.deadlineTimer, ?_, ?_, fun k' hk' => .inl (hzero k' hk'), hsame⟩
  · unfold TimerOp.stop
    split
    · trivial
    · next hne => exact ⟨hne, k, hk, rfl⟩
  · rw [hnext]
    unfold TimerOp.stop
    split <;> rfl

/-- `g` does nothing. -/
theorem Clocked.refl (hgo : ∀ ts, g { s with timers := ts } = ({ s with timers := ts }, (g s).2)) :
    Clocked g s := by
  have hself : (g s).1 = s := congrArg Prod.fst (hgo s.timers)
  exact .keep (by rw [hself]) (fun k' hk' => .inr ⟨k', hself ▸ hk', rfl⟩) fun ts => by
    rw [hgo, hself]

theorem clocked_trailersOnly (s : State) (st : Status) :
    Clocked (fun s => (trailersOnly s st, [])) s := by
  cases hk : s.call with
  | none =>
      refine .keep ?_ ?_ ?_ <;> simp [trailersOnly, sendTrailersOnly, State.sendHeaders, hk]
  | some k =>
      by_cases hr : k.responded = true
      · exact .refl fun ts => by simp [trailersOnly, hk, hr]
      · refine .stop hk ?_ ?_ fun ts => ?_ <;>
          simp [trailersOnly, stopDeadline_eq, sendTrailersOnly, State.sendHeaders, hk, hr]

theorem clocked_respondError (s : State) (st : Status) :
    Clocked (fun s => (respondError s st, [])) s := by
  cases hk : s.call with
  | none => exact .refl fun ts => by simp [respondError, hk]
  | some k =>
      by_cases hr : k.responded = true
      · exact .refl fun ts => by simp [respondError, hk, hr]
      · refine .stop hk ?_ ?_ fun ts => ?_ <;>
          simp [respondError, stopDeadline_eq, trailersOnly, hk, hr]

theorem clocked_finishStream (s : State) (st : Status) :
    Clocked (fun s => (finishStream s st, [])) s := by
  cases hk : s.call with
  | none => exact .refl fun ts => by simp [finishStream, hk]
  | some k =>
      by_cases hr : k.responded = true
      · exact .refl fun ts => by simp [finishStream, hk, hr]
      · by_cases hout : (k.outInflight || !k.outQueue.isEmpty) = true
        · refine .stop hk ?_ ?_ fun ts => ?_ <;>
            simp [finishStream, stopDeadline_eq, State.setCall, hk, hr, hout]
        · by_cases hh : k.responseHeadersSent = true <;>
            · refine .stop hk ?_ ?_ fun ts => ?_ <;>
                simp [finishStream, stopDeadline_eq, sendTrailersOnly, State.sendHeaders,
                  State.sendTrailers, hk, hr, hout, hh]

theorem clocked_maybeSendDeferredFinish (s : State) :
    Clocked (fun s => (maybeSendDeferredFinish s, [])) s := by
  cases hk : s.call with
  | none => exact .refl fun ts => by simp [maybeSendDeferredFinish, hk]
  | some k =>
      by_cases hf : k.hasFinishPending = true
      · by_cases hout : (k.outInflight || !k.outQueue.isEmpty) = true
        · exact .refl fun ts => by simp [maybeSendDeferredFinish, hk, hf, hout]
        · refine .keep ?_ ?_ ?_ <;>
            simp [maybeSendDeferredFinish, State.setCall, State.sendTrailers, hk, hf, hout]
      · exact .refl fun ts => by simp [maybeSendDeferredFinish, hk, hf]

/-! ## Responses -/

theorem clocked_pumpOut (s : State) : Clocked pumpOut s := by
  cases hk : s.call with
  | none => exact .refl fun ts => by simp [pumpOut, hk]
  | some k =>
      cases hq : k.outQueue with
      | nil => exact .refl fun ts => by simp [pumpOut, hk, hq]
      | cons out queue =>
          by_cases hno : (k.outInflight || k.responded || k.writeClosed) = true
          · exact .refl fun ts => by simp [pumpOut, hk, hq, hno]
          · by_cases hh : k.responseHeadersSent = true <;>
              · refine .keep ?_ ?_ ?_ <;>
                  simp [pumpOut, State.setCall, State.sendHeaders, State.sendData, hk, hq, hno, hh]

theorem clocked_onConsumed (s : State) (cb : Option CbId) :
    Clocked (fun s => onConsumed s cb) s := by
  cases hk : s.call <;> cases cb <;> refine .keep ?_ ?_ ?_ <;>
    simp [onConsumed, State.setCall, State.note, hk]

theorem clocked_respond (s : State) (st : Status) (payload : Bytes) :
    Clocked (fun s => respond s st payload) s := by
  cases hk : s.call with
  | none => exact .refl fun ts => by simp [respond, hk]
  | some k =>
      by_cases hr : k.responded = true
      · exact .refl fun ts => by simp [respond, hk, hr]
      · by_cases hok : st.ok = true <;>
          · refine .stop hk ?_ ?_ fun ts => ?_ <;>
              simp [respond, stopDeadline_eq, sendTrailersOnly, State.sendHeaders, hk, hr, hok]

/-! ## Dispatch and reads -/

theorem apart_dispatchStream (firstMsg : Option Bytes) :
    Apart fun s => dispatchStream s firstMsg := by
  refine ⟨fun s ts => ?_, fun s => ?_, fun s k' hk' => ?_⟩
  · cases hk : s.call with
    | none => simp [dispatchStream, hk]
    | some k =>
        by_cases hd : k.dispatched = true <;>
          simp [dispatchStream, State.setCall, State.note, hk, hd]
  · unfold dispatchStream
    split
    · split <;> rfl
    · rfl
  · unfold dispatchStream at hk'
    split at hk'
    · next k hk =>
        split at hk'
        · exact ⟨k', hk', rfl⟩
        · cases hk'
          exact ⟨k, hk, rfl⟩
    · exact ⟨k', hk', rfl⟩

theorem clocked_deliverRead (s : State) (st : Status) (eos : Bool) (msg : Bytes) :
    Clocked (fun s => (deliverRead s st eos msg, [])) s := by
  cases hk : s.call with
  | none => exact .refl fun ts => by simp [deliverRead, hk]
  | some k =>
      by_cases hf : k.readFinished = true
      · exact .refl fun ts => by simp [deliverRead, hk, hf]
      · by_cases hend : (!st.ok || eos) = true
        · cases hcb : k.readCb <;> refine .keep ?_ ?_ ?_ <;>
            simp [deliverRead, State.setCall, State.note, hk, hf, hend, hcb]
        · cases hcb : k.readCb with
          | some cb =>
              refine .keep ?_ ?_ ?_ <;>
                simp [deliverRead, State.setCall, State.note, hk, hf, hend, hcb]
          | none =>
              by_cases hlen : k.pendingMsgs.length ≥ 64
              · exact (clocked_finishStream s tooManyUnread).congr fun ts => by
                  simp [deliverRead, hk, hf, hend, hcb, hlen]
              · refine .keep ?_ ?_ ?_ <;>
                  simp [deliverRead, State.setCall, hk, hf, hend, hcb, hlen]

theorem clocked_finishRequest (s : State) : Clocked (fun s => (finishRequest s, [])) s := by
  cases hk : s.call with
  | none => exact .refl fun ts => by simp [finishRequest, hk]
  | some k =>
      by_cases hd : k.requestDone = true
      · exact .refl fun ts => by simp [finishRequest, hk, hd]
      · -- a terminal block, or the end of the reads, after changes to the call
        have hblock : ∀ (k₁ : Call) (st : Status), k₁.deadlineTimer = k.deadlineTimer →
            (∀ ts, finishRequest { s with timers := ts } =
              trailersOnly ({ s with timers := ts }.setCall k₁) st) →
            Clocked (fun s => (finishRequest s, [])) s := by
          intro k₁ st ht hgo
          exact (clocked_trailersOnly (s.setCall k₁) st).after hk rfl ht rfl
            (congrArg (·, []) (hgo s.timers)) fun ts => congrArg (·, []) (hgo ts)
        have hread : ∀ (k₁ : Call), k₁.deadlineTimer = k.deadlineTimer →
            (∀ ts, finishRequest { s with timers := ts } =
              deliverRead ({ s with timers := ts }.setCall k₁) .okay true []) →
            Clocked (fun s => (finishRequest s, [])) s := by
          intro k₁ ht hgo
          exact (clocked_deliverRead (s.setCall k₁) .okay true []).after hk rfl ht rfl
            (congrArg (·, []) (hgo s.timers)) fun ts => congrArg (·, []) (hgo ts)
        by_cases hh : k.hasHandler = true
        · cases hform : k.form with
          | unary =>
              by_cases hcount : k.decoder.messageCount = 0
              · by_cases hmsg : k.decoder.hasMessage = true
                · refine .keep ?_ ?_ ?_ <;>
                    simp [finishRequest, State.setCall, State.note, hk, hd, hh, hform, hcount, hmsg]
                · refine hblock { k with requestDone := true } missingRequest rfl fun ts => ?_
                  simp [finishRequest, State.setCall, hk, hd, hh, hform, hcount, hmsg]
              · refine hblock { k with requestDone := true } multipleRequests rfl fun ts => ?_
                simp [finishRequest, State.setCall, hk, hd, hh, hform, hcount]
          | serverStreaming =>
              by_cases hdisp : k.dispatched = true
              · refine hread { k with requestDone := true, requestHalfClosed := true } rfl
                  fun ts => ?_
                simp [finishRequest, State.setCall, hk, hd, hh, hform, hdisp]
              · by_cases hmsg : k.decoder.hasMessage = true
                · refine Clocked.keep ?_ ?_ ?_ <;>
                    simp [finishRequest, dispatchStream, State.setCall, State.note, hk, hd, hh, hform,
                      hdisp, hmsg]
                · refine hblock { k with requestDone := true, requestHalfClosed := true }
                    missingRequest rfl fun ts => ?_
                  simp [finishRequest, State.setCall, hk, hd, hh, hform, hdisp, hmsg]
          | clientStreaming | bidi =>
              by_cases hdisp : k.dispatched = true
              · refine hread { k with requestDone := true, requestHalfClosed := true } rfl
                  fun ts => ?_
                simp [finishRequest, State.setCall, hk, hd, hh, hform, hdisp]
              · refine hblock { k with requestDone := true, requestHalfClosed := true }
                  (unknownMethod k.path) rfl fun ts => ?_
                simp [finishRequest, State.setCall, hk, hd, hh, hform, hdisp]
        · refine hblock { k with requestDone := true } (unknownMethod k.path) rfl fun ts => ?_
          simp [finishRequest, State.setCall, hk, hd, hh]

/-! ## Transport events -/

/-- The `deadline_timer` of the call that `OnHeadersComplete` finds or makes. -/
theorem routedCall_deadlineTimer (cfg : Config) (s : State) (path : Bytes) :
    (routedCall cfg s path).deadlineTimer = 0 ∨
      ∃ k, s.call = some k ∧ k.deadlineTimer = (routedCall cfg s path).deadlineTimer := by
  unfold routedCall
  cases hk : s.call with
  | none =>
      refine .inl ?_
      dsimp only
      split <;> rfl
  | some k =>
      refine .inr ⟨k, rfl, ?_⟩
      dsimp only
      split <;> rfl

theorem clocked_armDeadline {k : Call} (headers : HeaderMap)
    (htimer : k.deadlineTimer = 0 ∨ ∃ k₀, s.call = some k₀ ∧ k₀.deadlineTimer = k.deadlineTimer) :
    Clocked (fun s => (armDeadline s k headers, [])) s := by
  by_cases hms : 0 < ((find headers "grpc-timeout").map parseGrpcTimeout).getD 0
  · refine ⟨.arm s.nextTimer, rfl, ?_, ?_, fun ts => ?_⟩ <;>
      simp [armDeadline, hms, TimerOp.next, TimerOp.apply, TimerOp.Keeps]
  · refine .keep ?_ ?_ ?_ <;> simp [armDeadline, hms, State.setCall, htimer]

theorem clocked_onHeadersComplete (cfg : Config) (s : State) (headers : HeaderMap) (e : Bool) :
    Clocked (fun s => onHeadersComplete cfg s headers e) s := by
  have hbad : (∀ ts, onHeadersComplete cfg { s with timers := ts } headers e =
      (trailersOnly { s with timers := ts } badRequestHeaders, [])) →
      Clocked (fun s => onHeadersComplete cfg s headers e) s := fun hgo =>
    (clocked_trailersOnly s badRequestHeaders).congr hgo
  cases hct : find headers "content-type" with
  | none => exact hbad fun ts => by simp [onHeadersComplete, hct]
  | some ct =>
      cases hp : find headers ":path" with
      | none => exact hbad fun ts => by simp [onHeadersComplete, hct, hp]
      | some path =>
          by_cases hpre : kContentType.isPrefixOf ct = true
          · let k := routedCall cfg s path
            have harm : Clocked (fun s => (armDeadline s k headers, [])) s :=
              clocked_armDeadline headers (routedCall_deadlineTimer cfg s path)
            by_cases hd : (k.hasHandler && (k.form == .clientStreaming || k.form == .bidi)) = true
            · have hgo : ∀ ts, onHeadersComplete cfg { s with timers := ts } headers e =
                  (dispatchStream (armDeadline { s with timers := ts } k headers) none,
                    [.onHeadersRest e]) := by
                intro ts
                have hk : routedCall cfg { s with timers := ts } path = k := rfl
                simp [onHeadersComplete, hct, hp, hpre, hk, hd]
              exact (harm.andThen (apart_dispatchStream none) _).congr hgo
            · have hgo : ∀ ts, onHeadersComplete cfg { s with timers := ts } headers e =
                  (armDeadline { s with timers := ts } k headers, [.onHeadersRest e]) := by
                intro ts
                have hk : routedCall cfg { s with timers := ts } path = k := rfl
                simp [onHeadersComplete, hct, hp, hpre, hk, hd]
              exact (harm.andThen .id _).congr hgo
          · exact hbad fun ts => by simp [onHeadersComplete, hct, hp, hpre]

theorem clocked_onData (s : State) (chunk : Bytes) (e : Bool) :
    Clocked (fun s => onData s chunk e) s := by
  cases hk : s.call with
  | none => exact .refl fun ts => by simp [onData, hk]
  | some k =>
      by_cases hd : k.requestDone = true
      · exact .refl fun ts => by simp [onData, hk, hd]
      · obtain ⟨st, decoder, hread⟩ : ∃ st decoder,
            (if chunk = [] then (Status.okay, k.decoder) else k.decoder.consume chunk) =
              (st, decoder) := ⟨_, _, rfl⟩
        by_cases hok : st.ok = true
        · refine .keep ?_ ?_ ?_ <;> simp [onData, State.setCall, hk, hd, hread, hok]
        · refine (clocked_respondError
            { s.setCall { k with decoder } with recv := s.recv ++ chunk } st).after hk rfl rfl rfl
            ?_ fun ts => ?_ <;> simp [onData, State.setCall, hk, hd, hread, hok]

theorem clocked_onDataRest (s : State) (e : Bool) : Clocked (fun s => onDataRest s e) s := by
  cases hk : s.call with
  | none => exact .refl fun ts => by simp [onDataRest, hk]
  | some k =>
      by_cases hmsg : k.form ≠ .unary ∧ k.decoder.hasMessage = true
      · let s₁ := s.setCall { k with decoder := k.decoder.takeMessage.2 }
        by_cases hform : k.form = .serverStreaming
        · by_cases hd : k.dispatched = true
          · refine (clocked_finishStream s₁ multipleRequests).after hk rfl rfl rfl ?_ fun ts => ?_ <;>
              simp [s₁, onDataRest, State.setCall, hk, hmsg, hform, hd]
          · refine .keep ?_ ?_ ?_ <;>
              simp [onDataRest, dispatchStream, State.setCall, State.note, hk, hmsg, hform, hd]
        · have hread := (clocked_deliverRead s₁ .okay false k.decoder.takeMessage.1).andThen .id
            [.onDataRest e]
          refine hread.after hk rfl rfl rfl ?_ fun ts => ?_ <;>
            simp [s₁, onDataRest, State.setCall, hk, hmsg, hform]
      · cases e with
        | true =>
            exact (clocked_finishRequest s).congr fun ts => by simp [onDataRest, hk, hmsg]
        | false => exact .refl fun ts => by simp [onDataRest, hk, hmsg]

theorem clocked_fireCancel (s : State) (fs : List Frame) :
    Clocked (fun s => (fireCancel s, fs)) s := by
  cases hk : s.call with
  | none => exact .refl fun ts => by simp [fireCancel, hk]
  | some k =>
      by_cases hf : k.cancelFired = true
      · exact .refl fun ts => by simp [fireCancel, hk, hf]
      · refine .keep ?_ ?_ ?_ <;> simp [fireCancel, hk, hf]

theorem clocked_onDeadlineRest (s : State) : Clocked (fun s => (onDeadlineRest s, [])) s := by
  cases hk : s.call with
  | none => exact .refl fun ts => by simp [onDeadlineRest, hk]
  | some k =>
      by_cases hr : k.responded = true
      · exact .refl fun ts => by simp [onDeadlineRest, hk, hr]
      · by_cases hh : k.form ≠ .unary ∧ k.responseHeadersSent = true <;>
          · refine .keep ?_ ?_ ?_ <;>
              simp [onDeadlineRest, sendTrailersOnly, State.setCall, State.sendHeaders,
                State.sendTrailers, hk, hr, hh]

theorem clocked_cancelStreamIo (s : State) (fs : List Frame) :
    Clocked (fun s => (cancelStreamIo s, fs)) s := by
  cases hk : s.call with
  | none => exact .refl fun ts => by simp [cancelStreamIo, hk]
  | some k =>
      cases hcb : k.readCb <;> refine .keep ?_ ?_ ?_ <;>
        simp [cancelStreamIo, State.setCall, State.note, hk, hcb]

theorem clocked_cancelOut (s : State) : Clocked cancelOut s := by
  cases hk : s.call with
  | none => exact .refl fun ts => by simp [cancelOut, hk]
  | some k =>
      cases hq : k.outQueue with
      | nil => exact .refl fun ts => by simp [cancelOut, hk, hq]
      | cons out queue =>
          cases hcb : out.cb <;> refine .keep ?_ ?_ ?_ <;>
            simp [cancelOut, State.setCall, State.note, hk, hq, hcb]

theorem clocked_closeErase (s : State) : Clocked (fun s => (closeErase s, [])) s := by
  cases hk : s.call with
  | none => exact .refl fun ts => by simp [closeErase, hk]
  | some k =>
      refine .stop hk ?_ ?_ fun ts => ?_
      · simp [closeErase, hk]
      · simp [closeErase, hk]
      · by_cases hz : k.deadlineTimer = 0 <;>
          simp [closeErase, TimerOp.stop, TimerOp.apply, hk, hz]

/-! ## Handler operations -/

theorem clocked_readMessage (s : State) (first : Option Bytes) (cb : CbId) :
    Clocked (fun s => (readMessage s first cb, [])) s := by
  cases hk : s.call with
  | none => refine .keep ?_ ?_ ?_ <;> simp [readMessage, State.note, hk]
  | some k =>
      by_cases hf : k.readFinished = true
      · refine .keep ?_ ?_ ?_ <;> simp [readMessage, State.note, hk, hf]
      · cases first with
        | some msg => refine .keep ?_ ?_ ?_ <;> simp [readMessage, State.note, hk, hf]
        | none =>
            cases hp : k.pendingMsgs with
            | cons msg msgs =>
                refine .keep ?_ ?_ ?_ <;> simp [readMessage, State.setCall, State.note, hk, hf, hp]
            | nil =>
                by_cases hh : k.requestHalfClosed = true
                · refine .keep ?_ ?_ ?_ <;>
                    simp [readMessage, State.setCall, State.note, hk, hf, hp, hh]
                · cases hcb : k.readCb <;> refine .keep ?_ ?_ ?_ <;>
                    simp [readMessage, State.setCall, State.note, hk, hf, hp, hh, hcb]

theorem clocked_tellWriter (s : State) (cb : Option CbId) (st : Status) :
    Clocked (fun s => (tellWriter s cb st, [])) s := by
  cases cb <;> refine .keep ?_ ?_ ?_ <;> simp +contextual [tellWriter, State.note]

theorem clocked_writeMessage (s : State) (msg : Bytes) (cb : Option CbId) :
    Clocked (fun s => writeMessage s msg cb) s := by
  cases hk : s.call with
  | none =>
      exact (clocked_tellWriter s cb streamClosed).congr fun ts => by simp [writeMessage, hk]
  | some k =>
      by_cases hw : (k.responded || k.writeClosed) = true
      · exact (clocked_tellWriter s cb _).congr fun ts => by simp [writeMessage, hk, hw]; rfl
      · by_cases hlen : k.outQueue.length ≥ 64
        · exact (clocked_tellWriter s cb _).congr fun ts => by
            simp [writeMessage, hk, hw, hlen]; rfl
        · refine (clocked_pumpOut { s.setCall { k with
              outQueue := k.outQueue ++ [⟨encodeFrame msg, cb⟩] } with
              accepted := s.accepted ++ [msg] }).after hk rfl rfl rfl ?_ fun ts => ?_ <;>
            simp [writeMessage, State.setCall, hk, hw, hlen]

theorem clocked_writeDone (s : State) : Clocked (fun s => (writeDone s, [])) s := by
  cases hk : s.call with
  | none => exact .refl fun ts => by simp [writeDone, hk]
  | some k => refine .keep ?_ ?_ ?_ <;> simp [writeDone, State.setCall, hk]

theorem clocked_onCancel (s : State) (cb : CbId) : Clocked (fun s => (onCancel s cb, [])) s := by
  cases hk : s.call with
  | none => exact .refl fun ts => by simp [onCancel, hk]
  | some k =>
      by_cases hf : k.cancelFired = true
      · exact .refl fun ts => by simp [onCancel, hk, hf]
      · refine .keep ?_ ?_ ?_ <;> simp [onCancel, State.setCall, hk, hf]

theorem clocked_finish (s : State) (st : Status) : Clocked (fun s => (finish s st, [])) s :=
  (clocked_finishStream { s with finishCalls := s.finishCalls ++ [st] } st).of_eq rfl
    (fun k hk => ⟨k, hk, rfl⟩) rfl fun _ => rfl

/-! ## Frames and events -/

theorem exec_clocked (f : Frame) (s : State) : Clocked (exec f) s := by
  cases f with
  | onHeadersRest e =>
      cases e with
      | true => exact (clocked_finishRequest s).congr fun _ => rfl
      | false => exact .refl fun _ => rfl
  | onDataRest e => exact clocked_onDataRest s e
  | respondData framed =>
      exact .keep rfl (fun k hk => .inr ⟨k, hk, rfl⟩) fun _ => rfl
  | respondTrailers => exact .keep rfl (fun k hk => .inr ⟨k, hk, rfl⟩) fun _ => rfl
  | onDeadlineRest => exact clocked_onDeadlineRest s
  | pumpOutData out => exact .keep rfl (fun k hk => .inr ⟨k, hk, rfl⟩) fun _ => rfl
  | consumedRest =>
      exact (clocked_maybeSendDeferredFinish { s with posted := s.posted + 1 }).of_eq rfl
        (fun k hk => ⟨k, hk, rfl⟩) rfl fun _ => rfl
  | cancelOut => exact clocked_cancelOut s
  | fireCancel => exact clocked_fireCancel s []
  | closeErase => exact clocked_closeErase s

/-- Whether the event can happen does not depend on the timers, and what it does is clocked. -/
def Fires (cfg : Config) (e : Event) (s : State) : Prop :=
  (∀ ts, fire cfg e { s with timers := ts } = none) ∨
    ∃ g, Clocked g s ∧ ∀ ts, fire cfg e { s with timers := ts } = some (g { s with timers := ts })

/-- An operation that only a `StreamCtx` has. -/
theorem stream_fires {cfg : Config} {o : Op} {s : State}
    (g : Option Bytes → State → State × List Frame) (hg : ∀ first, Clocked (g first) s)
    (hgo : ∀ ts, applyOp { s with timers := ts } o = match s.ctx with
      | some (.stream first) => some (g first { s with timers := ts })
      | _ => none) : Fires cfg (.op o) s := by
  rcases hctx : s.ctx with _ | _ | first
  · exact .inl fun ts => (hgo ts).trans (by rw [hctx])
  · exact .inl fun ts => (hgo ts).trans (by rw [hctx])
  · exact .inr ⟨g first, hg first, fun ts => (hgo ts).trans (by rw [hctx])⟩

theorem applyOp_fires (cfg : Config) (o : Op) (s : State) : Fires cfg (.op o) s := by
  cases o with
  | respond st payload =>
      rcases hctx : s.ctx with _ | _ | first
      · exact .inl fun ts => by simp [fire, applyOp, hctx]
      · exact .inr ⟨_, clocked_respond s st payload, fun ts => by simp [fire, applyOp, hctx]⟩
      · exact .inr ⟨_, clocked_finish s st, fun ts => by simp [fire, applyOp, hctx]⟩
  | readMessage cb =>
      exact stream_fires _ (fun first => clocked_readMessage s first cb) fun _ => rfl
  | writeMessage msg cb =>
      exact stream_fires (fun _ s => writeMessage s msg cb) (fun _ => clocked_writeMessage s msg cb)
        fun _ => rfl
  | writeDone =>
      exact stream_fires (fun _ s => (writeDone s, [])) (fun _ => clocked_writeDone s) fun _ => rfl
  | finish st =>
      exact stream_fires (fun _ s => (finish s st, [])) (fun _ => clocked_finish s st) fun _ => rfl
  | onCancel cb =>
      cases hctx : s.ctx.isSome with
      | false => exact .inl fun ts => by simp [fire, applyOp, hctx]
      | true => exact .inr ⟨_, clocked_onCancel s cb, fun ts => by simp [fire, applyOp, hctx]⟩

theorem fire_clocked (cfg : Config) (e : Event) (he : ∀ t, e ≠ .deadline t) (s : State) :
    Fires cfg e s := by
  cases e with
  | headers fields e =>
      by_cases hc : s.h2.closed = true
      · exact .inl fun ts => by simp [fire, hc]
      · refine .inr ⟨fun s => onHeadersComplete cfg { s with opened := true } fields e, ?_,
          fun ts => by simp [fire, hc]⟩
        exact (clocked_onHeadersComplete cfg { s with opened := true } fields e).of_eq rfl
          (fun k hk => ⟨k, hk, rfl⟩) rfl fun _ => rfl
  | data chunk e =>
      by_cases ho : (s.opened && !s.h2.closed) = true
      · exact .inr ⟨_, clocked_onData s chunk e, fun ts => by simp [fire, ho]⟩
      · exact .inl fun ts => by simp [fire, ho]
  | deadline t => exact absurd rfl (he t)
  | pump =>
      by_cases hp : 0 < s.posted
      · refine .inr ⟨fun s => pumpOut { s with posted := s.posted - 1 }, ?_,
          fun ts => by simp [fire, hp]⟩
        exact (clocked_pumpOut { s with posted := s.posted - 1 }).of_eq rfl
          (fun k hk => ⟨k, hk, rfl⟩) rfl fun _ => rfl
      · exact .inl fun ts => by simp [fire, hp]
  | connectionLost =>
      by_cases hc : s.connClosed = true
      · exact .inl fun ts => by simp [fire, hc]
      · refine .inr ⟨fun s => (cancelStreamIo { s with connClosed := true },
          [.cancelOut, .fireCancel]), ?_, fun ts => by simp [fire, hc]⟩
        exact (clocked_cancelStreamIo { s with connClosed := true }
          [.cancelOut, .fireCancel]).of_eq rfl (fun k hk => ⟨k, hk, rfl⟩) rfl fun _ => rfl
  | streamClose =>
      by_cases ho : (s.opened && !s.h2.closed) = true
      · cases hk : s.call with
        | none =>
            refine .inr ⟨fun s => ({ s with h2 := s.h2.close }, []), ?_,
              fun ts => by simp [fire, ho, hk]⟩
            exact .keep rfl (fun k hk => .inr ⟨k, hk, rfl⟩) fun _ => rfl
        | some k =>
            refine .inr ⟨fun s => (cancelStreamIo { s with h2 := s.h2.close },
              [.cancelOut, .fireCancel, .closeErase]), ?_, fun ts => by simp [fire, ho, hk]⟩
            exact (clocked_cancelStreamIo { s with h2 := s.h2.close }
              [.cancelOut, .fireCancel, .closeErase]).of_eq rfl (fun k hk => ⟨k, hk, rfl⟩) rfl
              fun _ => rfl
      · exact .inl fun ts => by simp [fire, ho]
  | credit n =>
      by_cases hc : s.h2.closed = true
      · exact .inl fun ts => by simp [fire, hc]
      · refine .inr ⟨fun s => ({ s with h2 := s.h2.credit n }, []), ?_,
          fun ts => by simp [fire, hc]⟩
        exact .keep rfl (fun k hk => .inr ⟨k, hk, rfl⟩) fun _ => rfl
  | consumed =>
      cases hn : s.h2.notes with
      | nil => exact .inl fun ts => by simp [fire, hn]
      | cons cb notes =>
          refine .inr ⟨fun s => onConsumed { s with h2 := { s.h2 with notes } } cb, ?_,
            fun ts => by simp [fire, hn]⟩
          exact (clocked_onConsumed { s with h2 := { s.h2 with notes } } cb).of_eq rfl
            (fun k hk => ⟨k, hk, rfl⟩) rfl fun _ => rfl
  | op o => exact applyOp_fires cfg o s

/-- `OnDeadline` up to the cancel callbacks. -/
def onDeadline (s : State) : State × List Frame :=
  if s.call.isSome then (fireCancel s, [.onDeadlineRest]) else (s, [])

/-- A timer that fires is taken out first. -/
theorem fire_deadline (cfg : Config) (s : State) {t : Nat} {ts : List Nat} (ht : t ∈ ts) :
    fire cfg (.deadline t) { s with timers := ts } =
      some ({ (onDeadline s).1 with timers := ts.erase t }, (onDeadline s).2) := by
  cases hk : s.call with
  | none => simp [fire, onDeadline, hk, ht]
  | some k =>
      by_cases hf : k.cancelFired = true <;> simp [fire, onDeadline, fireCancel, hk, ht, hf]

theorem onDeadline_keeps (s : State) :
    (onDeadline s).1.nextTimer = s.nextTimer ∧ TimerOp.Keeps .keep s (onDeadline s).1 := by
  unfold onDeadline
  split
  · cases hk : s.call with
    | none => simp [fireCancel, TimerOp.Keeps, hk]
    | some k =>
        by_cases hf : k.cancelFired = true <;> simp [fireCancel, TimerOp.Keeps, hk, hf]
  · exact ⟨rfl, fun k hk => .inr (.inr ⟨k, hk, rfl⟩)⟩

end Urpc.Server
