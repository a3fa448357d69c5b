/-
  The request side of a server stream, on its own.

  `Reader` keeps what decides the handler's reads: the read side of the call, its decoder, the
  context with its stashed first message, the bytes received and the reads answered so far.
  `Reader.Step` lists every change a step of the stream can make to it, one rule per branch of
  the source; `reader_step`: each step of `machine` is one of these rules.

  The rules are those of a stream that receives one header block.
-/
import Urpc.Server.Log
import Urpc.Server.Writer

namespace Urpc.Server

open Cxx

/-- What a read callback is given. -/
structure ReadEvent where
  st : Status
  eos : Bool
  msg : Bytes
  deriving DecidableEq

def Obs.readEvent : Obs → Option ReadEvent
  | .read _ st eos msg => some ⟨st, eos, msg⟩
  | _ => none

/-- The reads answered, in order. -/
def reads (log : List Obs) : List ReadEvent := log.filterMap Obs.readEvent

/-- The fields of a call that decide what is read. -/
structure Asked extends ReadSide, Routing where
  responded : Bool := false
  decoder : FrameDecoder

def Call.asked (k : Call) : Asked where
  toReadSide := k.toReadSide
  toRouting := k.toRouting
  responded := k.responded
  decoder := k.decoder

/-- The call after `TakeMessage`. -/
def Asked.take (k : Asked) : Asked := { k with decoder := k.decoder.takeMessage.2 }

structure Reader where
  opened : Bool
  call : Option Asked
  ctx : Option Ctx
  recv : Bytes
  events : List ReadEvent

def reader (s : State) : Reader where
  opened := s.opened
  call := s.call.map Call.asked
  ctx := s.ctx
  recv := s.recv
  events := reads s.log

/-- A frame that END_STREAM has left. -/
def Trigger.endsRequest : Trigger → Bool
  | .frame f => f.endsRequest
  | _ => false

/-- The frame goes on to `FinishRequest`: for a streaming form, after the message loop. -/
def Trigger.finishesRequest (hasMessage : Bool) : Trigger → Bool
  | .frame (.onHeadersRest endStream) => endStream
  | .frame (.onDataRest endStream) => endStream && !hasMessage
  | _ => false

theorem Trigger.endsRequest_of_finishesRequest {t : Trigger} {hasMessage : Bool}
    (h : t.finishesRequest hasMessage = true) : t.endsRequest = true := by
  unfold finishesRequest at h
  split at h
  · exact h
  · exact (Bool.and_eq_true_iff.mp h).1
  · cases h

namespace Reader

inductive Step (max : Nat) : Trigger → Reader → Reader → Prop where
  | quiet {t v} : Step max t v v
  -- OnHeadersComplete
  | badHeaders {v fields e} : v.opened = false →
      Step max (.event (.headers fields e)) v { v with opened := true }
  | created {v fields e form handler} : v.opened = false → v.call = none → v.ctx = none →
      form = .unary ∨ form = .serverStreaming →
      Step max (.event (.headers fields e)) v { v with
        opened := true, call := some { form, hasHandler := handler, decoder := .new max } }
  | createdStream {v fields e form} : v.opened = false → v.call = none → v.ctx = none →
      form = .clientStreaming ∨ form = .bidi →
      Step max (.event (.headers fields e)) v { v with
        opened := true
        call := some { form, hasHandler := true, dispatched := true, decoder := .new max }
        ctx := some (.stream none) }
  -- OnData
  | fed {v k chunk e} : v.call = some k → k.requestDone = false →
      (k.decoder.consume chunk).1.ok = true →
      Step max (.event (.data chunk e)) v { v with
        call := some { k with decoder := (k.decoder.consume chunk).2 }
        recv := v.recv ++ chunk }
  | rejected {v k chunk} : v.call = some k → k.requestDone = false →
      (k.decoder.consume chunk).1.ok = false →
      Step max (.violation chunk) v { v with
        call := some { k with decoder := (k.decoder.consume chunk).2, responded := true }
        recv := v.recv ++ chunk }
  -- the message loop of OnData, and FinishRequest
  | first {t v k done half} : v.call = some k → v.ctx = none → k.form = .serverStreaming →
      k.decoder.hasMessage = true →
      t.endsRequest = true ∨ done = k.requestDone ∧ half = k.requestHalfClosed →
      Step max t v { v with
        call := some { k.take with
          dispatched := true, requestDone := done, requestHalfClosed := half }
        ctx := some (.stream (some k.decoder.takeMessage.1)) }
  | handed {t v k cb} : v.call = some k → k.form ≠ .unary → k.decoder.hasMessage = true →
      k.readFinished = false → k.readCb = some cb →
      Step max t v { v with
        call := some { k.take with readCb := none }
        events := v.events ++ [⟨.okay, false, k.decoder.takeMessage.1⟩] }
  | stored {t v k first} : v.call = some k → v.ctx = some (.stream first) → k.form ≠ .unary →
      k.decoder.hasMessage = true → k.readFinished = false → k.readCb = none →
      Step max t v { v with
        call := some { k.take with pendingMsgs := k.pendingMsgs ++ [k.decoder.takeMessage.1] } }
  | dropped {t v k first} : v.call = some k → v.ctx = some (.stream first) →
      k.decoder.hasMessage = true → k.readFinished = true →
      Step max t v { v with call := some k.take }
  | overrun {v k first} : v.call = some k → v.ctx = some (.stream first) →
      k.decoder.hasMessage = true → k.responded = false →
      Step max .overrun v { v with
        call := some { k.take with responded := true, readFinished := true } }
  | overrunLate {v k first} : v.call = some k → v.ctx = some (.stream first) →
      k.decoder.hasMessage = true → k.responded = true →
      Step max .overrun v { v with call := some k.take }
  | calledUnary {t v k} : v.call = some k → v.ctx = none → k.form = .unary →
      k.decoder.hasMessage = true → t.endsRequest = true →
      Step max t v { v with
        call := some { k.take with requestDone := true }, ctx := some .unary }
  | ended {t v k half responded} : v.call = some k → v.ctx = none →
      (k.form = .serverStreaming → k.decoder.hasMessage = false) → t.endsRequest = true →
      Step max t v { v with
        call := some { k with requestDone := true, requestHalfClosed := half, responded } }
  | eosArmed {t v k cb} : v.call = some k → k.form ≠ .unary → k.dispatched = true →
      k.readFinished = false → k.readCb = some cb → k.requestDone = false →
      t.finishesRequest k.decoder.hasMessage = true →
      Step max t v { v with
        call := some { k with
          requestDone := true, requestHalfClosed := true, readFinished := true, readCb := none }
        events := v.events ++ [⟨.okay, true, []⟩] }
  | eosUnarmed {t v k} : v.call = some k → k.form ≠ .unary → k.dispatched = true →
      k.readFinished = true ∨ k.readCb = none → t.endsRequest = true →
      Step max t v { v with
        call := some { k with
          requestDone := true, requestHalfClosed := true, readFinished := true } }
  -- ReadMessage
  | readClosed {v cb half first} : v.ctx = some (.stream first) →
      (∀ k, v.call = some k → k.readFinished = true) →
      Step max (.event (.op (.readMessage cb))) v { v with
        events := v.events ++ [⟨streamClosed, half, []⟩] }
  | readFirst {v k cb msg} : v.call = some k → v.ctx = some (.stream (some msg)) →
      k.form ≠ .unary → k.readFinished = false →
      Step max (.event (.op (.readMessage cb))) v { v with
        ctx := some (.stream none)
        events := v.events ++ [⟨.okay, false, msg⟩] }
  | readPending {v k cb msg msgs} : v.call = some k → v.ctx = some (.stream none) →
      k.form ≠ .unary → k.readFinished = false → k.pendingMsgs = msg :: msgs →
      Step max (.event (.op (.readMessage cb))) v { v with
        call := some { k with pendingMsgs := msgs }
        events := v.events ++ [⟨.okay, false, msg⟩] }
  | readEos {v k cb} : v.call = some k → v.ctx = some (.stream none) →
      k.readFinished = false → k.pendingMsgs = [] → k.requestHalfClosed = true →
      Step max (.event (.op (.readMessage cb))) v { v with
        call := some { k with readFinished := true }
        events := v.events ++ [⟨.okay, true, []⟩] }
  | readConcurrent {v k cb} : v.call = some k → k.readCb.isSome = true →
      Step max (.event (.op (.readMessage cb))) v { v with
        events := v.events ++ [⟨⟨.internal, str "concurrent read"⟩, false, []⟩] }
  | readArm {v k cb} : v.call = some k → v.ctx = some (.stream none) →
      k.readFinished = false → k.pendingMsgs = [] → k.requestHalfClosed = false →
      Step max (.event (.op (.readMessage cb))) v { v with
        call := some { k with readCb := some cb } }
  -- Finish, Respond, OnDeadline
  | finished {t v k first} : v.call = some k → v.ctx = some (.stream first) → t.finishes = true →
      Step max t v { v with call := some { k with responded := true, readFinished := true } }
  | respondedUnary {t v k} : v.call = some k → v.ctx = some .unary →
      Step max t v { v with call := some { k with responded := true } }
  | deadline {v k} : v.call = some k →
      Step max (.frame .onDeadlineRest) v { v with call := some { k with responded := true } }
  -- CancelStreamIo and OnStreamClose
  | cancelArmed {t v k cb} : t = .event .streamClose ∨ t = .event .connectionLost →
      v.call = some k → k.readCb = some cb →
      Step max t v { v with
        call := some { k with readFinished := true, readCb := none }
        events := v.events ++ [⟨streamCancelled, false, []⟩] }
  | cancelled {t v k} : t = .event .streamClose ∨ t = .event .connectionLost →
      v.call = some k → k.readCb = none →
      Step max t v { v with call := some { k with readFinished := true } }
  | erase {v} : Step max (.frame .closeErase) v { v with call := none, ctx := none }

section Functions

variable {max : Nat} {t : Trigger} {s : State}

@[simp] theorem reader_setCall (k : Call) :
    reader (s.setCall k) = { reader s with call := some k.asked } := rfl

theorem reader_read (cb : CbId) (st : Status) (eos : Bool) (msg : Bytes) :
    reader (s.note (.read cb st eos msg)) =
      { reader s with events := (reader s).events ++ [⟨st, eos, msg⟩] } := by
  simp [reader, State.note, reads, Obs.readEvent]

theorem reader_note {o : Obs} (h : o.readEvent = none) : reader (s.note o) = reader s := by
  simp [reader, State.note, reads, h]

theorem reader_call {k : Call} (hc : s.call = some k) : (reader s).call = some k.asked :=
  congrArg (Option.map Call.asked) hc

/-- Changing only write-side fields of the call changes nothing here. -/
theorem reader_setCall_of_eq {k k' : Call} (hc : s.call = some k) (hk : k'.asked = k.asked) :
    reader (s.setCall k') = reader s := by
  rw [reader_setCall, hk, ← reader_call hc]

/-! ## Functions that do not read -/

theorem reader_maybeSendDeferredFinish : reader (maybeSendDeferredFinish s) = reader s := by
  unfold maybeSendDeferredFinish
  split
  · next k hc =>
      split
      · rfl
      · split
        · rfl
        · exact reader_setCall_of_eq hc rfl
  · rfl

theorem reader_pumpOut : reader (pumpOut s).1 = reader s := by
  unfold pumpOut
  split
  · next k hc =>
      split
      · rfl
      · split
        · rfl
        · dsimp only
          split <;> exact reader_setCall_of_eq hc rfl
  · rfl

theorem reader_onConsumed (cb : Option CbId) : reader (onConsumed s cb).1 = reader s := by
  unfold onConsumed
  cases hc : s.call with
  | none =>
      cases cb with
      | none => rfl
      | some cb => exact reader_note rfl
  | some k =>
      have hset : reader (s.setCall { k with outInflight := false }) = reader s :=
        reader_setCall_of_eq hc rfl
      cases cb with
      | none => exact hset
      | some cb => exact (reader_note rfl).trans hset

theorem reader_cancelOut : reader (cancelOut s).1 = reader s := by
  unfold cancelOut
  split
  · next k hc =>
      split
      · rfl
      · dsimp only
        split
        · rw [reader_note rfl]
          exact reader_setCall_of_eq hc rfl
        · exact reader_setCall_of_eq hc rfl
  · rfl

theorem reader_fireCancel : reader (fireCancel s) = reader s := by
  unfold fireCancel
  split
  · next k hc =>
      split
      · rfl
      · have hlog : reads (s.log ++ k.cancelCbs.map .cancelled) = reads s.log := by
          simp [reads, Obs.readEvent]
        have hset : reader (s.setCall { k with cancelFired := true, cancelCbs := [] }) =
            reader s := reader_setCall_of_eq hc rfl
        rw [← hset]
        simp only [reader, State.setCall, hlog]
  · rfl

theorem reader_tellWriter (cb : Option CbId) (st : Status) :
    reader (tellWriter s cb st) = reader s := by
  cases cb with
  | none => rfl
  | some cb => exact reader_note rfl

theorem reader_writeMessage (msg : Bytes) (cb : Option CbId) :
    reader (writeMessage s msg cb).1 = reader s := by
  unfold writeMessage
  split
  · exact reader_tellWriter _ _
  · next k hc =>
      split
      · exact reader_tellWriter _ _
      · split
        · exact reader_tellWriter _ _
        · rw [reader_pumpOut]
          have hset : reader (s.setCall { k with
              outQueue := k.outQueue ++ [⟨encodeFrame msg, cb⟩] }) = reader s :=
            reader_setCall_of_eq hc rfl
          exact hset

theorem reader_writeDone : reader (writeDone s) = reader s := by
  unfold writeDone
  split
  · next k hc => exact reader_setCall_of_eq hc rfl
  · rfl

theorem reader_onCancel (cb : CbId) : reader (onCancel s cb) = reader s := by
  unfold onCancel
  split
  · next k hc =>
      split
      · rfl
      · exact reader_setCall_of_eq hc rfl
  · rfl

/-! ## Functions that do -/

theorem ctx_none {fs : List Frame} (h : (writer s fs).stream = none) : s.ctx = none := by
  simpa [writer] using h

theorem ctx_stream {fs : List Frame} (h : (writer s fs).stream = some true) :
    ∃ first, s.ctx = some (.stream first) := by
  obtain ⟨ctx, hctx, hs⟩ := Option.map_eq_some_iff.mp h
  cases ctx with
  | unary => cases hs
  | stream first => exact ⟨first, hctx⟩

/-- A call with a `StreamCtx` is not unary. -/
theorem stream_form {fs : List Frame} {k : Call} {first : Option Bytes}
    (hd : Writer.Dispatched (writer s fs)) (hc : s.call = some k)
    (hctx : s.ctx = some (.stream first)) : k.form ≠ .unary := by
  intro hf
  have hw : (writer s fs).call = some k.toWriteSide := congrArg (Option.map _) hc
  have hs : (writer s fs).stream = some true := congrArg (Option.map Ctx.isStream) hctx
  rw [Writer.Dispatched, hw, hs] at hd
  rcases (hd.unary _ rfl hf).2 with h | ⟨h, -⟩ <;> cases h

theorem reader_finishStream {k : Call} {st : Status} (hc : s.call = some k) :
    reader (finishStream s st) =
      if k.responded then reader s
      else { reader s with
        call := some { k.asked with responded := true, readFinished := true } } := by
  simp only [finishStream, hc]
  split
  · rfl
  · split
    · rfl
    · split <;> rfl

theorem reader_trailersOnly {k : Call} (st : Status) (hc : s.call = some k) :
    ∃ responded, reader (trailersOnly s st) =
      { reader s with call := some { k.asked with responded } } := by
  simp only [trailersOnly, hc]
  split
  · next hr =>
      refine ⟨true, ?_⟩
      have hk : ({ k.asked with responded := true } : Asked) = k.asked := by rw [← hr]; rfl
      rw [hk, ← reader_call hc]
  · exact ⟨true, rfl⟩

theorem reader_dispatchStream {k : Asked} {first : Option Bytes} (hc : (reader s).call = some k)
    (hd : k.dispatched = false) :
    reader (dispatchStream s first) =
      { reader s with call := some { k with dispatched := true }, ctx := some (.stream first) } := by
  obtain ⟨k', hk', rfl⟩ := Option.map_eq_some_iff.mp hc
  have hd' : k'.dispatched = false := hd
  simp only [dispatchStream, hk', hd', Bool.false_eq_true, if_false]
  rw [reader_note rfl]
  rfl

theorem finish_step {first : Option Bytes} (st : Status) (hctx : s.ctx = some (.stream first))
    (ht : t.finishes = true) : Step max t (reader s) (reader (finish s st)) := by
  rcases s.call.eq_none_or_eq_some with hc | ⟨k, hc⟩
  · have hnone : finish s st = { s with finishCalls := s.finishCalls ++ [st] } := by
      simp [finish, finishStream, hc]
    rw [hnone]
    exact Step.quiet
  · rw [finish, reader_finishStream (s := { s with finishCalls := s.finishCalls ++ [st] }) hc]
    split
    · exact Step.quiet
    · exact Step.finished (reader_call hc) hctx ht

theorem cancelStreamIo_step (ht : t = .event .streamClose ∨ t = .event .connectionLost) :
    Step max t (reader s) (reader (cancelStreamIo s)) := by
  unfold cancelStreamIo
  split
  · next k hc =>
      split
      · next cb hcb =>
          rw [reader_read]
          exact Step.cancelArmed ht (reader_call hc) hcb
      · next hcb => exact Step.cancelled ht (reader_call hc) hcb
  · exact Step.quiet

theorem readMessage_step {fs : List Frame} {first : Option Bytes} {cb : CbId}
    (hd : Writer.Dispatched (writer s fs)) (hctx : s.ctx = some (.stream first)) :
    Step max (.event (.op (.readMessage cb))) (reader s) (reader (readMessage s first cb)) := by
  unfold readMessage
  split
  · next hc =>
      rw [reader_read]
      exact Step.readClosed hctx (by simp [reader, hc])
  · next k hc =>
      have hcall := reader_call hc
      have hform : k.form ≠ .unary := stream_form hd hc hctx
      split
      · next hf =>
          rw [reader_read]
          refine Step.readClosed hctx ?_
          intro k' hk'
          cases hcall.symm.trans hk'
          exact hf
      · next hf =>
          have hf' : k.readFinished = false := by simpa using hf
          split
          · rw [reader_read]
            exact Step.readFirst hcall hctx hform hf'
          · split
            · next hp =>
                rw [reader_read]
                exact Step.readPending hcall hctx hform hf' hp
            · next hp =>
                split
                · next hh =>
                    rw [reader_read]
                    exact Step.readEos hcall hctx hf' hp hh
                · next hh =>
                    split
                    · next hcb =>
                        rw [reader_read]
                        exact Step.readConcurrent hcall hcb
                    · have hh' : k.requestHalfClosed = false := by simpa using hh
                      exact Step.readArm hcall hctx hf' hp hh'

/-- `DeliverRead` of a message just taken, for the streaming forms that read. -/
theorem deliverRead_step {k : Call} {first : Option Bytes} (hc : s.call = some k)
    (hctx : s.ctx = some (.stream first)) (hform : k.form ≠ .unary)
    (hm : k.decoder.hasMessage = true)
    (ht : k.readFinished = false → k.readCb = none → 64 ≤ k.pendingMsgs.length → t = .overrun) :
    Step max t (reader s) (reader (deliverRead
      (s.setCall { k with decoder := k.decoder.takeMessage.2 }) .okay false
      k.decoder.takeMessage.1)) := by
  have hcall := reader_call hc
  unfold deliverRead
  simp only [State.setCall]
  split
  · next hf => exact Step.dropped hcall hctx hm hf
  · next hf =>
      have hf' : k.readFinished = false := by simpa using hf
      simp only [Status.ok_okay, Bool.not_true, Bool.or_self, Bool.false_eq_true, if_false]
      split
      · next cb hcb =>
          rw [reader_read]
          exact Step.handed hcall hform hm hf' hcb
      · next hcb =>
          split
          · next hfull =>
              obtain rfl := ht hf' hcb hfull
              rw [reader_finishStream rfl]
              split
              · next hr => exact Step.overrunLate hcall hctx hm hr
              · next hr =>
                  have hr' : k.responded = false := by simpa using hr
                  exact Step.overrun hcall hctx hm hr'
          · exact Step.stored hcall hctx hform hm hf' hcb

/-- `DeliverRead` of END_STREAM. -/
theorem deliverRead_eos {k : Call} (hc : s.call = some k) (hform : k.form ≠ .unary)
    (hd : k.dispatched = true) (hopen : k.requestDone = false)
    (ht : t.finishesRequest k.decoder.hasMessage = true) :
    Step max t (reader s) (reader (deliverRead (s.setCall { k with
      requestDone := true, requestHalfClosed := true }) .okay true [])) := by
  have hcall := reader_call hc
  have hends := Trigger.endsRequest_of_finishesRequest ht
  unfold deliverRead
  simp only [State.setCall, Bool.or_true, if_true]
  split
  · next hf =>
      change Step max t (reader s) { reader s with
        call := some { k.asked with
          requestDone := true, requestHalfClosed := true, readFinished := k.readFinished } }
      rw [hf]
      exact Step.eosUnarmed hcall hform hd (.inl hf) hends
  · next hf =>
      have hf' : k.readFinished = false := by simpa using hf
      split
      · next cb hcb =>
          rw [reader_read]
          exact Step.eosArmed hcall hform hd hf' hcb hopen ht
      · next hcb => exact Step.eosUnarmed hcall hform hd (.inr hcb) hends

/-- `TrailersOnly` after END_STREAM. -/
theorem trailersOnly_step {k k' : Call} {st : Status} {half : Bool} (hc : s.call = some k)
    (hctx : s.ctx = none)
    (hk : k'.asked = { k.asked with requestDone := true, requestHalfClosed := half })
    (hm : k.form = .serverStreaming → k.decoder.hasMessage = false)
    (hends : t.endsRequest = true) :
    Step max t (reader s) (reader (trailersOnly (s.setCall k') st)) := by
  obtain ⟨responded, hr⟩ := reader_trailersOnly (s := s.setCall k') st rfl
  rw [hr, hk]
  exact Step.ended (reader_call hc) hctx hm hends

theorem finishRequest_step {fs : List Frame} (hd : Writer.Dispatched (writer s fs))
    (hends : t.endsRequest = true)
    (ht : ∀ k, s.call = some k → k.form ≠ .unary →
      t.finishesRequest k.decoder.hasMessage = true) :
    Step max t (reader s) (reader (finishRequest s)) := by
  unfold finishRequest
  split
  · exact Step.quiet
  · next k hc =>
      have hw : (writer s fs).call = some k.toWriteSide := congrArg (Option.map _) hc
      have hcall := reader_call hc
      rw [Writer.Dispatched, hw] at hd
      split
      · exact Step.quiet
      · next hdone =>
          dsimp only
          split
          · next hh =>
              obtain ⟨hs, hf⟩ := hd.unrouted _ rfl (by simpa using hh)
              have hf' : k.form = .unary := hf
              exact trailersOnly_step hc (ctx_none hs) rfl (by simp [hf']) hends
          · split
            · next hf =>
                have hs : (writer s fs).stream = none := by
                  rcases (hd.unary _ rfl hf).2 with hs | ⟨-, hdone'⟩
                  · exact hs
                  · exact absurd hdone' hdone
                split
                · exact trailersOnly_step hc (ctx_none hs) rfl (by simp [hf]) hends
                · split
                  · exact trailersOnly_step hc (ctx_none hs) rfl (by simp [hf]) hends
                  · next hm =>
                      have hm' : k.decoder.hasMessage = true := by simpa using hm
                      rw [reader_note rfl]
                      exact Step.calledUnary hcall (ctx_none hs) hf hm' hends
            · next hf =>
                have hstr := hd.streaming _ rfl (by simp [hf])
                split
                · next hdisp =>
                    have hdisp' : k.dispatched = false := by simpa using hdisp
                    have hs : (writer s fs).stream = none := by simpa [hdisp'] using hstr
                    split
                    · next hm =>
                        exact trailersOnly_step hc (ctx_none hs) rfl (fun _ => by simpa using hm) hends
                    · next hm =>
                        have hm' : k.decoder.hasMessage = true := by simpa using hm
                        rw [reader_dispatchStream rfl hdisp']
                        exact Step.first hcall (ctx_none hs) hf hm' (.inl hends)
                · next hdisp =>
                    have hform : k.form ≠ .unary := by simp [hf]
                    exact deliverRead_eos hc hform (by simpa using hdisp) (by simpa using hdone)
                      (ht k hc hform)
            · next hfu hfs =>
                have hdisp : k.dispatched = true :=
                  hd.early _ rfl (by cases hf : k.form <;> simp_all)
                rw [if_neg (by simp [hdisp])]
                exact deliverRead_eos hc hfu hdisp (by simpa using hdone) (ht k hc hfu)

theorem onData_step {chunk : Bytes} {e : Bool}
    (ht : t = if rejects s chunk then .violation chunk else .event (.data chunk e)) :
    Step max t (reader s) (reader (onData s chunk e).1) := by
  unfold onData
  split
  · exact Step.quiet
  · next k hc =>
      have hcall := reader_call hc
      split
      · exact Step.quiet
      · next hdone =>
          have hdone' : k.requestDone = false := by simpa using hdone
          by_cases hne : chunk = []
          · -- `(nullptr, 0)`: the decoder is not called
            subst hne
            simp only [List.isEmpty_nil, if_true, Status.ok_okay, Bool.not_true, Bool.false_eq_true,
              if_false, List.append_nil]
            rw [show reader { s.setCall k with recv := s.recv } = reader s from
              reader_setCall_of_eq hc rfl]
            exact Step.quiet
          · have hemp : chunk.isEmpty = false := by simpa using hne
            simp only [hemp, Bool.false_eq_true, if_false]
            cases hok : (k.decoder.consume chunk).1.ok with
            | true =>
                have hrej : rejects s chunk = false := by simp [rejects, hc, hok]
                rw [hrej] at ht
                subst ht
                exact Step.fed hcall hdone' hok
            | false =>
                have hrej : rejects s chunk = true := by simp [rejects, hc, hok, hdone', hne]
                rw [hrej] at ht
                subst ht
                have hrule : Step max (.violation chunk) (reader s) { reader s with
                    call := some { k.asked with
                      decoder := (k.decoder.consume chunk).2, responded := true }
                    recv := s.recv ++ chunk } := Step.rejected hcall hdone' hok
                simp only [Bool.not_false, if_true, respondError, State.setCall]
                split
                · next hr =>
                    change Step max (.violation chunk) (reader s) { reader s with
                      call := some { k.asked with
                        decoder := (k.decoder.consume chunk).2, responded := k.responded }
                      recv := s.recv ++ chunk }
                    rw [hr]
                    exact hrule
                · exact hrule

theorem onDataRest_step {fs : List Frame} {e : Bool} (hd : Writer.Dispatched (writer s fs))
    (ht : t = if overruns s then .overrun else .frame (.onDataRest e)) :
    Step max t (reader s) (reader (onDataRest s e).1) := by
  have hover : overruns s = true → t = .overrun := fun hov => ht.trans (if_pos hov)
  unfold onDataRest
  split
  · exact Step.quiet
  · next k hc =>
      have hw : (writer s fs).call = some k.toWriteSide := congrArg (Option.map _) hc
      have hcall := reader_call hc
      have hd' := hd
      rw [Writer.Dispatched, hw] at hd'
      split
      · next hloop =>
          obtain ⟨hform, hm⟩ := hloop
          have hstr := hd'.streaming _ rfl hform
          dsimp only
          split
          · next hf =>
              split
              · next hdisp =>
                  obtain rfl := hover (by simp [overruns, hc, hm, hf, hdisp])
                  obtain ⟨first, hctx⟩ := ctx_stream (hstr.trans (if_pos hdisp))
                  rw [reader_finishStream rfl]
                  split
                  · next hr => exact Step.overrunLate hcall hctx hm hr
                  · next hr =>
                      have hr' : k.responded = false := by simpa using hr
                      exact Step.overrun hcall hctx hm hr'
              · next hdisp =>
                  have hdisp' : k.dispatched = false := by simpa using hdisp
                  have hs : (writer s fs).stream = none := by rw [hstr, if_neg hdisp]
                  rw [reader_dispatchStream rfl hdisp']
                  exact Step.first hcall (ctx_none hs) hf hm (.inr ⟨rfl, rfl⟩)
          · next hf =>
            have hdisp : k.dispatched = true :=
              hd'.early _ rfl (by cases hf' : k.form <;> simp_all)
            obtain ⟨first, hctx⟩ := ctx_stream (hstr.trans (if_pos hdisp))
            refine deliverRead_step hc hctx hform hm ?_
            intro hfin hcb hfull
            exact hover (by simp [overruns, hc, hm, hform, hfin, hcb, hfull])
      · next hloop =>
          split
          · next he =>
              have hidle : k.form ≠ .unary → k.decoder.hasMessage = false := fun hform => by
                simpa [hform] using hloop
              have hov : overruns s = false := by
                by_cases hform : k.form = .unary
                · simp [overruns, hc, hform]
                · simp [overruns, hc, hidle hform]
              obtain rfl : t = .frame (.onDataRest e) := by rw [ht, hov]; rfl
              refine finishRequest_step hd he ?_
              intro k' hk' hform
              cases hc.symm.trans hk'
              simp [Trigger.finishesRequest, he, hidle hform]
          · exact Step.quiet

theorem onHeadersComplete_step {cfg : Config} {fs : List Frame} {headers : HeaderMap} {e : Bool}
    (hd : Writer.Dispatched (writer s fs)) (ho : s.opened = false) :
    Step cfg.maxReceiveSize (.event (.headers headers e)) (reader s)
      (reader (onHeadersComplete cfg { s with opened := true } headers e).1) := by
  have hw : (writer s fs).call = none := by simpa using hd.fresh ho
  have hctx := ctx_none (hd.noCall (by simp [hw]))
  have hc : s.call = none := by simpa [writer] using hw
  have hr : (reader s).call = none := by simp [reader, hc]
  have hbad : Step cfg.maxReceiveSize (.event (.headers headers e)) (reader s)
      (reader (trailersOnly { s with opened := true } badRequestHeaders)) := by
    unfold trailersOnly
    split
    · next hk => cases hc.symm.trans hk
    · exact Step.badHeaders ho
  have harm : ∀ k : Call, reader (armDeadline { s with opened := true } k headers) =
      { reader s with opened := true, call := some k.asked } := by
    intro k
    unfold armDeadline
    dsimp only
    split <;> rfl
  unfold onHeadersComplete
  split
  · next ct path _ _ =>
      split
      · exact hbad
      · dsimp only
        have hk : ∃ form handler,
            (routedCall cfg { s with opened := true } path).asked =
              { form, hasHandler := handler, decoder := .new cfg.maxReceiveSize } ∧
            (handler = false → form = .unary) := by
          unfold routedCall
          simp only [hc]
          cases cfg.router path with
          | some form => exact ⟨form, true, rfl, by simp⟩
          | none => exact ⟨.unary, false, rfl, fun _ => rfl⟩
        obtain ⟨form, handler, hk, hun⟩ := hk
        generalize routedCall cfg { s with opened := true } path = k at hk ⊢
        have hform : k.form = form := congrArg (fun k : Asked => k.form) hk
        have hhandler : k.hasHandler = handler := congrArg (fun k : Asked => k.hasHandler) hk
        have hcall := harm k
        rw [hk] at hcall
        split
        · next hb =>
            rw [reader_dispatchStream (congrArg Reader.call hcall) rfl, hcall]
            simp only [Bool.and_eq_true, Bool.or_eq_true, beq_iff_eq, hform, hhandler] at hb
            obtain ⟨rfl, hf⟩ := hb
            exact Step.createdStream ho hr hctx hf
        · next hb =>
            rw [hcall]
            refine Step.created ho hr hctx ?_
            cases form <;> cases handler <;> simp_all
  · exact hbad

theorem onDeadlineRest_step :
    Step max (.frame .onDeadlineRest) (reader s) (reader (onDeadlineRest s)) := by
  unfold onDeadlineRest
  split
  · next k hc =>
      split
      · exact Step.quiet
      · dsimp only
        split <;> exact Step.deadline (reader_call hc)
  · exact Step.quiet

theorem closeErase_step {fs : List Frame} (hd : Writer.Dispatched (writer s fs)) :
    Step max (.frame .closeErase) (reader s) (reader (closeErase s)) := by
  unfold closeErase
  split
  · exact Step.erase
  · next hc =>
      have hw : (writer s fs).call = none := congrArg (Option.map _) hc
      have hctx := ctx_none (hd.noCall (by rw [hw]; rfl))
      have hsame : reader s = { reader s with call := none, ctx := none } := by
        simp [reader, hc, hctx]
      have hrule : Step max (.frame .closeErase) (reader s)
        { reader s with call := none, ctx := none } := Step.erase
      rw [← hsame] at hrule
      exact hrule

theorem respond_step {st : Status} {payload : Bytes} (hctx : s.ctx = some .unary) :
    Step max t (reader s) (reader (respond s st payload).1) := by
  unfold respond
  split
  · next k hc =>
      split
      · exact Step.quiet
      · dsimp only
        split <;> exact Step.respondedUnary (reader_call hc) hctx
  · exact Step.quiet

theorem applyOp_step {fs : List Frame} {o : Op} {r : State × List Frame}
    (hd : Writer.Dispatched (writer s fs)) (h : applyOp s o = some r) :
    Step max (.event (.op o)) (reader s) (reader r.1) := by
  cases o with
  | respond st payload =>
      simp only [applyOp] at h
      split at h
      · next hctx =>
          cases h
          exact respond_step hctx
      · next hctx =>
          cases h
          exact finish_step st hctx rfl
      · cases h
  | readMessage cb =>
      simp only [applyOp] at h
      split at h
      · next hctx =>
          cases h
          exact readMessage_step hd hctx
      · cases h
  | writeMessage msg cb =>
      simp only [applyOp] at h
      split at h
      · cases h
        rw [reader_writeMessage]
        exact Step.quiet
      · cases h
  | writeDone =>
      simp only [applyOp] at h
      split at h
      · cases h
        rw [reader_writeDone]
        exact Step.quiet
      · cases h
  | finish st =>
      simp only [applyOp] at h
      split at h
      · next hctx =>
          cases h
          exact finish_step st hctx rfl
      · cases h
  | onCancel cb =>
      simp only [applyOp] at h
      split at h
      · cases h
        rw [reader_onCancel]
        exact Step.quiet
      · cases h

theorem exec_step {fs : List Frame} {f : Frame} (hd : Writer.Dispatched (writer s fs))
    (ht : trigger ⟨s, f :: fs⟩ .resume = some t) :
    Step max t (reader s) (reader (exec f s).1) := by
  cases f with
  | onDataRest e =>
      exact onDataRest_step hd (Option.some.inj ht).symm
  | onHeadersRest e =>
      cases ht
      simp only [exec]
      split
      · next he => exact finishRequest_step hd he fun _ _ _ => he
      · exact Step.quiet
  | respondData | respondTrailers | pumpOutData => exact Step.quiet
  | onDeadlineRest =>
      cases ht
      exact onDeadlineRest_step
  | consumedRest =>
      have hq : reader (maybeSendDeferredFinish { s with posted := s.posted + 1 }) = reader s :=
        reader_maybeSendDeferredFinish
      simp only [exec, hq]
      exact Step.quiet
  | cancelOut =>
      simp only [exec, reader_cancelOut]
      exact Step.quiet
  | fireCancel =>
      simp only [exec, reader_fireCancel]
      exact Step.quiet
  | closeErase =>
      cases ht
      exact closeErase_step hd

theorem fire_step {cfg : Config} {fs : List Frame} {e : Event} {r : State × List Frame}
    (hd : Writer.Dispatched (writer s fs))
    (hone : ∀ fields b, e = .headers fields b → s.opened = false)
    (h : fire cfg e s = some r) (ht : trigger ⟨s, fs⟩ (.event e) = some t) :
    Step cfg.maxReceiveSize t (reader s) (reader r.1) := by
  cases e with
  | headers fields b =>
      cases ht
      simp only [fire] at h
      split at h
      · cases h
      · cases h
        exact onHeadersComplete_step hd (hone fields b rfl)
  | data chunk b =>
      simp only [fire] at h
      split at h
      · cases h
        exact onData_step (Option.some.inj ht).symm
      · cases h
  | deadline timer =>
      simp only [fire] at h
      split at h
      · split at h
        · cases h
          rw [reader_fireCancel]
          exact Step.quiet
        · cases h
          exact Step.quiet
      · cases h
  | pump =>
      simp only [fire] at h
      split at h
      · cases h
        rw [reader_pumpOut]
        exact Step.quiet
      · cases h
  | connectionLost =>
      cases ht
      simp only [fire] at h
      split at h
      · cases h
      · cases h
        exact cancelStreamIo_step (s := { s with connClosed := true }) (.inr rfl)
  | streamClose =>
      cases ht
      simp only [fire] at h
      split at h
      · split at h
        · cases h
          exact cancelStreamIo_step (s := { s with h2 := s.h2.close }) (.inl rfl)
        · cases h
          exact Step.quiet
      · cases h
  | credit n =>
      simp only [fire] at h
      split at h
      · cases h
      · cases h
        exact Step.quiet
  | consumed =>
      simp only [fire] at h
      split at h
      · cases h
      · cases h
        rw [reader_onConsumed]
        exact Step.quiet
  | op o =>
      cases ht
      exact applyOp_step hd h

end Functions

end Reader

/-- **The rules are all there is.** -/
theorem reader_step {cfg : Config} {c d : Conf} {l : Label} (hd : Writer.Dispatched (.of c))
    (hl : oneBlock c l) (h : (machine cfg).step c l = some d) :
    ∃ t, trigger c l = some t ∧
      Reader.Step cfg.maxReceiveSize t (reader c.st) (reader d.st) := by
  obtain ⟨t, ht, -⟩ := writer_step hd hl h
  refine ⟨t, ht, ?_⟩
  obtain ⟨s, fs⟩ := c
  cases l with
  | resume =>
      obtain ⟨f, rest, hf, rfl⟩ := Resume.System.step_resume h
      change fs = f :: rest at hf
      subst hf
      have hd' : Writer.Dispatched (writer s rest) := hd
      exact Reader.exec_step hd' ht
  | event e =>
      obtain ⟨-, s', gs, hfire, rfl⟩ := Resume.System.step_event h
      refine Reader.fire_step hd ?_ hfire ht
      rintro fields b rfl
      exact hl

end Urpc.Server
