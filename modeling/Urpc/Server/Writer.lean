/-
  The response side of a server stream, on its own.

  `Writer` keeps what decides the submissions: the write side of the call, the kind of its
  context, the sender and the waiting frames that send or clear. `Writer.Step` lists every
  change a step of the stream can make to it, with the trigger that makes it, one rule per
  branch of the source. `writer_step`: each step of `machine` is one of these rules. All
  results about responses are inductions over the rules; none looks at the functions again.

  The rules are those of a stream that receives one header block (`oneBlock`).
  `Dispatch.step` keeps what ties the call's flags to its context.
-/
import Urpc.Server.Stream

namespace Urpc.Server

open Cxx

/-- The context is a `StreamCtx`. -/
def Ctx.isStream : Ctx → Bool
  | .unary => false
  | .stream _ => true

/-- Frames that submit something, wait for the deferred finish, or clear the call. -/
def Frame.writes : Frame → Bool
  | .onHeadersRest _ | .onDataRest _ | .fireCancel => false
  | _ => true

structure Writer where
  opened : Bool
  connClosed : Bool
  call : Option WriteSide
  stream : Option Bool               -- is the context a `StreamCtx`, if there is one
  h2 : Sender (Option CbId)
  todo : List Frame
  accepted : List Bytes
  finishCalls : List Status

/-- The writer of a state and a stack. -/
def writer (s : State) (fs : List Frame) : Writer where
  opened := s.opened
  connClosed := s.connClosed
  call := s.call.map Call.toWriteSide
  stream := s.ctx.map Ctx.isStream
  h2 := s.h2
  todo := fs.filter Frame.writes
  accepted := s.accepted
  finishCalls := s.finishCalls

/-- What a step executes: the rest of a function or an event; set apart are the request
    message on which `OnData` finishes the call and the chunk that the decoder rejects. -/
inductive Trigger where
  | frame (f : Frame)
  | event (e : Event)
  | overrun
  | violation (chunk : Bytes)

/-- The next request message is one too many: the second of a server-streaming call, or one
    more than 64 unread. -/
def overruns (s : State) : Bool :=
  s.call.any fun k =>
    k.decoder.hasMessage &&
      (k.form == .serverStreaming && k.dispatched ||
        k.form != .unary && !k.readFinished && k.readCb.isNone &&
          decide (64 ≤ k.pendingMsgs.length))

/-- The decoder rejects the chunk. -/
def rejects (s : State) (chunk : Bytes) : Bool :=
  s.call.any fun k => !k.requestDone && !chunk.isEmpty && !(k.decoder.consume chunk).1.ok

def trigger (c : Conf) : Label → Option Trigger
  | .resume =>
      match c.frames with
      | [] => none
      | .onDataRest e :: _ => some (if overruns c.st then .overrun else .frame (.onDataRest e))
      | f :: _ => some (.frame f)
  | .event (.data chunk e) =>
      some (if rejects c.st chunk then .violation chunk else .event (.data chunk e))
  | .event e => some (.event e)

/-- The four kinds of steps. -/
inductive Triggers (c : Conf) : Label → Trigger → Prop where
  | frame {f fs} : c.frames = f :: fs → (∀ e, f = .onDataRest e → overruns c.st = false) →
      Triggers c .resume (.frame f)
  | overrun {e fs} : c.frames = .onDataRest e :: fs → overruns c.st = true →
      Triggers c .resume .overrun
  | event {e} : (∀ chunk b, e = .data chunk b → rejects c.st chunk = false) →
      Triggers c (.event e) (.event e)
  | violation {chunk e} : rejects c.st chunk = true →
      Triggers c (.event (.data chunk e)) (.violation chunk)

theorem triggers_of_trigger {c : Conf} {l : Label} {t : Trigger} (h : trigger c l = some t) :
    Triggers c l t := by
  cases l with
  | resume =>
      obtain ⟨s, fs⟩ := c
      match fs, h with
      | .onDataRest e :: fs, h =>
          simp only [trigger, Option.some.injEq] at h
          split at h
          · next hov =>
              cases h
              exact .overrun rfl hov
          · next hov =>
              cases h
              exact .frame rfl fun _ _ => by simpa using hov
      | .onHeadersRest _ :: _, h | .respondData _ :: _, h | .respondTrailers :: _, h
      | .onDeadlineRest :: _, h | .pumpOutData _ :: _, h | .consumedRest :: _, h
      | .cancelOut :: _, h | .fireCancel :: _, h | .closeErase :: _, h =>
          cases h
          exact .frame rfl (by simp)
  | event e =>
      cases e with
      | data chunk b =>
          simp only [trigger, Option.some.injEq] at h
          split at h
          · next hrej =>
              cases h
              exact .violation hrej
          · next hrej =>
              cases h
              refine .event ?_
              rintro _ _ ⟨⟩
              simpa using hrej
      | headers | deadline | pump | connectionLost | streamClose | credit | consumed | op =>
          cases h
          exact .event (by simp)

/-- `Finish`, or `Respond` on a stream. -/
def Trigger.finishes : Trigger → Bool
  | .event (.op (.finish _)) | .event (.op (.respond ..)) => true
  | _ => false

/-- A finish that comes from the handler is recorded; one from `OnData` is not. -/
def Recorded (t : Trigger) (st : Status) (before after : List Status) : Prop :=
  (after = before ++ [st] ∧ t.finishes = true) ∨ (after = before ∧ t = .overrun)

namespace Writer

/-- The call's fields after the message at the head of `queue` went to the session. -/
def pumped (k : WriteSide) (queue : List OutMsg) : WriteSide :=
  { k with outQueue := queue, outInflight := true }

/-- `PumpOut` with something to do: before the response headers it sends them and leaves the
    body for a frame, after them it sends the body. -/
inductive Pump (v : Writer) (k : WriteSide) (out : OutMsg) (queue : List OutMsg) :
    Writer → Prop where
  | first : k.responseHeadersSent = false →
      Pump v k out queue { v with
        call := some { pumped k queue with responseHeadersSent := true }
        h2 := v.h2.sendHeaders responseHeaders false
        todo := .pumpOutData out :: v.todo }
  | next : k.responseHeadersSent = true →
      Pump v k out queue { v with
        call := some (pumped k queue)
        h2 := v.h2.sendData out.framed false (some out.cb) }

inductive Step : Trigger → Writer → Writer → Prop where
  | quiet {t v} : Step t v v
  -- OnHeadersComplete
  | badHeaders {v fields e} : v.opened = false → v.call = none →
      Step (.event (.headers fields e)) v { v with
        opened := true, h2 := v.h2.sendHeaders (trailersOnlyFields badRequestHeaders) true }
  | created {v fields e form} : v.opened = false → v.call = none → v.stream = none →
      form = .unary ∨ form = .serverStreaming →
      Step (.event (.headers fields e)) v { v with
        opened := true, call := some { form, hasHandler := true } }
  | unrouted {v fields e} : v.opened = false → v.call = none → v.stream = none →
      Step (.event (.headers fields e)) v { v with opened := true, call := some {} }
  | createdStream {v fields e form} : v.opened = false → v.call = none → v.stream = none →
      form = .clientStreaming ∨ form = .bidi →
      Step (.event (.headers fields e)) v { v with
        opened := true
        call := some { form, hasHandler := true, dispatched := true }
        stream := some true }
  -- FinishRequest and the message loop of OnData
  | requestEnded {t v k} : v.call = some k →
      Step t v { v with call := some { k with requestDone := true } }
  | answered {t v k st} : v.call = some k → v.stream = none → k.responded = false →
      Step t v { v with
        call := some { k with requestDone := true, responded := true }
        h2 := v.h2.sendHeaders (trailersOnlyFields st) true }
  | dispatchedUnary {t v k} : v.call = some k → v.stream = none → k.form = .unary →
      k.hasHandler = true →
      Step t v { v with call := some { k with requestDone := true }, stream := some false }
  | dispatchedStream {t v k done} : v.call = some k → v.stream = none →
      k.form = .serverStreaming → k.hasHandler = true →
      Step t v { v with
        call := some { k with requestDone := done, dispatched := true }, stream := some true }
  | rejected {v k chunk} : v.call = some k → k.responded = false →
      Step (.violation chunk) v { v with call := some { k with responded := true } }
  -- Respond
  | respondOk {v k st payload} : v.call = some k → v.stream = some false →
      k.responded = false →
      Step (.event (.op (.respond st payload))) v { v with
        call := some { k with responded := true }
        h2 := v.h2.sendHeaders responseHeaders false
        todo := .respondData (encodeFrame payload) :: v.todo }
  | respondErr {v k st payload} : v.call = some k → v.stream = some false →
      k.responded = false →
      Step (.event (.op (.respond st payload))) v { v with
        call := some { k with responded := true }
        h2 := v.h2.sendHeaders (trailersOnlyFields st) true }
  | respondData {v framed rest} : v.todo = .respondData framed :: rest →
      Step (.frame (.respondData framed)) v { v with
        h2 := v.h2.sendData framed false none, todo := .respondTrailers :: rest }
  | respondTrailers {v rest} : v.todo = .respondTrailers :: rest →
      Step (.frame .respondTrailers) v { v with
        h2 := v.h2.sendTrailers [("grpc-status", str "0")], todo := rest }
  -- OnDeadline
  | deadlineFired {v timer} : v.todo = [] →
      Step (.event (.deadline timer)) v { v with todo := [.onDeadlineRest] }
  | deadlineLate {v rest} : v.todo = .onDeadlineRest :: rest →
      (∀ k, v.call = some k → k.responded = true) →
      Step (.frame .onDeadlineRest) v { v with todo := rest }
  | deadlineTrailers {v k rest} : v.todo = .onDeadlineRest :: rest → v.call = some k →
      k.responded = false → k.form ≠ .unary → k.responseHeadersSent = true →
      Step (.frame .onDeadlineRest) v { v with
        call := some { k with responded := true }
        h2 := v.h2.sendTrailers (grpcStatusFields deadlineExceeded)
        todo := rest }
  | deadlineOnly {v k rest} : v.todo = .onDeadlineRest :: rest → v.call = some k →
      k.responded = false → k.form = .unary ∨ k.responseHeadersSent = false →
      Step (.frame .onDeadlineRest) v { v with
        call := some { k with responded := true }
        h2 := v.h2.sendHeaders (trailersOnlyFields deadlineExceeded) true
        todo := rest }
  -- WriteMessage, WriteDone and PumpOut
  | queued {v k msg cb} : v.call = some k → v.stream = some true → k.responded = false →
      k.writeClosed = false → k.outInflight = true →
      Step (.event (.op (.writeMessage msg cb))) v { v with
        call := some { k with outQueue := k.outQueue ++ [⟨encodeFrame msg, cb⟩] }
        accepted := v.accepted ++ [msg] }
  | written {v w k msg cb out queue} : v.call = some k → v.stream = some true →
      k.responded = false → k.writeClosed = false → k.outInflight = false →
      k.outQueue ++ [⟨encodeFrame msg, cb⟩] = out :: queue →
      Pump { v with accepted := v.accepted ++ [msg] } k out queue w →
      Step (.event (.op (.writeMessage msg cb))) v w
  | pumped {v w k out queue} : v.call = some k → k.outQueue = out :: queue →
      k.responded = false → k.writeClosed = false → k.outInflight = false →
      Pump v k out queue w → Step (.event .pump) v w
  | pumpOutData {v out rest} : v.todo = .pumpOutData out :: rest →
      Step (.frame (.pumpOutData out)) v { v with
        h2 := v.h2.sendData out.framed false (some out.cb), todo := rest }
  | writeDone {v k} : v.call = some k →
      Step (.event (.op .writeDone)) v { v with call := some { k with writeClosed := true } }
  -- the consumed notification
  | consumed {v cb notes} : v.h2.notes = cb :: notes →
      Step (.event .consumed) v { v with
        call := v.call.map fun k => { k with outInflight := false }
        h2 := { v.h2 with notes }
        todo := .consumedRest :: v.todo }
  | consumedRest {v rest} : v.todo = .consumedRest :: rest →
      (∀ k, v.call = some k → k.hasFinishPending = true →
        k.outInflight = true ∨ k.outQueue ≠ []) →
      Step (.frame .consumedRest) v { v with todo := rest }
  | deferredFinish {v k rest} : v.todo = .consumedRest :: rest → v.call = some k →
      k.hasFinishPending = true → k.outInflight = false → k.outQueue = [] →
      Step (.frame .consumedRest) v { v with
        call := some { k with hasFinishPending := false }
        h2 := v.h2.sendTrailers (grpcStatusFields k.finishPending)
        todo := rest }
  -- Finish
  | finishIgnored {t v st} : (∀ k, v.call = some k → k.responded = true) →
      Step t v { v with finishCalls := v.finishCalls ++ [st] }
  | finishDeferred {t v k st calls} : v.call = some k → v.stream = some true →
      k.responded = false → k.outInflight = true ∨ k.outQueue ≠ [] →
      Recorded t st v.finishCalls calls →
      Step t v { v with
        call := some { k with
          responded := true, writeClosed := true, finishPending := st, hasFinishPending := true }
        finishCalls := calls }
  | finishOnly {t v k st calls} : v.call = some k → v.stream = some true →
      k.responded = false → k.outInflight = false → k.outQueue = [] →
      k.responseHeadersSent = false → Recorded t st v.finishCalls calls →
      Step t v { v with
        call := some { k with responded := true, writeClosed := true }
        h2 := v.h2.sendHeaders (trailersOnlyFields st) true
        finishCalls := calls }
  | finishTrailers {t v k st calls} : v.call = some k → v.stream = some true →
      k.responded = false → k.outInflight = false → k.outQueue = [] →
      k.responseHeadersSent = true → Recorded t st v.finishCalls calls →
      Step t v { v with
        call := some { k with responded := true, writeClosed := true }
        h2 := v.h2.sendTrailers (grpcStatusFields st)
        finishCalls := calls }
  -- the session and the connection
  | credit {v n} : v.h2.closed = false →
      Step (.event (.credit n)) v { v with h2 := v.h2.credit n }
  | closeIdle {v} : v.h2.closed = false → v.call = none →
      Step (.event .streamClose) v { v with h2 := v.h2.close }
  | close {v} : v.h2.closed = false →
      Step (.event .streamClose) v { v with
        h2 := v.h2.close, todo := .cancelOut :: .closeErase :: v.todo }
  | connectionLost {v} : v.todo = [] →
      Step (.event .connectionLost) v { v with connClosed := true, todo := [.cancelOut] }
  | cancelOut {v k out queue rest} : v.todo = .cancelOut :: rest → v.call = some k →
      k.outQueue = out :: queue →
      Step (.frame .cancelOut) v { v with call := some { k with outQueue := queue } }
  | cancelEnd {v rest} : v.todo = .cancelOut :: rest →
      (∀ k, v.call = some k → k.outQueue = []) →
      Step (.frame .cancelOut) v { v with todo := rest }
  | erase {v rest} : v.todo = .closeErase :: rest →
      Step (.frame .closeErase) v { v with call := none, stream := none, todo := rest }

/-! ## Flags and context -/

/-- How the call's flags `r` and the kind of its context go together. -/
structure Dispatch (opened : Bool) (r : Option Routing) (stream : Option Bool) : Prop where
  fresh : opened = false → r = none
  noCall : r = none → stream = none
  unrouted : ∀ k, r = some k → k.hasHandler = false → stream = none ∧ k.form = .unary
  unary : ∀ k, r = some k → k.form = .unary →
    k.dispatched = false ∧ (stream = none ∨ stream = some false ∧ k.requestDone = true)
  streaming : ∀ k, r = some k → k.form ≠ .unary →
    stream = if k.dispatched then some true else none
  early : ∀ k, r = some k → k.form = .clientStreaming ∨ k.form = .bidi → k.dispatched = true

namespace Dispatch

variable {opened : Bool} {r : Routing} {stream : Option Bool}

theorem requestDone (hd : Dispatch opened (some r) stream) :
    Dispatch opened (some { r with requestDone := true }) stream := by
  have hopen : opened ≠ false := fun h => by cases hd.fresh h
  refine ⟨fun h => absurd h hopen, by simp, ?_, ?_, ?_, ?_⟩ <;> rintro _ ⟨⟩
  · exact hd.unrouted r rfl
  · intro hf
    obtain ⟨hdisp, hs | ⟨hs, -⟩⟩ := hd.unary r rfl hf
    · exact ⟨hdisp, .inl hs⟩
    · exact ⟨hdisp, .inr ⟨hs, rfl⟩⟩
  · exact hd.streaming r rfl
  · exact hd.early r rfl

theorem toUnary (hd : Dispatch opened (some r) stream) (hf : r.form = .unary)
    (hh : r.hasHandler = true) :
    Dispatch opened (some { r with requestDone := true }) (some false) := by
  have hopen : opened ≠ false := fun h => by cases hd.fresh h
  have hdisp := (hd.unary r rfl hf).1
  refine ⟨fun h => absurd h hopen, by simp, ?_, ?_, ?_, ?_⟩ <;> rintro _ ⟨⟩ <;>
    simp [hf, hh, hdisp]

theorem toStream (hd : Dispatch opened (some r) stream) (done : Bool)
    (hf : r.form = .serverStreaming) (hh : r.hasHandler = true) :
    Dispatch opened (some { r with requestDone := done, dispatched := true }) (some true) := by
  have hopen : opened ≠ false := fun h => by cases hd.fresh h
  refine ⟨fun h => absurd h hopen, by simp, ?_, ?_, ?_, ?_⟩ <;> rintro _ ⟨⟩ <;> simp [hf, hh]

end Dispatch

/-- `Dispatch` of a writer. -/
def Dispatched (v : Writer) : Prop :=
  Dispatch v.opened (v.call.map WriteSide.toRouting) v.stream

theorem dispatched_pump {v w : Writer} {k : WriteSide} {out : OutMsg} {queue : List OutMsg}
    (hc : v.call = some k) (hd : Dispatched v) (h : Pump v k out queue w) : Dispatched w := by
  unfold Dispatched at hd ⊢
  rw [hc] at hd
  cases h <;> exact hd

theorem dispatched_step {t : Trigger} {v w : Writer} (hd : Dispatched v) (h : Step t v w) :
    Dispatched w := by
  cases h with
  | quiet => exact hd
  | badHeaders ho hc =>
      unfold Dispatched at hd ⊢
      rw [hc] at hd ⊢
      exact ⟨by simp, hd.noCall, by simp, by simp, by simp, by simp⟩
  | created _ _ hs hf =>
      unfold Dispatched
      rcases hf with rfl | rfl <;> constructor <;> simp [hs]
  | unrouted _ _ hs =>
      unfold Dispatched
      constructor <;> simp [hs]
  | createdStream _ _ _ hf =>
      unfold Dispatched
      rcases hf with rfl | rfl <;> constructor <;> simp
  | requestEnded hc | answered hc =>
      unfold Dispatched at hd ⊢
      rw [hc] at hd
      exact hd.requestDone
  | dispatchedUnary hc _ hf hh =>
      unfold Dispatched at hd ⊢
      rw [hc] at hd
      exact hd.toUnary hf hh
  | dispatchedStream hc _ hf hh =>
      unfold Dispatched at hd ⊢
      rw [hc] at hd
      exact hd.toStream _ hf hh
  | written hc _ _ _ _ _ hp =>
      refine dispatched_pump ?_ ?_ hp
      · exact hc
      · exact hd
  | pumped hc _ _ _ _ hp => exact dispatched_pump hc hd hp
  | consumed =>
      unfold Dispatched at hd ⊢
      cases hc : v.call <;> simpa [hc] using hd
  | erase =>
      unfold Dispatched
      constructor <;> simp
  | rejected hc | respondOk hc | respondErr hc | deadlineTrailers _ hc | deadlineOnly _ hc
  | queued hc | writeDone hc | deferredFinish _ hc | finishDeferred hc | finishOnly hc
  | finishTrailers hc | cancelOut _ hc =>
      unfold Dispatched at hd ⊢
      rw [hc] at hd
      exact hd
  | respondData | respondTrailers | deadlineFired | deadlineLate | pumpOutData | consumedRest
  | finishIgnored | credit | closeIdle | close | connectionLost | cancelEnd => exact hd

end Writer

/-! ## Every step of the stream is a rule -/

open Writer

section Functions

variable {t : Trigger} {s : State} {fs : List Frame}

theorem writer_setCall (k : Call) :
    writer (s.setCall k) fs = { writer s fs with call := some k.toWriteSide } := rfl

theorem writer_sendHeaders (fields : HeaderMap) (endStream : Bool) :
    writer (s.sendHeaders fields endStream) fs =
      { writer s fs with h2 := (writer s fs).h2.sendHeaders fields endStream } := rfl

theorem writer_sendTrailers (fields : HeaderMap) :
    writer (s.sendTrailers fields) fs =
      { writer s fs with h2 := (writer s fs).h2.sendTrailers fields } := rfl

theorem writer_stopDeadline (k : Call) :
    writer (stopDeadline s k) fs = { writer s fs with call := some k.toWriteSide } := rfl

theorem finishStream_step {st : Status} {calls : List Status}
    (hr : Recorded t st s.finishCalls calls) (hs : (writer s fs).stream = some true) :
    Step t (writer s fs) (writer (finishStream { s with finishCalls := calls } st) fs) := by
  have hlate : (∀ k, s.call = some k → k.responded = true) →
      Step t (writer s fs) (writer { s with finishCalls := calls } fs) := by
    intro hk
    rcases hr with ⟨rfl, -⟩ | ⟨rfl, -⟩
    · refine Step.finishIgnored ?_
      intro k hc
      obtain ⟨k', hk', rfl⟩ := Option.map_eq_some_iff.mp hc
      exact hk k' hk'
    · exact Step.quiet
  unfold finishStream
  split
  · next k hc =>
      have hw : (writer s fs).call = some k.toWriteSide := congrArg (Option.map _) hc
      split
      · next hresp =>
          refine hlate fun k' hk' => ?_
          cases hc.symm.trans hk'
          exact hresp
      · next hresp =>
          have hresp' : k.responded = false := by simpa using hresp
          dsimp only
          split
          · next hout =>
              have hout' : k.outInflight = true ∨ k.outQueue ≠ [] := by simpa using hout
              rw [writer_setCall, writer_stopDeadline]
              exact Step.finishDeferred hw hs hresp' hout' hr
          · next hout =>
              obtain ⟨hinf, hq⟩ : k.outInflight = false ∧ k.outQueue = [] := by simpa using hout
              split
              · next hh =>
                  rw [sendTrailersOnly, writer_sendHeaders, writer_stopDeadline]
                  exact Step.finishOnly hw hs hresp' hinf hq (by simpa using hh) hr
              · next hh =>
                  rw [writer_sendTrailers, writer_stopDeadline]
                  exact Step.finishTrailers hw hs hresp' hinf hq (by simpa using hh) hr
  · next hc =>
      refine hlate fun k hk => ?_
      cases hc.symm.trans hk

theorem pumpOut_step (s : State) (fs : List Frame) :
    (pumpOut s = (s, []) ∧ ∀ k, s.call = some k →
      k.outQueue = [] ∨ k.outInflight = true ∨ k.responded = true ∨ k.writeClosed = true) ∨
    ∃ k out queue, s.call = some k ∧ k.outQueue = out :: queue ∧ k.responded = false ∧
      k.writeClosed = false ∧ k.outInflight = false ∧
      Pump (writer s fs) k.toWriteSide out queue
        (writer (pumpOut s).1 ((pumpOut s).2 ++ fs)) := by
  cases hc : s.call with
  | none => exact .inl ⟨by simp [pumpOut, hc], by simp⟩
  | some k =>
      cases hq : k.outQueue with
      | nil => exact .inl ⟨by simp [pumpOut, hc, hq], by simp [hq]⟩
      | cons out queue =>
          by_cases hb : (k.outInflight || k.responded || k.writeClosed) = true
          · refine .inl ⟨by simp only [pumpOut, hc, hq, if_pos hb], ?_⟩
            rintro _ ⟨⟩
            exact .inr (by simpa [or_assoc] using hb)
          · obtain ⟨⟨hi, hr⟩, hwc⟩ :
                (k.outInflight = false ∧ k.responded = false) ∧ k.writeClosed = false := by
              simpa using hb
            refine .inr ⟨k, out, queue, rfl, hq, hr, hwc, hi, ?_⟩
            simp only [pumpOut, hc, hq, if_neg hb]
            split
            · next hh => exact Pump.first (by simpa using hh)
            · next hh => exact Pump.next (by simpa using hh)

theorem writer_note (o : Obs) : writer (s.note o) fs = writer s fs := rfl

/-- Changing only read-side fields of the call changes nothing here. -/
theorem writer_setCall_of_eq {k k' : Call} (hc : s.call = some k)
    (hk : k'.toWriteSide = k.toWriteSide) : writer (s.setCall k') fs = writer s fs := by
  rw [writer_setCall, hk]
  have hw : (writer s fs).call = some k.toWriteSide := congrArg (Option.map _) hc
  rw [← hw]

theorem deliverRead_eos (st : Status) (msg : Bytes) :
    writer (deliverRead s st true msg) fs = writer s fs := by
  unfold deliverRead
  split
  · next k hc =>
      split
      · rfl
      · simp only [Bool.or_true, if_true]
        split
        · rw [writer_note]
          exact writer_setCall_of_eq hc rfl
        · exact writer_setCall_of_eq hc rfl
  · rfl

theorem setCall_quiet {k k' : Call} (hc : s.call = some k)
    (hk : k'.toWriteSide = k.toWriteSide) : Step t (writer s fs) (writer (s.setCall k') fs) := by
  rw [writer_setCall_of_eq hc hk]
  exact Step.quiet

theorem deliverRead_step (msg : Bytes) (hs : (writer s fs).stream = some true)
    (ht : ∀ k, s.call = some k → k.readFinished = false → k.readCb = none →
      64 ≤ k.pendingMsgs.length → t = .overrun) :
    Step t (writer s fs) (writer (deliverRead s .okay false msg) fs) := by
  unfold deliverRead
  split
  · next k hc =>
      split
      · exact Step.quiet
      · next hfin =>
        simp only [Status.ok_okay, Bool.not_true, Bool.or_self, Bool.false_eq_true, if_false]
        split
        · exact setCall_quiet hc rfl
        · next hcb =>
          split
          · next hfull =>
            have ht' := ht k hc (by simpa using hfin) hcb hfull
            exact finishStream_step (.inr ⟨rfl, ht'⟩) hs
          · exact setCall_quiet hc rfl
  · exact Step.quiet

/-- `TrailersOnly` after END_STREAM, on a call without a context. -/
theorem trailersOnly_step {k k' : Call} {st : Status} (hc : s.call = some k)
    (hk : k'.toWriteSide = { k.toWriteSide with requestDone := true })
    (hs : (writer s fs).stream = none) :
    Step t (writer s fs) (writer (trailersOnly (s.setCall k') st) fs) := by
  have hw : (writer s fs).call = some k.toWriteSide := congrArg (Option.map _) hc
  have hresp : k'.responded = k.responded := by rw [hk]
  unfold trailersOnly
  simp only [State.setCall]
  split
  · change Step t (writer s fs) (writer (s.setCall k') fs)
    rw [writer_setCall, hk]
    exact Step.requestEnded hw
  · next hr =>
      rw [sendTrailersOnly, writer_sendHeaders, writer_stopDeadline]
      change Step t (writer s fs) { writer s fs with
        call := some { k'.toWriteSide with responded := true }
        h2 := (writer s fs).h2.sendHeaders (trailersOnlyFields st) true }
      rw [hk]
      exact Step.answered hw hs (by rw [← hresp]; simpa using hr)

theorem finishRequest_step (hd : Dispatched (writer s fs)) :
    Step t (writer s fs) (writer (finishRequest s) fs) := by
  unfold finishRequest
  split
  · exact Step.quiet
  · next k hc =>
      have hw : (writer s fs).call = some k.toWriteSide := congrArg (Option.map _) hc
      rw [Dispatched, hw] at hd
      split
      · exact Step.quiet
      · next hdone =>
          dsimp only
          split
          · next hh =>
              exact trailersOnly_step hc rfl (hd.unrouted _ rfl (by simpa using hh)).1
          · next hh =>
              have hh' : k.hasHandler = true := by simpa using hh
              split
              · next hf =>
                  have hs : (writer s fs).stream = none := by
                    rcases (hd.unary _ rfl hf).2 with hs | ⟨-, hdone'⟩
                    · exact hs
                    · exact absurd hdone' hdone
                  split
                  · exact trailersOnly_step hc rfl hs
                  · split
                    · exact trailersOnly_step hc rfl hs
                    · exact Step.dispatchedUnary hw hs hf hh'
              · next hf =>
                  have hstr := hd.streaming _ rfl (by simp [hf])
                  split
                  · next hdisp =>
                      have hdisp' : k.dispatched = false := by simpa using hdisp
                      have hs : (writer s fs).stream = none := by simpa [hdisp'] using hstr
                      split
                      · exact trailersOnly_step hc rfl hs
                      · simp only [dispatchStream, State.setCall, hdisp', Bool.false_eq_true,
                          if_false]
                        exact Step.dispatchedStream hw hs hf hh'
                  · rw [deliverRead_eos]
                    exact Step.requestEnded hw
              · next hfu hfs =>
                  have hdisp : k.dispatched = true :=
                    hd.early _ rfl (by cases hf : k.form <;> simp_all)
                  rw [if_neg (by simp [hdisp]), deliverRead_eos]
                  exact Step.requestEnded hw

theorem respondError_step {st : Status} {chunk : Bytes} :
    Step (.violation chunk) (writer s fs) (writer (respondError s st) fs) := by
  unfold respondError
  split
  · next k hc =>
      have hw : (writer s fs).call = some k.toWriteSide := congrArg (Option.map _) hc
      split
      · exact Step.quiet
      · next hr =>
          -- the guard just set makes `TrailersOnly` return
          have hsilent : trailersOnly (stopDeadline s { k with responded := true }) st =
              stopDeadline s { k with responded := true } := rfl
          rw [hsilent, writer_stopDeadline]
          exact Step.rejected hw (by simpa using hr)
  · exact Step.quiet

theorem onData_step {chunk : Bytes} {e : Bool} (ht : rejects s chunk = true → t = .violation chunk) :
    Step t (writer s fs) (writer (onData s chunk e).1 ((onData s chunk e).2 ++ fs)) := by
  unfold onData
  split
  · exact Step.quiet
  · next k hc =>
      split
      · exact Step.quiet
      · next hdone =>
        have hset : ∀ decoder : FrameDecoder,
            writer { s.setCall { k with decoder } with recv := s.recv ++ chunk } fs =
              writer s fs := fun decoder => writer_setCall_of_eq hc rfl
        dsimp only
        generalize hr : (if chunk.isEmpty = true then (Status.okay, k.decoder)
          else k.decoder.consume chunk) = r
        split
        · next hbad =>
          have hrej : rejects s chunk = true := by
            split at hr
            · subst hr
              simp at hbad
            · next hne => simp_all [rejects]
          obtain rfl := ht hrej
          rw [← hset r.2]
          exact respondError_step
        · rw [← hset r.2]
          exact Step.quiet

theorem onDataRest_step {e : Bool} (hd : Dispatched (writer s fs))
    (ht : overruns s = true → t = .overrun) :
    Step t (writer s fs) (writer (onDataRest s e).1 ((onDataRest s e).2 ++ fs)) := by
  unfold onDataRest
  split
  · exact Step.quiet
  · next k hc =>
      have hw : (writer s fs).call = some k.toWriteSide := congrArg (Option.map _) hc
      have hd' := hd
      rw [Dispatched, hw] at hd'
      split
      · next hloop =>
          have hstr := hd'.streaming _ rfl hloop.1
          have hset : ∀ decoder : FrameDecoder,
              writer (s.setCall { k with decoder }) fs = writer s fs :=
            fun decoder => writer_setCall_of_eq hc rfl
          dsimp only
          split
          · next hf =>
              have hh : k.hasHandler = true := by
                by_contra hne
                exact hloop.1 (hd'.unrouted _ rfl (by simpa using hne)).2
              split
              · next hdisp =>
                  have ht' := ht (by simp [overruns, hc, hloop.2, hf, hdisp])
                  rw [← hset k.decoder.takeMessage.2]
                  refine finishStream_step (.inr ⟨rfl, ht'⟩) ?_
                  rw [hset, hstr, if_pos hdisp]
              · next hdisp =>
                  have hdisp' : k.dispatched = false := by simpa using hdisp
                  have hs : (writer s fs).stream = none := by rw [hstr, if_neg hdisp]
                  simp only [dispatchStream, State.setCall, hdisp', Bool.false_eq_true, if_false]
                  exact Step.dispatchedStream hw hs hf hh
          · next hf =>
              have hdisp : k.dispatched = true :=
                hd'.early _ rfl (by cases hf' : k.form <;> simp_all)
              rw [← hset k.decoder.takeMessage.2]
              refine deliverRead_step _ ?_ ?_
              · rw [hset, hstr, if_pos hdisp]
              · rintro _ ⟨⟩ hfin hcb hfull
                exact ht (by simp_all [overruns])
      · split
        · exact finishRequest_step hd
        · exact Step.quiet

theorem routedCall_fresh (cfg : Config) (path : Bytes) (hc : s.call = none) :
    (∃ form, (routedCall cfg s path).toWriteSide = { form, hasHandler := true }) ∨
      (routedCall cfg s path).toWriteSide = {} := by
  unfold routedCall
  rw [hc]
  cases cfg.router path with
  | some form => exact .inl ⟨form, rfl⟩
  | none => exact .inr rfl

theorem writer_armDeadline (k : Call) (headers : HeaderMap) :
    writer (armDeadline s k headers) fs = { writer s fs with call := some k.toWriteSide } := by
  unfold armDeadline
  dsimp only
  split <;> rfl

theorem writer_dispatchStream {k : WriteSide} {first : Option Bytes}
    (hc : (writer s fs).call = some k) (hd : k.dispatched = false) :
    writer (dispatchStream s first) fs =
      { writer s fs with call := some { k with dispatched := true }, stream := some true } := by
  obtain ⟨k', hk', rfl⟩ := Option.map_eq_some_iff.mp hc
  unfold dispatchStream
  split
  · next k'' hk'' =>
      cases hk'.symm.trans hk''
      rw [if_neg (by simp [hd])]
      rfl
  · next hnone => cases hk'.symm.trans hnone

theorem onHeadersComplete_step {cfg : Config} {headers : HeaderMap} {e : Bool}
    (hd : Dispatched (writer s fs)) (ho : s.opened = false) :
    Step (.event (.headers headers e)) (writer s fs)
      (writer (onHeadersComplete cfg { s with opened := true } headers e).1
        ((onHeadersComplete cfg { s with opened := true } headers e).2 ++ fs)) := by
  have hw : (writer s fs).call = none := by simpa using hd.fresh ho
  have hs := hd.noCall (by simp [hw])
  have hc : s.call = none := by simpa [writer] using hw
  have hbad : Step (.event (.headers headers e)) (writer s fs)
      (writer (trailersOnly { s with opened := true } badRequestHeaders) fs) := by
    unfold trailersOnly
    split
    · next hk => cases hc.symm.trans hk
    · exact Step.badHeaders ho hw
  unfold onHeadersComplete
  split
  · next ct path _ _ =>
      split
      · exact hbad
      · have hk := routedCall_fresh (s := { s with opened := true }) cfg path hc
        dsimp only
        generalize routedCall cfg { s with opened := true } path = k at hk ⊢
        have harm : writer (armDeadline { s with opened := true } k headers) fs = _ :=
          writer_armDeadline k headers
        change Step _ _ (writer (if _ then _ else _) fs)
        split
        · next hdisp =>
            rcases hk with ⟨form, hk⟩ | hk
            · simp only [hk, Bool.true_and, Bool.or_eq_true, beq_iff_eq] at hdisp
              rw [writer_dispatchStream (congrArg Writer.call harm) (by rw [hk]), harm, hk]
              exact Step.createdStream ho hw hs hdisp
            · simp [hk] at hdisp
        · next hdisp =>
            rw [harm]
            rcases hk with ⟨form, hk⟩ | hk
            · rw [hk] at hdisp ⊢
              refine Step.created ho hw hs ?_
              cases form <;> simp_all
            · rw [hk]
              exact Step.unrouted ho hw hs
  · exact hbad

theorem respond_step {st : Status} {payload : Bytes} (hs : (writer s fs).stream = some false) :
    Step (.event (.op (.respond st payload))) (writer s fs)
      (writer (respond s st payload).1 ((respond s st payload).2 ++ fs)) := by
  unfold respond
  split
  · next k hc =>
      have hw : (writer s fs).call = some k.toWriteSide := congrArg (Option.map _) hc
      split
      · exact Step.quiet
      · next hr =>
          have hr' : k.responded = false := by simpa using hr
          dsimp only
          split
          · exact Step.respondOk hw hs hr'
          · exact Step.respondErr hw hs hr'
  · exact Step.quiet

theorem writeMessage_step {msg : Bytes} {cb : Option CbId}
    (hs : (writer s fs).stream = some true) :
    Step (.event (.op (.writeMessage msg cb))) (writer s fs)
      (writer (writeMessage s msg cb).1 ((writeMessage s msg cb).2 ++ fs)) := by
  have htell : ∀ st, Step (.event (.op (.writeMessage msg cb))) (writer s fs)
      (writer (tellWriter s cb st) fs) := by
    intro st
    cases cb <;> exact Step.quiet
  unfold writeMessage
  split
  · exact htell _
  · next k hc =>
      have hw : (writer s fs).call = some k.toWriteSide := congrArg (Option.map _) hc
      split
      · exact htell _
      · next hopen =>
          obtain ⟨hr, hwc⟩ : k.responded = false ∧ k.writeClosed = false := by
            simpa using hopen
          split
          · exact htell _
          · rcases pumpOut_step { s.setCall
                { k with outQueue := k.outQueue ++ [⟨encodeFrame msg, cb⟩] } with
                accepted := s.accepted ++ [msg] } fs with ⟨hidle, hwhy⟩ | hpump
            · rw [hidle]
              have hinf : k.outInflight = true := by simpa [hr, hwc] using hwhy _ rfl
              exact Step.queued hw hs hr hwc hinf
            · obtain ⟨_, out, queue, ⟨⟩, hq, -, -, hinf, hpump⟩ := hpump
              refine Step.written hw hs hr hwc hinf hq ?_
              generalize writer (pumpOut _).1 _ = w at hpump ⊢
              cases hpump with
              | first hh => exact Pump.first hh
              | next hh => exact Pump.next hh

theorem onDeadlineRest_step {rest : List Frame} (hf : fs = .onDeadlineRest :: rest) :
    Step (.frame .onDeadlineRest) (writer s fs) (writer (onDeadlineRest s) rest) := by
  subst hf
  have htodo : (writer s (.onDeadlineRest :: rest)).todo =
    .onDeadlineRest :: rest.filter Frame.writes := rfl
  unfold onDeadlineRest
  split
  · next k hc =>
      have hw : (writer s (.onDeadlineRest :: rest)).call = some k.toWriteSide :=
        congrArg (Option.map _) hc
      split
      · next hr =>
          refine Step.deadlineLate htodo ?_
          intro k' hk'
          cases hw.symm.trans hk'
          exact hr
      · next hr =>
          have hr' : k.responded = false := by simpa using hr
          dsimp only
          split
          · next hh => exact Step.deadlineTrailers htodo hw hr' hh.1 hh.2
          · next hh =>
              refine Step.deadlineOnly htodo hw hr' ?_
              by_cases hf : k.form = .unary
              · exact .inl hf
              · exact .inr (by simpa [hf] using hh)
  · next hc =>
      refine Step.deadlineLate htodo ?_
      intro k hk
      simp [writer, hc] at hk

theorem consumedRest_step {rest : List Frame} (hf : fs = .consumedRest :: rest) :
    Step (.frame .consumedRest) (writer s fs)
      (writer (maybeSendDeferredFinish { s with posted := s.posted + 1 }) rest) := by
  subst hf
  have htodo : (writer s (.consumedRest :: rest)).todo =
    .consumedRest :: rest.filter Frame.writes := rfl
  have hskip : (∀ k, s.call = some k → k.hasFinishPending = true →
        k.outInflight = true ∨ k.outQueue ≠ []) →
      Step (.frame .consumedRest) (writer s (.consumedRest :: rest))
        (writer { s with posted := s.posted + 1 } rest) := by
    intro hk
    refine Step.consumedRest htodo ?_
    intro k hc
    obtain ⟨k', hk', rfl⟩ := Option.map_eq_some_iff.mp hc
    exact hk k' hk'
  unfold maybeSendDeferredFinish
  split
  · next k hc =>
      have hw : (writer s (.consumedRest :: rest)).call = some k.toWriteSide :=
        congrArg (Option.map _) hc
      split
      · next hp =>
          refine hskip fun k' hk' hp' => ?_
          cases hc.symm.trans hk'
          simp [hp'] at hp
      · next hp =>
          split
          · next hout =>
              refine hskip fun k' hk' _ => ?_
              cases hc.symm.trans hk'
              simpa using hout
          · next hout =>
              obtain ⟨hinf, hq⟩ : k.outInflight = false ∧ k.outQueue = [] := by simpa using hout
              exact Step.deferredFinish htodo hw (by simpa using hp) hinf hq
  · next hc =>
      refine hskip fun k hk => ?_
      cases hc.symm.trans hk

theorem cancelOut_step {rest : List Frame} (hf : fs = .cancelOut :: rest) :
    Step (.frame .cancelOut) (writer s fs) (writer (cancelOut s).1 ((cancelOut s).2 ++ rest)) := by
  subst hf
  have htodo : (writer s (.cancelOut :: rest)).todo =
    .cancelOut :: rest.filter Frame.writes := rfl
  unfold cancelOut
  split
  · next k hc =>
      have hw : (writer s (.cancelOut :: rest)).call = some k.toWriteSide :=
        congrArg (Option.map _) hc
      split
      · next hq =>
          refine Step.cancelEnd htodo ?_
          intro k' hk'
          cases hw.symm.trans hk'
          exact hq
      · next out queue hq =>
          dsimp only
          split <;> exact Step.cancelOut htodo hw hq
  · next hc =>
      refine Step.cancelEnd htodo ?_
      intro k hk
      simp [writer, hc] at hk

theorem readMessage_quiet {first : Option Bytes} {cb : CbId}
    (hs : s.ctx = some (.stream first)) : writer (readMessage s first cb) fs = writer s fs := by
  unfold readMessage
  split
  · rfl
  · next k hc =>
      split
      · rfl
      · split
        · simp [writer, State.note, hs, Ctx.isStream]
        · split
          · exact writer_setCall_of_eq hc rfl
          · split
            · exact writer_setCall_of_eq hc rfl
            · split
              · rfl
              · exact writer_setCall_of_eq hc rfl

theorem fireCancel_quiet : writer (fireCancel s) fs = writer s fs := by
  unfold fireCancel
  split
  · next k hc =>
      split
      · rfl
      · have hset : writer (s.setCall { k with cancelFired := true, cancelCbs := [] }) fs =
            writer s fs := writer_setCall_of_eq hc rfl
        exact hset
  · rfl

theorem cancelStreamIo_quiet : writer (cancelStreamIo s) fs = writer s fs := by
  unfold cancelStreamIo
  split
  · next k hc => split <;> exact writer_setCall_of_eq hc rfl
  · rfl

theorem onCancel_quiet (cb : CbId) : writer (onCancel s cb) fs = writer s fs := by
  unfold onCancel
  split
  · next k hc =>
      split
      · rfl
      · exact writer_setCall_of_eq hc rfl
  · rfl

theorem onConsumed_step {cb : Option CbId} {notes : List (Option CbId)}
    (hn : s.h2.notes = cb :: notes) :
    Step (.event .consumed) (writer s fs)
      (writer (onConsumed { s with h2 := { s.h2 with notes } } cb).1
        ((onConsumed { s with h2 := { s.h2 with notes } } cb).2 ++ fs)) := by
  have hcall : ∀ r : State × List Frame, r = onConsumed { s with h2 := { s.h2 with notes } } cb →
      r.2 = [.consumedRest] ∧ ∀ gs, writer r.1 gs = { writer s gs with
        call := (writer s gs).call.map fun k => { k with outInflight := false }
        h2 := { s.h2 with notes } } := by
    rintro _ rfl
    unfold onConsumed
    cases hc : s.call <;> cases cb <;>
      exact ⟨rfl, fun gs => by simp [writer, State.note, State.setCall, hc]⟩
  obtain ⟨hfr, hwr⟩ := hcall _ rfl
  rw [hfr, hwr]
  exact Step.consumed hn

theorem applyOp_step {o : Op} {r : State × List Frame} (h : applyOp s o = some r) :
    Step (.event (.op o)) (writer s fs) (writer r.1 (r.2 ++ fs)) := by
  have hstr : ∀ {ctx}, s.ctx = some ctx → (writer s fs).stream = some ctx.isStream :=
    fun hc => congrArg (Option.map Ctx.isStream) hc
  cases o with
  | respond st payload =>
      simp only [applyOp] at h
      split at h
      · next hc =>
          cases h
          exact respond_step (hstr hc)
      · next hc =>
          cases h
          exact finishStream_step (.inl ⟨rfl, rfl⟩) (hstr hc)
      · cases h
  | readMessage cb =>
      simp only [applyOp] at h
      split at h
      · next hc =>
          cases h
          rw [List.nil_append, readMessage_quiet hc]
          exact Step.quiet
      · cases h
  | writeMessage msg cb =>
      simp only [applyOp] at h
      split at h
      · next hc =>
          cases h
          exact writeMessage_step (hstr hc)
      · cases h
  | writeDone =>
      simp only [applyOp] at h
      split at h
      · cases h
        unfold writeDone
        split
        · next k hc => exact Step.writeDone (congrArg (Option.map _) hc)
        · exact Step.quiet
      · cases h
  | finish st =>
      simp only [applyOp] at h
      split at h
      · next hc =>
          cases h
          exact finishStream_step (.inl ⟨rfl, rfl⟩) (hstr hc)
      · cases h
  | onCancel cb =>
      simp only [applyOp] at h
      split at h
      · cases h
        rw [List.nil_append, onCancel_quiet]
        exact Step.quiet
      · cases h

theorem closeErase_step {rest : List Frame} (hd : Dispatched (writer s fs))
    (hf : fs = .closeErase :: rest) :
    Step (.frame .closeErase) (writer s fs) (writer (closeErase s) rest) := by
  subst hf
  have herase : Step (.frame .closeErase) (writer s (.closeErase :: rest))
      { writer s rest with call := none, stream := none } := Step.erase rfl
  unfold closeErase
  split
  · exact herase
  · next hc =>
      have hw : (writer s (.closeErase :: rest)).call = none := congrArg (Option.map _) hc
      have hs := hd.noCall (by rw [hw]; rfl)
      have hsame : ({ writer s rest with call := none, stream := none } : Writer) =
          writer s rest := by
        rw [← hw, ← hs]
        rfl
      rw [← hsame]
      exact herase

theorem fire_step {cfg : Config} {e : Event} {r : State × List Frame}
    (hd : Dispatched (writer s fs))
    (hone : ∀ fields b, e = .headers fields b → s.opened = false)
    (hen : (machine cfg).enabled e ⟨s, fs⟩ = true) (h : fire cfg e s = some r)
    (ht : trigger ⟨s, fs⟩ (.event e) = some t) :
    Step t (writer s fs) (writer r.1 (r.2 ++ fs)) := by
  have hbase : anytime e = false → fs = [] := fun he => (Resume.System.enabled_base he hen).1
  cases e with
  | headers fields b =>
      cases ht
      simp only [fire] at h
      split at h
      · cases h
      · cases h
        exact onHeadersComplete_step hd (hone fields b rfl)
  | data chunk b =>
      simp only [fire] at h
      split at h
      · cases h
        exact onData_step fun hrej => by simpa [trigger, hrej] using ht.symm
      · cases h
  | deadline timer =>
      cases ht
      obtain rfl := hbase rfl
      simp only [fire] at h
      split at h
      · split at h
        · cases h
          change Step _ _ (writer (fireCancel _) _)
          rw [fireCancel_quiet]
          exact Step.deadlineFired rfl
        · cases h
          exact Step.quiet
      · cases h
  | pump =>
      cases ht
      simp only [fire] at h
      split at h
      · cases h
        rcases pumpOut_step { s with posted := s.posted - 1 } fs with ⟨hidle, -⟩ | hpump
        · rw [hidle]
          exact Step.quiet
        · obtain ⟨k, out, queue, hc, hq, hr, hwc, hinf, hpump⟩ := hpump
          exact Step.pumped (congrArg (Option.map _) hc) hq hr hwc hinf hpump
      · cases h
  | connectionLost =>
      cases ht
      obtain rfl := hbase rfl
      simp only [fire] at h
      split at h
      · cases h
      · cases h
        change Step _ _ (writer (cancelStreamIo _) _)
        rw [cancelStreamIo_quiet]
        exact Step.connectionLost rfl
  | streamClose =>
      cases ht
      simp only [fire] at h
      split at h
      · next hc =>
          obtain ⟨-, hopen⟩ : s.opened = true ∧ s.h2.closed = false := by simpa using hc
          split at h
          · cases h
            change Step _ _ (writer (cancelStreamIo _) _)
            rw [cancelStreamIo_quiet]
            exact Step.close hopen
          · next hnone =>
              cases h
              exact Step.closeIdle hopen (by simpa [writer] using hnone)
      · cases h
  | credit n =>
      cases ht
      simp only [fire] at h
      split at h
      · cases h
      · next hc =>
          cases h
          have hopen : s.h2.closed = false := by simpa using hc
          exact Step.credit hopen
  | consumed =>
      cases ht
      simp only [fire] at h
      split at h
      · cases h
      · next hn =>
          cases h
          exact onConsumed_step hn
  | op o =>
      cases ht
      exact applyOp_step h

end Functions

/-- At most one header block arrives on the stream. -/
def oneBlock (c : Conf) : Label → Prop
  | .event (.headers ..) => c.st.opened = false
  | _ => True

instance (c : Conf) : (l : Label) → Decidable (oneBlock c l)
  | .event (.headers ..) => inferInstanceAs (Decidable (c.st.opened = false))
  | .event (.data ..) | .event (.deadline _) | .event .pump | .event .connectionLost
  | .event .streamClose | .event (.credit _) | .event .consumed | .event (.op _)
  | .resume => .isTrue trivial

/-- The writer of a configuration. -/
def Writer.of (c : Conf) : Writer := writer c.st c.frames

/-- **The rules are all there is.** -/
theorem writer_step {cfg : Config} {c d : Conf} {l : Label} (hd : Dispatched (.of c))
    (hl : oneBlock c l) (h : (machine cfg).step c l = some d) :
    ∃ t, trigger c l = some t ∧ Step t (.of c) (.of d) := by
  obtain ⟨s, fs⟩ := c
  cases l with
  | resume =>
      obtain ⟨f, rest, hf, rfl⟩ := Resume.System.step_resume h
      change fs = f :: rest at hf
      subst hf
      change Dispatched (writer s (f :: rest)) at hd
      change ∃ t, _ ∧ Step t (writer s (f :: rest)) (writer (exec f s).1 ((exec f s).2 ++ rest))
      cases f with
      | onHeadersRest e =>
          refine ⟨_, rfl, ?_⟩
          simp only [exec]
          split
          · exact finishRequest_step hd
          · exact Step.quiet
      | onDataRest e =>
          have hd' : Dispatched (writer s rest) := hd
          exact ⟨_, rfl, onDataRest_step hd' fun h => if_pos h⟩
      | respondData framed => exact ⟨_, rfl, Step.respondData rfl⟩
      | respondTrailers => exact ⟨_, rfl, Step.respondTrailers rfl⟩
      | onDeadlineRest => exact ⟨_, rfl, onDeadlineRest_step rfl⟩
      | pumpOutData out => exact ⟨_, rfl, Step.pumpOutData rfl⟩
      | consumedRest => exact ⟨_, rfl, consumedRest_step rfl⟩
      | cancelOut => exact ⟨_, rfl, cancelOut_step rfl⟩
      | fireCancel =>
          have hq : writer (fireCancel s) rest = writer s (.fireCancel :: rest) := fireCancel_quiet
          refine ⟨_, rfl, ?_⟩
          change Step _ _ (writer (fireCancel s) rest)
          rw [hq]
          exact Step.quiet
      | closeErase => exact ⟨_, rfl, closeErase_step hd rfl⟩
  | event e =>
      obtain ⟨hen, s', gs, hfire, rfl⟩ := Resume.System.step_event h
      obtain ⟨t, ht⟩ : ∃ t, trigger ⟨s, fs⟩ (.event e) = some t := by cases e <;> exact ⟨_, rfl⟩
      refine ⟨t, ht, fire_step hd ?_ hen hfire ht⟩
      rintro fields b rfl
      exact hl

end Urpc.Server
