/-
  The client channel (`Channel::Impl` of `urpc_channel.cc`): every call and stream of one
  channel, the queues that wait for the connection, the posted tasks and timers of its loop,
  and the sending side of each HTTP/2 stream.

  The functions are those of the source, under its names, cut at the session's flushes: what is
  left of a body after `SubmitRequest`, `SubmitRequestOpen` or `ResetStream` is a `Frame`. User
  callbacks can only post (every public function posts its work), so a call of one is an entry
  of `log` and does not cut a body.

  `machine` puts them together. Public functions, credit, consumed notifications and stream
  closes can happen inside a flush. Tasks, timers, connect results, header blocks, DATA and the
  loss of the connection start from the event loop, with no notification waiting.

  Assumed: a public function takes its id and posts its task in one step; a timer can fire at
  any time; an erase through an iterator that a callee has just erased has no effect
  (`staleErases` counts them). Left out: logging, `OnWrite`, the shutdown of the loop.
  `log`, `issued`, `accepted`, `armed` and `staleErases` are records kept for the proofs.
-/
import Urpc.Lib.Resume
import Urpc.Session.Sender

namespace Urpc.Channel

open Cxx

/-! ## State -/

structure Options where
  address : Bytes
  maxReceiveSize : Nat := FrameDecoder.defaultMaxMessageSize

/-- `Impl::State`. -/
inductive Phase where
  | idle
  | connecting
  | ready
  | broken
  deriving DecidableEq

/-- An `on_flushed` callback, by name. -/
abbrev CbId := Nat

/-- A `Call` on its way to `calls`: `done` is set and it is not completed. -/
structure NewCall where
  timeoutTimer : Nat := 0
  decoder : FrameDecoder

/-- A `Call` in `calls`; its `id` is its key. -/
structure Call extends NewCall where
  sid : Nat
  done : Bool := true              -- not moved out yet
  completed : Bool := false
  whole : completed = false → done = true := by simp

structure PendingCall where
  id : Nat
  path : Bytes
  framed : Bytes
  call : NewCall

structure OutMsg where
  framed : Bytes
  close : Bool
  cb : Option CbId
  deriving DecidableEq

/-- Which of the two callbacks are set. -/
structure StreamEvents where
  onMessage : Bool
  onComplete : Bool
  deriving DecidableEq

/-- A `Stream` in `streams`; its `id` is its key. `OpenStream` refuses a null `on_complete`. -/
structure Stream where
  sid : Nat
  timeoutTimer : Nat := 0
  decoder : FrameDecoder
  events : StreamEvents
  completed : Bool := false
  sendClosed : Bool := false
  rstPending : Bool := false
  outQueue : List OutMsg := []
  outInflight : Bool := false
  terminal : events.onComplete = true

structure PendingStream where
  id : Nat
  path : Bytes
  events : StreamEvents
  timeoutMs : Nat
  outQueue : List OutMsg := []
  terminal : events.onComplete = true

/-- What a posted task does. -/
inductive Task where
  | call (id : Nat) (path framed : Bytes) (timeoutMs : Nat) (call : NewCall)
  | cancel (id : Nat)
  | openStream (id : Nat) (path : Bytes) (events : StreamEvents) (timeoutMs : Nat)
  | streamSend (id : Nat) (framed : Bytes) (cb : Option CbId) (close : Bool)
  | streamCloseSend (id : Nat)
  | pumpStream (id : Nat)

/-- What a timer does, and after how many milliseconds. -/
inductive Alarm where
  | call (id timeoutMs : Nat)
  | stream (id timeoutMs : Nat)
  deriving DecidableEq

/-- The closure that `PumpStream` gives to `SendData`. -/
structure Closure where
  id : Nat
  cb : Option CbId

/-- A call of a user callback. -/
inductive Obs where
  | done (id : Nat) (st : Status) (payload : Bytes)
  | message (id : Nat) (st : Status) (msg : Bytes)
  | complete (id : Nat) (st : Status)
  | flushed (id : Nat) (cb : CbId) (st : Status)
  deriving DecidableEq

/-- A callback that a user has handed over and waits for. -/
inductive Token where
  | done (id : Nat)
  | complete (id : Nat)
  | flushed (id : Nat) (cb : CbId)
  deriving DecidableEq

structure State where
  options : Options
  phase : Phase := .idle
  session : Bool := false                       -- there is a session
  calls : Nat → Option Call := fun _ => none
  byStream : Nat → Option Nat := fun _ => none
  pending : List PendingCall := []
  nextCallId : Nat := 1
  streams : Nat → Option Stream := fun _ => none
  streamBySid : Nat → Option Nat := fun _ => none
  pendingStreams : List PendingStream := []
  posted : List Task := []
  timers : List (Nat × Alarm) := []
  nextTimer : Nat := 1
  senders : Nat → Sender Closure := fun _ => {}
  nextSid : Nat := 1
  refusing : Bool := false                      -- `nghttp2_submit_*` fails
  log : List Obs := []
  issued : List Token := []                     -- callbacks given to the channel
  accepted : List (Nat × Bytes) := []           -- messages `StreamSend` put in a queue
  armed : List Alarm := []                      -- timers set
  staleErases : Nat := 0

/-- What is left of a function's body after a flush. -/
inductive Frame where
  | callNowRest (sid id : Nat) (call : NewCall)
  | openStreamRest (sid : Nat) (ps : PendingStream) (decoder : FrameDecoder)
  | startPending
  | startPendingStreams
  | callTimeoutRest (id : Nat)
  | streamTimeoutRest (id : Nat)
  | cancelRest (id : Nat)              -- with `done`, moved out of the call

namespace State

def note (s : State) (os : List Obs) : State := { s with log := s.log ++ os }

/-- `loop->Post`. -/
def post (s : State) (t : Task) : State := { s with posted := s.posted ++ [t] }

def setCall (s : State) (id : Nat) (call : Call) : State :=
  { s with calls := Function.update s.calls id (some call) }

def eraseCall (s : State) (id : Nat) : State :=
  { s with calls := Function.update s.calls id none }

def setStream (s : State) (id : Nat) (st : Stream) : State :=
  { s with streams := Function.update s.streams id (some st) }

def eraseStream (s : State) (id : Nat) : State :=
  { s with streams := Function.update s.streams id none }

def eraseByStream (s : State) (sid : Nat) : State :=
  { s with byStream := Function.update s.byStream sid none }

def eraseStreamBySid (s : State) (sid : Nat) : State :=
  { s with streamBySid := Function.update s.streamBySid sid none }

/-- `by_stream.erase(it)` with an iterator found earlier. If the entry is gone the iterator
    dangles, and what the code does then is undefined; here the run goes on, and it is counted. -/
def eraseByStreamAt (s : State) (sid : Nat) : State :=
  match s.byStream sid with
  | some _ => s.eraseByStream sid
  | none => { s with staleErases := s.staleErases + 1 }

/-- `stream_by_sid.erase(it)`; the same holds of it. -/
def eraseStreamBySidAt (s : State) (sid : Nat) : State :=
  match s.streamBySid sid with
  | some _ => s.eraseStreamBySid sid
  | none => { s with staleErases := s.staleErases + 1 }

/-- `SetTimer`: the state, and the timer's id. -/
def setTimer (s : State) (a : Alarm) : State × Nat :=
  ({ s with
      timers := s.timers ++ [(s.nextTimer, a)]
      nextTimer := s.nextTimer + 1
      armed := s.armed ++ [a] }, s.nextTimer)

/-- `CancelTimer`. -/
def cancelTimer (s : State) (t : Nat) : State :=
  { s with timers := s.timers.filter fun e => e.1 != t }

def setSender (s : State) (sid : Nat) (h2 : Sender Closure) : State :=
  { s with senders := Function.update s.senders sid h2 }

/-- `SendData`. -/
def sendData (s : State) (sid : Nat) (data : Bytes) (endStream : Bool)
    (onConsumed : Option Closure) : State :=
  s.setSender sid ((s.senders sid).sendData data endStream onConsumed)

/-- `ResetStream`; nghttp2 reports the close when it likes. -/
def resetStream (s : State) (sid : Nat) : State :=
  s.setSender sid { s.senders sid with subs := (s.senders sid).subs ++ [.reset] }

/-- A new stream of the session, which has submitted `h2`; stream ids of a client are odd. -/
def submit (s : State) (h2 : Sender Closure) : Option (State × Nat) :=
  if s.refusing then none
  else some ({ s.setSender s.nextSid h2 with nextSid := s.nextSid + 2 }, s.nextSid)

end State

/-! ## Statuses and header blocks -/

def submitFailed : Status := ⟨.unavailable, str "submit failed"⟩
def streamClosed : Status := ⟨.unavailable, str "stream closed"⟩
def channelBroken : Status := ⟨.unavailable, str "channel broken"⟩
def connectionLost : Status := ⟨.unavailable, str "connection lost"⟩
def deadlineExceeded : Status := ⟨.deadlineExceeded, str "deadline exceeded"⟩
def cancelled : Status := ⟨.unavailable, str "cancelled"⟩
def unexpectedHttpStatus : Status := ⟨.unavailable, str "unexpected http status"⟩
def alreadyClosed : Status := ⟨.internal, str "already closed"⟩
def sendQueueFull : Status := ⟨.resourceExhausted, str "send queue full"⟩

/-- `GrpcStatusFromInt`. -/
def grpcStatusFromInt (v : Bytes) (fallback : StatusCode) : StatusCode :=
  match stoi v with
  | some n => .ofInt n
  | none => fallback

/-- The status of a block with `grpc-status`. -/
def trailersStatus (headers : HeaderMap) (gs : Bytes) : Status :=
  ⟨grpcStatusFromInt gs .internal, (find headers "grpc-message").getD []⟩

def requestHeaders (options : Options) (path : Bytes) : HeaderMap :=
  [(":method", str "POST"), (":scheme", str "http"), (":path", path),
    (":authority", options.address), ("content-type", kContentType), ("te", str "trailers")]

/-! ## Streams -/

def tellFlushed (id : Nat) (cb : Option CbId) (st : Status) : List Obs :=
  cb.toList.map fun cb => .flushed id cb st

/-- The `cb(st)` of every queued message that has one. -/
def failQueue (id : Nat) (queue : List OutMsg) (st : Status) : List Obs :=
  queue.flatMap fun m => tellFlushed id m.cb st

def tellComplete (id : Nat) (events : StreamEvents) (st : Status) : List Obs :=
  if events.onComplete then [.complete id st] else []

/-- What `Stream::Fail` tells the user. -/
def tellFail (id : Nat) (queue : List OutMsg) (events : StreamEvents) (st : Status) : List Obs :=
  failQueue id queue st ++ tellComplete id events st

/-- `CompleteStream`; `st` is the entry `id` of `streams`. -/
def completeStream (s : State) (id : Nat) (st : Stream) (status : Status) : State :=
  if st.completed then s
  else
    let s := if st.timeoutTimer ≠ 0 then s.cancelTimer st.timeoutTimer else s
    let s := if st.sid ≠ 0 then s.eraseStreamBySid st.sid else s
    (s.setStream id { st with completed := true, timeoutTimer := 0, outQueue := [] }).note
      (tellFail id st.outQueue st.events status)

/-- `PumpStream`: the next queued message goes to the session. -/
def pumpStream (s : State) (id : Nat) : State :=
  match s.streams id with
  | none => s
  | some st =>
      match st.outQueue with
      | [] => s
      | out :: queue =>
          if st.completed || st.outInflight then s
          else if st.sid = 0 || !s.session then s
          else
            (s.setStream id { st with outQueue := queue, outInflight := true,
                                      sendClosed := st.sendClosed || out.close }).sendData
              st.sid out.framed out.close (some ⟨id, out.cb⟩)

/-- The closure given to `SendData` by `PumpStream`. -/
def onConsumed (s : State) (n : Closure) : State :=
  let s :=
    match s.streams n.id with
    | some st => (s.setStream n.id { st with outInflight := false }).post (.pumpStream n.id)
    | none => s
  s.note (tellFlushed n.id n.cb .okay)

/-- `OpenStreamNow` up to the flush of `SubmitRequestOpen`. -/
def openStreamNow (s : State) (ps : PendingStream) : State × List Frame :=
  let decoder := FrameDecoder.new s.options.maxReceiveSize
  match s.submit (({} : Sender Closure).sendHeaders (requestHeaders s.options ps.path) false) with
  | none => (s.note (tellFail ps.id ps.outQueue ps.events submitFailed), [])
  | some (s, sid) => (s, [.openStreamRest sid ps decoder])

/-- `out_queue.back().close = true`. -/
def closeLast : List OutMsg → List OutMsg
  | [] => []
  | [m] => [{ m with close := true }]
  | m :: ms => m :: closeLast ms

/-- The queue that `OpenStreamNow` seeds: if any message closes, the last one does. -/
def seedQueue (queue : List OutMsg) : List OutMsg :=
  if queue.any OutMsg.close then closeLast queue else queue

/-- The `Stream` that `OpenStreamNow` registers. -/
def PendingStream.toStream (ps : PendingStream) (sid : Nat) (decoder : FrameDecoder)
    (timeoutTimer : Nat) : Stream where
  sid := sid
  timeoutTimer := timeoutTimer
  decoder := decoder
  events := ps.events
  outQueue := seedQueue ps.outQueue
  terminal := ps.terminal

/-- `OpenStreamNow` after the flush. -/
def openStreamRest (s : State) (sid : Nat) (ps : PendingStream) (decoder : FrameDecoder) :
    State :=
  let s := { s with streamBySid := Function.update s.streamBySid sid (some ps.id) }
  let (s, timer) := if ps.timeoutMs > 0 then s.setTimer (.stream ps.id ps.timeoutMs) else (s, 0)
  pumpStream (s.setStream ps.id (ps.toStream sid decoder timer)) ps.id

/-- One trip round the loop of `StartPendingStreams`. -/
def startPendingStreams (s : State) : State × List Frame :=
  match s.pendingStreams with
  | [] => (s, [])
  | ps :: rest =>
      let (s, fs) := openStreamNow { s with pendingStreams := rest } ps
      (s, fs ++ [.startPendingStreams])

/-! ## Unary calls -/

/-- `Complete`. -/
def complete (s : State) (id : Nat) (call : Call) (status : Status) (payload : Bytes) : State :=
  if call.completed then s
  else
    let s := if call.timeoutTimer ≠ 0 then s.cancelTimer call.timeoutTimer else s
    let s := if call.sid ≠ 0 then s.eraseByStream call.sid else s
    (s.eraseCall id).note (if call.done then [.done id status payload] else [])

/-- `Complete` on a call that is not in `calls` yet. -/
def completeNew (s : State) (id : Nat) (call : NewCall) (status : Status) : State :=
  complete s id { call with sid := 0 } status []

/-- `SubmitRequest`: an empty body ends the stream with the header block. -/
def submitRequest (fields : HeaderMap) (body : Bytes) : Sender Closure :=
  let h2 := ({} : Sender Closure).sendHeaders fields body.isEmpty
  if body.isEmpty then h2 else h2.sendData body true none

/-- `CallNow` up to the flush of `SubmitRequest`. -/
def callNow (s : State) (id : Nat) (path framed : Bytes) (call : NewCall) : State × List Frame :=
  match s.submit (submitRequest (requestHeaders s.options path) framed) with
  | none => (completeNew s id call submitFailed, [])
  | some (s, sid) => (s, [.callNowRest sid id call])

/-- `CallNow` after the flush. -/
def callNowRest (s : State) (sid id : Nat) (call : NewCall) : State :=
  State.setCall { s with byStream := Function.update s.byStream sid (some id) } id
    { call with sid }

/-- `FailPending`. -/
def failPending (s : State) (st : Status) : State :=
  s.pending.foldl (fun s pc => completeNew s pc.id pc.call st) { s with pending := [] }

/-- One trip round the loop of `StartPending`. -/
def startPending (s : State) : State × List Frame :=
  match s.pending with
  | [] => (s, [])
  | pc :: rest =>
      let (s, fs) := callNow { s with pending := rest } pc.id pc.path pc.framed pc.call
      (s, fs ++ [.startPending])

/-! ## Connecting -/

/-- The callback of `TcpConnect` on a failure. -/
def connectFailed (s : State) (st : Status) : State := failPending { s with phase := .broken } st

/-- `ConnectNow`; `tcp` is the failure that `TcpConnect` reports at once, if it does. -/
def connectNow (s : State) (tcp : Option Status) : State :=
  let s := { s with phase := .connecting }
  match tcp with
  | some st => connectFailed s st
  | none => s

/-- The callback of `TcpConnect` on success. -/
def connected (s : State) : State × List Frame :=
  ({ s with session := true, phase := .ready }, [.startPending, .startPendingStreams])

/-- The entries of a table, in the order of their ids. -/
def entries {α : Type} (n : Nat) (table : Nat → Option α) : List (Nat × α) :=
  (List.range n).filterMap fun id => (table id).map fun a => (id, a)

/-- What `OnConnectionLost` tells about the live streams. -/
def lostStreams (streams : List (Nat × Stream)) : List Obs :=
  streams.flatMap fun (id, st) =>
    if st.completed then [] else tellFail id st.outQueue st.events connectionLost

/-- What it tells about the parked streams: each fails through a shell that has no queue. -/
def lostParked (parked : List PendingStream) : List Obs :=
  parked.flatMap fun ps => tellComplete ps.id ps.events connectionLost

/-- What it tells about the calls. -/
def lostCalls (calls : List (Nat × Call)) : List Obs :=
  calls.flatMap fun (id, call) =>
    if call.completed then [] else if call.done then [.done id connectionLost []] else []

def onConnectionLost (s : State) : State :=
  if s.phase = .broken then s
  else
    let calls := entries s.nextCallId s.calls
    let timers := calls.filterMap fun (_, call) =>
      if !call.completed && call.timeoutTimer ≠ 0 then some call.timeoutTimer else none
    failPending { s with
      phase := .broken
      session := false
      senders := fun sid => (s.senders sid).close
      calls := fun _ => none
      byStream := fun _ => none
      streams := fun _ => none
      streamBySid := fun _ => none
      pendingStreams := []
      timers := s.timers.filter fun e => !timers.contains e.1
      log := s.log ++ (lostStreams (entries s.nextCallId s.streams) ++
        lostParked s.pendingStreams ++ lostCalls calls) } connectionLost

/-! ## Transport events -/

def onHeadersComplete (s : State) (sid : Nat) (headers : HeaderMap) : State :=
  match s.streamBySid sid with
  | some id =>
      match s.streams id with
      | none => s
      | some st =>
          if st.completed then s
          else
            match find headers "grpc-status" with
            | some gs => completeStream s id st (trailersStatus headers gs)
            | none =>
                if find headers ":status" ≠ some (str "200") then
                  completeStream s id st unexpectedHttpStatus
                else s
  | none =>
      match s.byStream sid with
      | none => s
      | some id =>
          match s.calls id with
          | none => s
          | some call =>
              match find headers "grpc-status" with
              | some gs =>
                  let payload := if call.decoder.hasMessage then call.decoder.takeMessage.1 else []
                  complete s id call (trailersStatus headers gs) payload
              | none =>
                  if find headers ":status" ≠ some (str "200") then
                    complete s id call unexpectedHttpStatus []
                  else s

/-- The loop of `OnData` that takes every decoded message. -/
def takeMessages (d : FrameDecoder) : List Bytes × FrameDecoder :=
  (d.messages, { d with messages := [], messageCount := d.messageCount + d.messages.length })

/-- `OnData` on a stream; `chunk` is empty for `(nullptr, 0)`. -/
def onStreamData (s : State) (id : Nat) (st : Stream) (chunk : Bytes) : State :=
  if st.completed || chunk.isEmpty then s
  else
    let (dst, decoder) := st.decoder.consume chunk
    if !dst.ok then completeStream s id { st with decoder } dst
    else
      let (msgs, decoder) := takeMessages decoder
      (s.setStream id { st with decoder }).note
        (if st.events.onMessage then msgs.map (.message id .okay) else [])

/-- `OnData` on a unary call. -/
def onCallData (s : State) (id : Nat) (call : Call) (chunk : Bytes) : State :=
  if call.completed || chunk.isEmpty then s
  else
    let (st, decoder) := call.decoder.consume chunk
    if !st.ok then complete s id { call with decoder } st [] else s.setCall id { call with decoder }

def onData (s : State) (sid : Nat) (chunk : Bytes) : State :=
  match s.streamBySid sid with
  | some id =>
      match s.streams id with
      | none => s
      | some st => onStreamData s id st chunk
  | none =>
      match s.byStream sid with
      | none => s
      | some id =>
          match s.calls id with
          | none => s
          | some call => onCallData s id call chunk

/-- `OnStreamClose`: the stream of that id, then the call of that id. -/
def onStreamClose (s : State) (sid : Nat) : State :=
  let s :=
    match s.streamBySid sid with
    | none => s
    | some id =>
        let s :=
          match s.streams id with
          | none => s
          | some st =>
              if !st.completed && !st.rstPending then completeStream s id st streamClosed else s
        s.eraseStreamBySidAt sid
  match s.byStream sid with
  | none => s
  | some id =>
      let s :=
        match s.calls id with
        | none => s
        | some call => if !call.completed then complete s id call streamClosed [] else s
      s.eraseByStreamAt sid

/-! ## Timers -/

/-- The timer of `Call` after `ResetStream`. -/
def callTimeoutRest (s : State) (id : Nat) : State :=
  match s.calls id with
  | none => s
  | some c =>
      let s := if c.sid ≠ 0 && s.session then s.eraseByStream c.sid else s
      (s.eraseCall id).note (if c.done then [.done id deadlineExceeded []] else [])

/-- The timer of `Call`. -/
def callTimeout (s : State) (id : Nat) : State × List Frame :=
  match s.calls id with
  | none => (s, [])
  | some c =>
      if c.completed then (s, [])
      else
        let s := s.setCall id { c with completed := true, whole := by simp }
        if c.sid ≠ 0 && s.session then (s.resetStream c.sid, [.callTimeoutRest id])
        else (callTimeoutRest s id, [])

/-- The timer of `OpenStreamNow` after `ResetStream`. -/
def streamTimeoutRest (s : State) (id : Nat) : State :=
  match s.streams id with
  | none => s
  | some st =>
      let s := if st.sid ≠ 0 && s.session then s.eraseStreamBySid st.sid else s
      (completeStream s id st deadlineExceeded).eraseStream id

/-- The timer of `OpenStreamNow`. -/
def streamTimeout (s : State) (id : Nat) : State × List Frame :=
  match s.streams id with
  | none => (s, [])
  | some st =>
      if st.completed then (s, [])
      else
        let s := s.setStream id { st with rstPending := true }
        if st.sid ≠ 0 && s.session then (s.resetStream st.sid, [.streamTimeoutRest id])
        else (streamTimeoutRest s id, [])

/-! ## Posted tasks -/

/-- The task of `Call`. -/
def callTask (s : State) (tcp : Option Status) (id : Nat) (path framed : Bytes) (timeoutMs : Nat)
    (call : NewCall) : State × List Frame :=
  let (s, timer) :=
    if timeoutMs > 0 then s.setTimer (.call id timeoutMs) else (s, call.timeoutTimer)
  let call := { call with timeoutTimer := timer }
  match s.phase with
  | .ready => callNow s id path framed call
  | .broken => (completeNew s id call channelBroken, [])
  | .connecting => ({ s with pending := s.pending ++ [⟨id, path, framed, call⟩] }, [])
  | .idle => (connectNow { s with pending := s.pending ++ [⟨id, path, framed, call⟩] } tcp, [])

/-- The task of `Cancel` after `ResetStream`. -/
def cancelRest (s : State) (id : Nat) : State :=
  let s :=
    match s.calls id with
    | some c => if c.sid ≠ 0 && s.session then s.eraseByStream c.sid else s
    | none => s
  (s.eraseCall id).note [.done id cancelled []]

/-- The task of `Cancel`. -/
def cancelTask (s : State) (id : Nat) : State × List Frame :=
  match s.calls id with
  | none => (s, [])
  | some c =>
      if c.completed then (s, [])
      else
        let s := if c.timeoutTimer ≠ 0 then s.cancelTimer c.timeoutTimer else s
        let s := s.setCall id { c with completed := true, done := false, whole := by simp }
        if c.sid ≠ 0 && s.session then (s.resetStream c.sid, [.cancelRest id])
        else (cancelRest s id, [])

/-- The task of `OpenStream`. -/
def openStreamTask (s : State) (tcp : Option Status) (id : Nat) (path : Bytes)
    (events : StreamEvents) (timeoutMs : Nat) : State × List Frame :=
  if h : events.onComplete = true then
    let ps : PendingStream := { id, path, events, timeoutMs, terminal := h }
    match s.phase with
    | .ready => openStreamNow s ps
    | .broken => (s.note (tellComplete id events channelBroken), [])
    | .connecting => ({ s with pendingStreams := s.pendingStreams ++ [ps] }, [])
    | .idle => (connectNow { s with pendingStreams := s.pendingStreams ++ [ps] } tcp, [])
  else (s, [])

/-- The first parked stream with that id, changed by `f`. -/
def updateParked (id : Nat) (f : PendingStream → PendingStream) :
    List PendingStream → List PendingStream
  | [] => []
  | ps :: rest => if ps.id = id then f ps :: rest else ps :: updateParked id f rest

/-- The entry of `streams` that is not completed. -/
def live (s : State) (id : Nat) : Option Stream := (s.streams id).filter fun st => !st.completed

/-- The task of `StreamSend`. -/
def streamSendTask (s : State) (id : Nat) (framed : Bytes) (cb : Option CbId) (close : Bool) :
    State :=
  match live s id with
  | none =>
      match s.pendingStreams.find? fun ps => ps.id = id with
      | some ps =>
          if ps.outQueue.length ≥ 64 then s.note (tellFlushed id cb sendQueueFull)
          else
            { s with
              pendingStreams := updateParked id
                (fun ps => { ps with outQueue := ps.outQueue ++ [⟨framed, close, cb⟩] })
                s.pendingStreams
              accepted := s.accepted ++ [(id, framed)] }
      | none => s.note (tellFlushed id cb streamClosed)
  | some st =>
      if st.sendClosed then s.note (tellFlushed id cb alreadyClosed)
      else if st.outQueue.length ≥ 64 then s.note (tellFlushed id cb sendQueueFull)
      else
        let s := { s with accepted := s.accepted ++ [(id, framed)] }
        let st := { st with outQueue := st.outQueue ++ [⟨framed, close, cb⟩] }
        pumpStream (s.setStream id st) id

/-- `StreamCloseSend` on a queue: END_STREAM rides the last message, or an empty one. -/
def closeQueue (queue : List OutMsg) : List OutMsg :=
  if queue.isEmpty then [⟨[], true, none⟩] else closeLast queue

/-- The task of `StreamCloseSend`. -/
def streamCloseSendTask (s : State) (id : Nat) : State :=
  match live s id with
  | none =>
      { s with
        pendingStreams := updateParked id
          (fun ps => { ps with outQueue := closeQueue ps.outQueue }) s.pendingStreams }
  | some st =>
      if st.sendClosed then s
      else if st.outQueue.isEmpty then
        let s := s.setStream id { st with sendClosed := true }
        if st.sid ≠ 0 && s.session then s.sendData st.sid [] true none else s
      else s.setStream id { st with outQueue := closeLast st.outQueue }

def runTask (s : State) (tcp : Option Status) : Task → State × List Frame
  | .call id path framed timeoutMs call => callTask s tcp id path framed timeoutMs call
  | .cancel id => cancelTask s id
  | .openStream id path events timeoutMs => openStreamTask s tcp id path events timeoutMs
  | .streamSend id framed cb close => (streamSendTask s id framed cb close, [])
  | .streamCloseSend id => (streamCloseSendTask s id, [])
  | .pumpStream id => (pumpStream s id, [])

/-! ## The machine -/

inductive Event where
  | call (path framed : Bytes) (timeoutMs : Nat)
  | cancel (id : Nat)
  | openStream (path : Bytes) (events : StreamEvents) (timeoutMs : Nat)
  | streamSend (id : Nat) (framed : Bytes) (cb : Option CbId) (close : Bool)
  | streamCloseSend (id : Nat)
  | setMaxReceiveSize (n : Nat)
  | refuse (refusing : Bool)
  | streamClose (sid : Nat)
  | credit (sid n : Nat)
  | consumed (sid : Nat)
  | task (tcp : Option Status)
  | timer (t : Nat)
  | connected
  | connectFailed (st : Status)
  | headers (sid : Nat) (fields : HeaderMap)
  | data (sid : Nat) (chunk : Bytes)
  | lost
  deriving DecidableEq

def exec (f : Frame) (s : State) : State × List Frame :=
  match f with
  | .callNowRest sid id call => (callNowRest s sid id call, [])
  | .openStreamRest sid ps decoder => (openStreamRest s sid ps decoder, [])
  | .startPending => startPending s
  | .startPendingStreams => startPendingStreams s
  | .callTimeoutRest id => (callTimeoutRest s id, [])
  | .streamTimeoutRest id => (streamTimeoutRest s id, [])
  | .cancelRest id => (cancelRest s id, [])

/-- The session knows the stream and has not reported its close. -/
def State.open (s : State) (sid : Nat) : Bool :=
  s.session && sid % 2 == 1 && sid < s.nextSid && !(s.senders sid).closed

/-- The public functions: take an id where they return one, and post. -/
def issue (s : State) : Event → State
  | .call path framed timeoutMs =>
      let call : NewCall := { decoder := .new s.options.maxReceiveSize }
      State.post
        { s with nextCallId := s.nextCallId + 1, issued := s.issued ++ [.done s.nextCallId] }
        (.call s.nextCallId path framed timeoutMs call)
  | .cancel id => s.post (.cancel id)
  | .openStream path events timeoutMs =>
      State.post
        { s with
          nextCallId := s.nextCallId + 1
          issued := s.issued ++ if events.onComplete then [.complete s.nextCallId] else [] }
        (.openStream s.nextCallId path events timeoutMs)
  | .streamSend id framed cb close =>
      State.post { s with issued := s.issued ++ cb.toList.map (.flushed id) }
        (.streamSend id framed cb close)
  | .streamCloseSend id => s.post (.streamCloseSend id)
  | .setMaxReceiveSize n => { s with options := { s.options with maxReceiveSize := n } }
  | _ => s

def fire (e : Event) (s : State) : Option (State × List Frame) :=
  match e with
  | .call .. | .cancel _ | .openStream .. | .streamSend .. | .streamCloseSend _
  | .setMaxReceiveSize _ => some (issue s e, [])
  | .refuse refusing => some ({ s with refusing }, [])
  | .streamClose sid =>
      if s.open sid then
        some (onStreamClose (s.setSender sid (s.senders sid).close) sid, [])
      else none
  | .credit sid n =>
      if s.open sid then some (s.setSender sid ((s.senders sid).credit n), []) else none
  | .consumed sid =>
      match (s.senders sid).notes with
      | [] => none
      | n :: notes => some (onConsumed (s.setSender sid { s.senders sid with notes }) n, [])
  | .task tcp =>
      match s.posted with
      | [] => none
      | t :: ts =>
          if tcp.all fun st => !st.ok then some (runTask { s with posted := ts } tcp t) else none
  | .timer t =>
      match s.timers.lookup t with
      | none => none
      -- the loop cancels the timer, then runs its task
      | some (.call id _) => some (callTimeout (s.cancelTimer t) id)
      | some (.stream id _) => some (streamTimeout (s.cancelTimer t) id)
  | .connected => if s.phase = .connecting then some (connected s) else none
  | .connectFailed st =>
      if s.phase = .connecting && !st.ok then some (connectFailed s st, []) else none
  | .headers sid fields => if s.open sid then some (onHeadersComplete s sid fields, []) else none
  | .data sid chunk => if s.open sid then some (onData s sid chunk, []) else none
  | .lost => if s.session then some (onConnectionLost s, []) else none

/-- What foreign code can do while a function of the channel waits for it. -/
def anytime : Event → Bool
  | .call .. | .cancel _ | .openStream .. | .streamSend .. | .streamCloseSend _
  | .setMaxReceiveSize _ | .refuse _ | .streamClose _ | .credit .. | .consumed _ => true
  | .task _ | .timer _ | .connected | .connectFailed _ | .headers .. | .data .. | .lost => false

def machine : Resume.System State Frame Event where
  exec := exec
  fire := fire
  anytime := anytime
  settled s := (List.range s.nextSid).all fun sid => (s.senders sid).notes.isEmpty

abbrev Conf := Resume.Conf State Frame
abbrev Label := Resume.Label Event

/-- A channel that nobody has used yet. -/
def fresh (options : Options) : Conf := { st := { options } }

/-! ## Completion -/

variable {s : State} {id sid : Nat}

/-- `CompleteStream` on an entry that is not completed. -/
theorem completeStream_eq {st : Stream} (hc : st.completed = false) (status : Status) :
    completeStream s id st status = { s with
      timers := if st.timeoutTimer ≠ 0 then (s.cancelTimer st.timeoutTimer).timers else s.timers
      streamBySid :=
        if st.sid ≠ 0 then Function.update s.streamBySid st.sid none else s.streamBySid
      streams := Function.update s.streams id
        (some { st with completed := true, timeoutTimer := 0, outQueue := [] })
      log := s.log ++ tellFail id st.outQueue st.events status } := by
  simp only [completeStream, hc, Bool.false_eq_true, if_false]
  split <;> split <;> rfl

/-- `Complete` on a call that is not completed. -/
theorem complete_eq {call : Call} (hc : call.completed = false) (status : Status)
    (payload : Bytes) :
    complete s id call status payload = { s with
      timers :=
        if call.timeoutTimer ≠ 0 then (s.cancelTimer call.timeoutTimer).timers else s.timers
      byStream := if call.sid ≠ 0 then Function.update s.byStream call.sid none else s.byStream
      calls := Function.update s.calls id none
      log := s.log ++ [.done id status payload] } := by
  simp only [complete, hc, Bool.false_eq_true, if_false, call.whole hc, if_true]
  split <;> split <;> rfl

/-! ## The halves of `OnStreamClose` -/

/-- What is done to the stream of that id. -/
inductive StreamClosed (s : State) (sid : Nat) : State → Prop where
  | unknown : s.streamBySid sid = none → StreamClosed s sid s
  | left {id : Nat} : s.streamBySid sid = some id →
      (∀ st, s.streams id = some st → st.completed = true ∨ st.rstPending = true) →
      StreamClosed s sid (s.eraseStreamBySidAt sid)
  | failed {id : Nat} {st : Stream} : s.streamBySid sid = some id → s.streams id = some st →
      st.completed = false → st.rstPending = false →
      StreamClosed s sid ((completeStream s id st streamClosed).eraseStreamBySidAt sid)

/-- What is done to the call of that id. -/
inductive CallClosed (s : State) (sid : Nat) : State → Prop where
  | unknown : s.byStream sid = none → CallClosed s sid s
  | left {id : Nat} : s.byStream sid = some id →
      (∀ call, s.calls id = some call → call.completed = true) →
      CallClosed s sid (s.eraseByStreamAt sid)
  | failed {id : Nat} {call : Call} : s.byStream sid = some id → s.calls id = some call →
      call.completed = false →
      CallClosed s sid ((complete s id call streamClosed []).eraseByStreamAt sid)

theorem eraseStreamBySidAt_eq (s : State) (sid : Nat) :
    ∃ n, s.eraseStreamBySidAt sid = { s with
      streamBySid := Function.update s.streamBySid sid none, staleErases := n } := by
  unfold State.eraseStreamBySidAt
  split
  · exact ⟨s.staleErases, rfl⟩
  · next h => exact ⟨s.staleErases + 1, by rw [← h, Function.update_eq_self]⟩

theorem eraseByStreamAt_eq (s : State) (sid : Nat) :
    ∃ n, s.eraseByStreamAt sid = { s with
      byStream := Function.update s.byStream sid none, staleErases := n } := by
  unfold State.eraseByStreamAt
  split
  · exact ⟨s.staleErases, rfl⟩
  · next h => exact ⟨s.staleErases + 1, by rw [← h, Function.update_eq_self]⟩

theorem eraseStreamBySidAt_streamBySid (s : State) (sid : Nat) :
    (s.eraseStreamBySidAt sid).streamBySid sid = none := by
  obtain ⟨n, h⟩ := eraseStreamBySidAt_eq s sid
  rw [h]
  exact Function.update_self ..

theorem onStreamClose_callClosed (h : s.streamBySid sid = none) :
    CallClosed s sid (onStreamClose s sid) := by
  simp only [onStreamClose, h]
  split
  · next hby => exact .unknown hby
  · next id hby =>
      split
      · next hnone => exact .left hby (by simp [hnone])
      · next call hcall =>
          split
          · next hc => exact .failed hby hcall (by simpa using hc)
          · next hc => exact .left hby (by simpa [hcall] using hc)

theorem onStreamClose_closed (s : State) (sid : Nat) :
    ∃ m s', onStreamClose s sid = s' ∧ StreamClosed s sid m ∧ CallClosed m sid s' := by
  have herased := fun s => onStreamClose_callClosed (eraseStreamBySidAt_streamBySid s sid)
  cases hid : s.streamBySid sid with
  | none => exact ⟨s, _, rfl, .unknown hid, onStreamClose_callClosed hid⟩
  | some id =>
      by_cases hgo : ∃ st, s.streams id = some st ∧ st.completed = false ∧ st.rstPending = false
      · obtain ⟨st, hst, hc, hr⟩ := hgo
        refine ⟨_, _, rfl, .failed hid hst hc hr, ?_⟩
        simpa [onStreamClose, hid, hst, hc, hr, eraseStreamBySidAt_streamBySid] using herased _
      · have hleft : ∀ st, s.streams id = some st →
            st.completed = true ∨ st.rstPending = true := by
          intro st hst
          by_contra hne
          exact hgo ⟨st, hst, by simpa using hne⟩
        refine ⟨_, _, rfl, .left hid hleft, ?_⟩
        cases hst : s.streams id with
        | none =>
            simpa [onStreamClose, hid, hst, eraseStreamBySidAt_streamBySid] using herased s
        | some st =>
            have hover : (!st.completed && !st.rstPending) = false := by
              rcases hleft st hst with h | h <;> simp [h]
            simpa [onStreamClose, hid, hst, hover, eraseStreamBySidAt_streamBySid] using herased s

end Urpc.Channel
