/-
  One server stream (`Server::Impl::Conn` of `urpc_server.cc`, restricted to one stream id):
  its `Call`, its context, its deadline timers and its sending side.

  The functions are those of the source, under its names. A function that hands control to
  foreign code (the session's flush, a handler, a user callback) before its end returns the
  rest of its body as a `Frame`; when the foreign call is the last thing it does there is
  nothing left to return. A frame looks its call up again, like the source's `calls.find`:
  where the source keeps a reference to a call that foreign code has erased meanwhile, the
  frame finds no call and does nothing.

  `machine` puts them together as a resumable system. Handler operations, stream closes,
  credit and consumed notifications can happen inside foreign code; header blocks, DATA,
  deadlines, posted pumps and the loss of the connection start from the event loop, with no
  notification waiting (the outermost `FlushOut` drains them all).

  Left out: logging, `started_ms`, the shutdown guard `alive` of posted pumps.
  `log`, `accepted`, `finishCalls` and `recv` are records kept for the proofs.
-/
import Urpc.Lib.Resume
import Urpc.Session.Sender

namespace Urpc.Server

open Cxx

/-! ## State -/

structure Config where
  maxReceiveSize : Nat := FrameDecoder.defaultMaxMessageSize
  router : Bytes → Option MethodForm      -- `Router::Find`, the form of the entry

/-- A user callback, by name. -/
abbrev CbId := Nat

structure OutMsg where
  framed : Bytes
  cb : Option CbId
  deriving DecidableEq

/-- The fields of a `Call` about reading the request. -/
structure ReadSide where
  requestHalfClosed : Bool := false
  readFinished : Bool := false
  readCb : Option CbId := none
  pendingMsgs : List Bytes := []

/-- The fields of a `Call` about its handler. -/
structure Routing where
  form : MethodForm := .unary
  hasHandler : Bool := false
  dispatched : Bool := false
  requestDone : Bool := false

/-- The fields of a `Call` that decide what is sent. -/
structure WriteSide extends Routing where
  responded : Bool := false
  outQueue : List OutMsg := []
  outInflight : Bool := false
  responseHeadersSent : Bool := false
  writeClosed : Bool := false
  finishPending : Status := {}
  hasFinishPending : Bool := false

structure Call extends ReadSide, WriteSide where
  path : Bytes := []
  decoder : FrameDecoder
  deadlineTimer : Nat := 0
  cancelFired : Bool := false
  cancelCbs : List CbId := []

/-- The context object in `ctxs`: `Ctx`, or `StreamCtx` with its stashed first message. -/
inductive Ctx where
  | unary
  | stream (firstMsg : Option Bytes)
  deriving DecidableEq

/-- What the handler's code is told. -/
inductive Obs where
  | unary (request : Bytes)
  | stream (firstMsg : Option Bytes)
  | read (cb : CbId) (st : Status) (eos : Bool) (msg : Bytes)
  | wrote (cb : CbId) (st : Status)
  | cancelled (cb : CbId)
  deriving DecidableEq

structure State where
  call : Option Call := none
  ctx : Option Ctx := none
  h2 : Sender (Option CbId) := {}
  opened : Bool := false               -- a header block has arrived
  connClosed : Bool := false           -- `Conn::closed`
  timers : List Nat := []              -- armed deadline timers
  nextTimer : Nat := 1
  posted : Nat := 0                    -- posted `PumpOut` tasks
  log : List Obs := []
  accepted : List Bytes := []          -- payloads `WriteMessage` put in the queue
  finishCalls : List Status := []      -- statuses given to `Finish`
  recv : Bytes := []                   -- bytes given to the decoder

/-- What is left of a function's body after a foreign call. -/
inductive Frame where
  | onHeadersRest (endStream : Bool)
  | onDataRest (endStream : Bool)
  | respondData (framed : Bytes)
  | respondTrailers
  | onDeadlineRest
  | pumpOutData (out : OutMsg)
  | consumedRest
  | cancelOut
  | fireCancel
  | closeErase
  deriving DecidableEq

namespace State

def setCall (s : State) (k : Call) : State := { s with call := some k }

def note (s : State) (o : Obs) : State := { s with log := s.log ++ [o] }

def sendHeaders (s : State) (fields : HeaderMap) (endStream : Bool) : State :=
  { s with h2 := s.h2.sendHeaders fields endStream }

def sendData (s : State) (data : Bytes) (onConsumed : Option (Option CbId)) : State :=
  { s with h2 := s.h2.sendData data false onConsumed }

def sendTrailers (s : State) (fields : HeaderMap) : State :=
  { s with h2 := s.h2.sendTrailers fields }

end State

/-! ## Header blocks -/

/-- `ParseGrpcTimeout`: milliseconds, 64-bit arithmetic, 0 when malformed. -/
def parseGrpcTimeout (v : Bytes) : Nat :=
  if v.length < 2 then 0
  else
    match stoull v.dropLast with
    | none => 0
    | some n =>
        match v.getLast? with
        | some 72 => n * 3600000 % 2 ^ 64      -- 'H'
        | some 77 => n * 60000 % 2 ^ 64        -- 'M'
        | some 83 => n * 1000 % 2 ^ 64         -- 'S'
        | some 109 => n                        -- 'm'
        | some 117 => n / 1000                 -- 'u'
        | some 110 => n / 1000000              -- 'n'
        | _ => 0

def responseHeaders : HeaderMap := [(":status", str "200"), ("content-type", kContentType)]

def trailersOnlyFields (st : Status) : HeaderMap := responseHeaders ++ grpcStatusFields st

/-! ## Terminal blocks -/

/-- `StopDeadline`; `k` is the call as the caller has it. -/
def stopDeadline (s : State) (k : Call) : State :=
  { s with timers := if k.deadlineTimer ≠ 0 then s.timers.erase k.deadlineTimer else s.timers
           call := some { k with deadlineTimer := 0 } }

def sendTrailersOnly (s : State) (st : Status) : State :=
  s.sendHeaders (trailersOnlyFields st) true

def trailersOnly (s : State) (st : Status) : State :=
  match s.call with
  | some k =>
      if k.responded then s
      else sendTrailersOnly (stopDeadline s { k with responded := true }) st
  | none => sendTrailersOnly s st

def respondError (s : State) (st : Status) : State :=
  match s.call with
  | some k =>
      if k.responded then s else trailersOnly (stopDeadline s { k with responded := true }) st
  | none => s

/-- `FinishStream`: at once when nothing is outstanding, else deferred. -/
def finishStream (s : State) (st : Status) : State :=
  match s.call with
  | some k =>
      if k.responded then s
      else
        let k := { k with responded := true, writeClosed := true, readFinished := true }
        let s := stopDeadline s k
        if k.outInflight || !k.outQueue.isEmpty then
          s.setCall { k with deadlineTimer := 0, finishPending := st, hasFinishPending := true }
        else if !k.responseHeadersSent then sendTrailersOnly s st
        else s.sendTrailers (grpcStatusFields st)
  | none => s

/-- `MaybeSendDeferredFinish`. -/
def maybeSendDeferredFinish (s : State) : State :=
  match s.call with
  | some k =>
      if !k.hasFinishPending then s
      else if k.outInflight || !k.outQueue.isEmpty then s
      else
        (s.setCall { k with hasFinishPending := false }).sendTrailers
          (grpcStatusFields k.finishPending)
  | none => s

/-! ## Responses -/

/-- `PumpOut`: the next queued message goes to the session, after the response headers. -/
def pumpOut (s : State) : State × List Frame :=
  match s.call with
  | some k =>
      match k.outQueue with
      | [] => (s, [])
      | out :: queue =>
          if k.outInflight || k.responded || k.writeClosed then (s, [])
          else
            let k := { k with outQueue := queue, outInflight := true }
            if !k.responseHeadersSent then
              ((s.setCall { k with responseHeadersSent := true }).sendHeaders responseHeaders false,
                [.pumpOutData out])
            else ((s.setCall k).sendData out.framed (some out.cb), [])
  | none => (s, [])

/-- The closure given to `SendData` by `PumpOut`, up to the write callback. -/
def onConsumed (s : State) (cb : Option CbId) : State × List Frame :=
  let s :=
    match s.call with
    | some k => s.setCall { k with outInflight := false }
    | none => s
  match cb with
  | some cb => (s.note (.wrote cb .okay), [.consumedRest])
  | none => (s, [.consumedRest])

/-- `Respond` of a unary call, up to the first flush. -/
def respond (s : State) (st : Status) (payload : Bytes) : State × List Frame :=
  match s.call with
  | some k =>
      if k.responded then (s, [])
      else
        let s := stopDeadline s { k with responded := true }
        if st.ok then
          (s.sendHeaders responseHeaders false, [.respondData (encodeFrame payload)])
        else (sendTrailersOnly s st, [])
  | none => (s, [])

/-! ## Dispatch and reads -/

/-- `DispatchStream`: the handler is invoked with a fresh `StreamCtx`. -/
def dispatchStream (s : State) (firstMsg : Option Bytes) : State :=
  match s.call with
  | some k =>
      if k.dispatched then s
      else
        { s.setCall { k with dispatched := true } with ctx := some (.stream firstMsg) }.note
          (.stream firstMsg)
  | none => s

def tooManyUnread : Status :=
  ⟨.resourceExhausted, str "too many unread request messages"⟩

/-- `DeliverRead`. -/
def deliverRead (s : State) (st : Status) (eos : Bool) (msg : Bytes) : State :=
  match s.call with
  | some k =>
      if k.readFinished then s
      else if !st.ok || eos then
        match k.readCb with
        | some cb =>
            (s.setCall { k with readFinished := true, readCb := none }).note (.read cb st eos msg)
        | none => s.setCall { k with readFinished := true }
      else
        match k.readCb with
        | some cb => (s.setCall { k with readCb := none }).note (.read cb st false msg)
        | none =>
            if k.pendingMsgs.length ≥ 64 then finishStream s tooManyUnread
            else s.setCall { k with pendingMsgs := k.pendingMsgs ++ [msg] }
  | none => s

def unknownMethod (path : Bytes) : Status := ⟨.unimplemented, str "unknown method: " ++ path⟩

def multipleRequests : Status := ⟨.internal, str "multiple request messages"⟩

def missingRequest : Status := ⟨.internal, str "missing request message"⟩

/-- `FinishRequest`: END_STREAM has arrived. -/
def finishRequest (s : State) : State :=
  match s.call with
  | none => s
  | some k =>
      if k.requestDone then s
      else
        let k := { k with requestDone := true }
        let s := s.setCall k
        if !k.hasHandler then trailersOnly s (unknownMethod k.path)
        else
          match k.form with
          | .unary =>
              if k.decoder.messageCount ≠ 0 then trailersOnly s multipleRequests
              else if !k.decoder.hasMessage then trailersOnly s missingRequest
              else
                let (request, decoder) := k.decoder.takeMessage
                { s.setCall { k with decoder } with ctx := some .unary }.note (.unary request)
          | .serverStreaming =>
              let k := { k with requestHalfClosed := true }
              let s := s.setCall k
              if !k.dispatched then
                if !k.decoder.hasMessage then trailersOnly s missingRequest
                else
                  let (msg, decoder) := k.decoder.takeMessage
                  dispatchStream (s.setCall { k with decoder }) (some msg)
              else deliverRead s .okay true []
          | _ =>
              let k := { k with requestHalfClosed := true }
              let s := s.setCall k
              if !k.dispatched then trailersOnly s (unknownMethod k.path)
              else deliverRead s .okay true []

/-! ## Transport events -/

def badRequestHeaders : Status := ⟨.internal, str "bad request headers"⟩

/-- The call that `OnHeadersComplete` registers. A second block on the stream finds the call
    of the first (`calls[sid]`). -/
def routedCall (cfg : Config) (s : State) (path : Bytes) : Call :=
  let decoder := FrameDecoder.new cfg.maxReceiveSize
  let k := { s.call.getD { decoder } with path, decoder }
  match cfg.router path with
  | some form => { k with hasHandler := true, form }
  | none => { k with hasHandler := false }

/-- The deadline of `OnHeadersComplete`: a positive `grpc-timeout` arms a timer. -/
def armDeadline (s : State) (k : Call) (headers : HeaderMap) : State :=
  let ms := ((find headers "grpc-timeout").map parseGrpcTimeout).getD 0
  if ms > 0 then
    { s with call := some { k with deadlineTimer := s.nextTimer }
             timers := s.nextTimer :: s.timers
             nextTimer := s.nextTimer + 1 }
  else s.setCall k

/-- `OnHeadersComplete` up to the handler's dispatch. -/
def onHeadersComplete (cfg : Config) (s : State) (headers : HeaderMap) (endStream : Bool) :
    State × List Frame :=
  match find headers "content-type", find headers ":path" with
  | some ct, some path =>
      if !kContentType.isPrefixOf ct then (trailersOnly s badRequestHeaders, [])
      else
        let k := routedCall cfg s path
        let s := armDeadline s k headers
        let s :=
          if k.hasHandler && (k.form == .clientStreaming || k.form == .bidi) then
            dispatchStream s none
          else s
        (s, [.onHeadersRest endStream])
  | _, _ => (trailersOnly s badRequestHeaders, [])

/-- `OnData` up to the message loop; `chunk` is empty for `(nullptr, 0)`. -/
def onData (s : State) (chunk : Bytes) (endStream : Bool) : State × List Frame :=
  match s.call with
  | none => (s, [])
  | some k =>
      if k.requestDone then (s, [])
      else
        let (st, decoder) :=
          if chunk.isEmpty then (Status.okay, k.decoder) else k.decoder.consume chunk
        let s := { s.setCall { k with decoder } with recv := s.recv ++ chunk }
        if !st.ok then (respondError s st, []) else (s, [.onDataRest endStream])

/-- The rest of `OnData`: one trip round the message loop of a streaming form, or what
    follows the loop. -/
def onDataRest (s : State) (endStream : Bool) : State × List Frame :=
  match s.call with
  | none => (s, [])
  | some k =>
      if k.form ≠ .unary ∧ k.decoder.hasMessage then
        let (msg, decoder) := k.decoder.takeMessage
        let s := s.setCall { k with decoder }
        if k.form = .serverStreaming then
          if k.dispatched then (finishStream s multipleRequests, [])
          else (dispatchStream s (some msg), [.onDataRest endStream])
        else (deliverRead s .okay false msg, [.onDataRest endStream])
      else (if endStream then finishRequest s else s, [])

/-- `FireCancel`. -/
def fireCancel (s : State) : State :=
  match s.call with
  | some k =>
      if k.cancelFired then s
      else
        { s with call := some { k with cancelFired := true, cancelCbs := [] }
                 log := s.log ++ k.cancelCbs.map .cancelled }
  | none => s

def deadlineExceeded : Status := ⟨.deadlineExceeded, str "deadline exceeded"⟩

/-- `OnDeadline` after the cancel callbacks. -/
def onDeadlineRest (s : State) : State :=
  match s.call with
  | some k =>
      if k.responded then s
      else
        let s := s.setCall { k with responded := true, deadlineTimer := 0 }
        if k.form ≠ .unary ∧ k.responseHeadersSent then
          s.sendTrailers (grpcStatusFields deadlineExceeded)
        else sendTrailersOnly s deadlineExceeded
  | none => s

def streamCancelled : Status := ⟨.unavailable, str "stream cancelled"⟩

/-- `CancelStreamIo` up to the queue loop. -/
def cancelStreamIo (s : State) : State :=
  match s.call with
  | some k =>
      match k.readCb with
      | some cb =>
          (s.setCall { k with readFinished := true, readCb := none }).note
            (.read cb streamCancelled false [])
      | none => s.setCall { k with readFinished := true }
  | none => s

/-- One trip round the queue loop of `CancelStreamIo`. -/
def cancelOut (s : State) : State × List Frame :=
  match s.call with
  | some k =>
      match k.outQueue with
      | [] => (s, [])
      | out :: queue =>
          let s := s.setCall { k with outQueue := queue }
          match out.cb with
          | some cb => (s.note (.wrote cb streamCancelled), [.cancelOut])
          | none => (s, [.cancelOut])
  | none => (s, [])

/-- The end of `OnStreamClose`: the call and its context go. -/
def closeErase (s : State) : State :=
  match s.call with
  | some k =>
      { s with timers := if k.deadlineTimer ≠ 0 then s.timers.erase k.deadlineTimer else s.timers
               call := none
               ctx := none }
  | none => s

/-! ## Handler operations -/

/-- `Respond`, `ReadMessage`, `WriteMessage`, `WriteDone`, `Finish`, `OnCancel`. -/
inductive Op where
  | respond (st : Status) (payload : Bytes)
  | readMessage (cb : CbId)
  | writeMessage (msg : Bytes) (cb : Option CbId)
  | writeDone
  | finish (st : Status)
  | onCancel (cb : CbId)
  deriving DecidableEq

def streamClosed : Status := ⟨.unavailable, str "stream closed"⟩

/-- `StreamCtx::ReadMessage`, on a context that holds `first`. -/
def readMessage (s : State) (first : Option Bytes) (cb : CbId) : State :=
  match s.call with
  | none => s.note (.read cb streamClosed false [])
  | some k =>
      if k.readFinished then s.note (.read cb streamClosed k.requestHalfClosed [])
      else
        match first with
        | some msg =>
            { s with ctx := some (.stream none) }.note (.read cb .okay false msg)
        | none =>
            match k.pendingMsgs with
            | msg :: msgs =>
                (s.setCall { k with pendingMsgs := msgs }).note (.read cb .okay false msg)
            | [] =>
                if k.requestHalfClosed then
                  (s.setCall { k with readFinished := true }).note (.read cb .okay true [])
                else if k.readCb.isSome then
                  s.note (.read cb ⟨.internal, str "concurrent read"⟩ false [])
                else s.setCall { k with readCb := some cb }

/-- A write callback, if there is one. -/
def tellWriter (s : State) (cb : Option CbId) (st : Status) : State :=
  match cb with
  | some cb => s.note (.wrote cb st)
  | none => s

/-- `StreamCtx::WriteMessage`. -/
def writeMessage (s : State) (msg : Bytes) (cb : Option CbId) : State × List Frame :=
  match s.call with
  | none => (tellWriter s cb streamClosed, [])
  | some k =>
      if k.responded || k.writeClosed then
        (tellWriter s cb ⟨.internal, str "stream finished"⟩, [])
      else if k.outQueue.length ≥ 64 then
        (tellWriter s cb ⟨.resourceExhausted, str "send queue full"⟩, [])
      else
        pumpOut { s.setCall { k with outQueue := k.outQueue ++ [⟨encodeFrame msg, cb⟩] } with
          accepted := s.accepted ++ [msg] }

/-- `StreamCtx::WriteDone`. -/
def writeDone (s : State) : State :=
  match s.call with
  | some k => s.setCall { k with writeClosed := true }
  | none => s

/-- `OnCancel`: refused once cancelled. -/
def onCancel (s : State) (cb : CbId) : State :=
  match s.call with
  | some k => if k.cancelFired then s else s.setCall { k with cancelCbs := k.cancelCbs ++ [cb] }
  | none => s

/-- `StreamCtx::Finish`, and `StreamCtx::Respond`, which maps to it. -/
def finish (s : State) (st : Status) : State :=
  finishStream { s with finishCalls := s.finishCalls ++ [st] } st

/-- An operation on the stream's context; `none` when the context has no such operation. -/
def applyOp (s : State) : Op → Option (State × List Frame)
  | .respond st payload =>
      match s.ctx with
      | some .unary => some (respond s st payload)
      | some (.stream _) => some (finish s st, [])
      | none => none
  | .readMessage cb =>
      match s.ctx with
      | some (.stream first) => some (readMessage s first cb, [])
      | _ => none
  | .writeMessage msg cb =>
      match s.ctx with
      | some (.stream _) => some (writeMessage s msg cb)
      | _ => none
  | .writeDone =>
      match s.ctx with
      | some (.stream _) => some (writeDone s, [])
      | _ => none
  | .finish st =>
      match s.ctx with
      | some (.stream _) => some (finish s st, [])
      | _ => none
  | .onCancel cb => if s.ctx.isSome then some (onCancel s cb, []) else none

/-! ## The machine -/

inductive Event where
  | headers (fields : HeaderMap) (endStream : Bool)
  | data (chunk : Bytes) (endStream : Bool)
  | deadline (timer : Nat)
  | pump
  | connectionLost
  | streamClose
  | credit (n : Nat)
  | consumed
  | op (o : Op)
  deriving DecidableEq

def exec (f : Frame) (s : State) : State × List Frame :=
  match f with
  | .onHeadersRest endStream => (if endStream then finishRequest s else s, [])
  | .onDataRest endStream => onDataRest s endStream
  | .respondData framed => (s.sendData framed none, [.respondTrailers])
  | .respondTrailers => (s.sendTrailers [("grpc-status", str "0")], [])
  | .onDeadlineRest => (onDeadlineRest s, [])
  | .pumpOutData out => (s.sendData out.framed (some out.cb), [])
  | .consumedRest => (maybeSendDeferredFinish { s with posted := s.posted + 1 }, [])
  | .cancelOut => cancelOut s
  | .fireCancel => (fireCancel s, [])
  | .closeErase => (closeErase s, [])

def fire (cfg : Config) (e : Event) (s : State) : Option (State × List Frame) :=
  match e with
  | .headers fields endStream =>
      if s.h2.closed then none
      else some (onHeadersComplete cfg { s with opened := true } fields endStream)
  | .data chunk endStream =>
      if s.opened && !s.h2.closed then some (onData s chunk endStream) else none
  | .deadline t =>
      if s.timers.contains t then
        -- the loop cancels the timer, then runs its task
        let s := { s with timers := s.timers.erase t }
        if s.call.isSome then some (fireCancel s, [.onDeadlineRest]) else some (s, [])
      else none
  | .pump => if 0 < s.posted then some (pumpOut { s with posted := s.posted - 1 }) else none
  | .connectionLost =>
      if s.connClosed then none
      else some (cancelStreamIo { s with connClosed := true }, [.cancelOut, .fireCancel])
  | .streamClose =>
      if s.opened && !s.h2.closed then
        let s := { s with h2 := s.h2.close }
        if s.call.isSome then some (cancelStreamIo s, [.cancelOut, .fireCancel, .closeErase])
        else some (s, [])
      else none
  | .credit n => if s.h2.closed then none else some ({ s with h2 := s.h2.credit n }, [])
  | .consumed =>
      match s.h2.notes with
      | [] => none
      | cb :: notes => some (onConsumed { s with h2 := { s.h2 with notes } } cb)
  | .op o => applyOp s o

/-- What foreign code can do while a function of the server waits for it. -/
def anytime : Event → Bool
  | .streamClose | .credit _ | .consumed | .op _ => true
  | .headers .. | .data .. | .deadline _ | .pump | .connectionLost => false

def machine (cfg : Config) : Resume.System State Frame Event where
  exec := exec
  fire := fire cfg
  anytime := anytime
  settled s := s.h2.notes.isEmpty

abbrev Conf := Resume.Conf State Frame
abbrev Label := Resume.Label Event

end Urpc.Server
