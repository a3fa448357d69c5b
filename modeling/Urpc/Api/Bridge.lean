/-
  The typed client API over the core channel: `Channel` and its bridge functions
  (`urpc_api_impl.cc`), the unary calls (`client.h`, `proxy.h`) and the client streams
  (`stream.h`).

  A `World` is one `urpc::Channel`, as long as it lives, and the streams opened on it. A stream
  keeps a raw `Channel*`; proxies keep a weak reference, so calls and openings start with a `lock`.
  Dereferencing a null pointer, a destroyed channel or the core channel after `Close` is undefined:
  a function that does it is `none` here, and the operation is a `fault`.

  Every function that asks something of the core channel returns the requests it makes; these are
  the public functions of `Channel.machine`. `debug` is `getenv("URPC_WIRE_DEBUG")`: it is the
  condition of the guard of `ChannelOpenStreamRaw`.

  Left out: `ClientReader::Read`, which does not use the channel, and what the callbacks of a
  unary call do later. Callbacks are assumed non-null.
-/
import Urpc.Api.ClientWriter

namespace Urpc.Api

open Cxx Channel

/-! ## The channel -/

/-- `core::Channel`, as far as its callers see it at once. -/
structure Core where
  nextCallId : Nat := 1

/-- `urpc::Channel`. -/
structure ChannelObj where
  closed : Bool := false
  core : Option Core := some {}       -- `impl_->channel`

/-- A `Channel*`. -/
inductive Ref where
  | null
  | channel
  deriving DecidableEq

/-- Which of the three classes a stream is. -/
inductive View where
  | reader
  | writer
  | readerWriter
  deriving DecidableEq

/-- A client stream: `ClientStreamImpl` with `writes_done_`. -/
structure ClientStream extends ClientWriter where
  view : View
  channel : Ref

structure World where
  channel : Option ChannelObj := some {}       -- `none`: destroyed
  streams : List ClientStream := []

/-- What an operation has told its caller when it returns, or before it waits. -/
inductive Answer where
  | later                      -- the core channel will answer
  | status (st : Status)       -- returned, or given to the callback
  | refused                    -- `Write` returns false
  | void
  deriving DecidableEq

inductive Outcome where
  | fault
  | ran (requests : List Event) (answer : Answer)
  deriving DecidableEq

def channelClosed : Status := ⟨.unavailable, str "channel closed"⟩
def requestEncodeFailed : Status := ⟨.internal, str "request encode failed"⟩
def callOnLoopThread : Status :=
  ⟨.internal, str "sync Call() is not allowed on the urpc event-loop thread"⟩
def finishOnLoopThread : Status :=
  ⟨.internal, str "sync Finish() is not allowed on the urpc event-loop thread"⟩

/-- A request message, and what becomes of it: the arena for it, and `upb_Encode`. -/
structure Request where
  arena : Bool := true
  encoded : Option Bytes

namespace ChannelObj

/-- `Channel::Close`: the loop is stopped, then the core channel is reset. -/
def close (ch : ChannelObj) : ChannelObj :=
  if ch.closed then ch else { closed := true, core := none }

/-- `ChannelCallRaw`. -/
def callRaw (ch : ChannelObj) (path framed : Bytes) (timeoutMs : Nat) :
    Option (ChannelObj × List Event) :=
  ch.core.map fun core =>
    ({ ch with core := some { core with nextCallId := core.nextCallId + 1 } },
      [.call path framed timeoutMs])

/-- `CallAsync`. -/
def callAsync (ch : ChannelObj) (path : Bytes) (request : Request) (timeoutMs : Nat) :
    Option (ChannelObj × List Event × Answer) :=
  if ch.closed then some (ch, [], .status channelClosed)
  else if !request.arena then some (ch, [], .status arenaAllocFailed)
  else
    match request.encoded with
    | none => some (ch, [], .status requestEncodeFailed)
    | some bytes =>
        (ch.callRaw path (encodeFrame bytes) timeoutMs).map fun (ch, events) =>
          (ch, events, .later)

/-- `Call`; `ChannelOnLoopThread` asks the loop, not the core channel. -/
def call (ch : ChannelObj) (onLoopThread : Bool) (path : Bytes) (request : Request)
    (timeoutMs : Nat) : Option (ChannelObj × List Event × Answer) :=
  if ch.closed then some (ch, [], .status channelClosed)
  else if onLoopThread then some (ch, [], .status callOnLoopThread)
  else ch.callAsync path request timeoutMs

end ChannelObj

namespace World

/-- The channel is closed or gone. -/
def isClosed (w : World) : Bool := w.channel.all ChannelObj.closed

/-- `channel_.lock().get()`. -/
def lock (w : World) : Ref := if w.channel.isSome then .channel else .null

/-- `*channel`. -/
def deref (w : World) : Ref → Option ChannelObj
  | .null => none
  | .channel => w.channel

/-- `*channel->impl()->channel`. -/
def derefCore (w : World) (p : Ref) : Option Core := (w.deref p).bind ChannelObj.core

/-! ## Bridge functions -/

/-- `ChannelOpenStreamRaw`: the world, the stream's id, the status that `on_complete` is called
    with at once, if it is, and the requests. -/
def channelOpenStreamRaw (debug : Bool) (w : World) (p : Ref) (path : Bytes) (timeoutMs : Nat) :
    Option (World × Nat × Option Status × List Event) :=
  let openStream : Option (World × Nat × Option Status × List Event) :=
    (w.deref p).bind fun ch => ch.core.map fun core =>
      ({ w with channel := some { ch with
          core := some { core with nextCallId := core.nextCallId + 1 } } },
        core.nextCallId, none, [.openStream path ⟨true, true⟩ timeoutMs])
  if debug then
    let shut := if p = .null then some true else (w.deref p).map ChannelObj.closed
    shut.bind fun shut => if shut then some (w, 0, some channelClosed, []) else openStream
  else openStream

/-- `ChannelStreamSendRaw`: the status that `on_flushed` is called with at once, if it is, and
    the requests. -/
def channelStreamSendRaw (w : World) (p : Ref) (id : Nat) (framed : Bytes) (cb : Option CbId)
    (close : Bool) : Option (Option Status × List Event) :=
  if p = .null then some (some channelClosed, [])
  else (w.derefCore p).map fun _ => (none, [.streamSend id framed cb close])

/-- `ChannelStreamCloseSendRaw`. -/
def channelStreamCloseSendRaw (w : World) (p : Ref) (id : Nat) : Option (List Event) :=
  if p = .null then some [] else (w.derefCore p).map fun _ => [.streamCloseSend id]

/-- `ChannelOnLoopThreadRaw`; it asks the core channel. -/
def channelOnLoopThreadRaw (w : World) (p : Ref) (onLoopThread : Bool) : Option Bool :=
  if p = .null then some false else (w.derefCore p).map fun _ => onLoopThread

/-! ## Unary calls -/

/-- `ProxyCallAsync`. -/
def proxyCallAsync (w : World) (path : Bytes) (request : Request) (timeoutMs : Nat) :
    Option (World × List Event × Answer) :=
  match w.channel with
  | none => some (w, [], .status channelClosed)
  | some ch =>
      if ch.closed then some (w, [], .status channelClosed)
      else (ch.callAsync path request timeoutMs).map fun (ch, events, answer) =>
        ({ w with channel := some ch }, events, answer)

/-- `ProxyCall`. -/
def proxyCall (w : World) (onLoopThread : Bool) (path : Bytes) (request : Request)
    (timeoutMs : Nat) : Option (World × List Event × Answer) :=
  match w.channel with
  | none => some (w, [], .status channelClosed)
  | some ch =>
      if ch.closed then some (w, [], .status channelClosed)
      else (ch.call onLoopThread path request timeoutMs).map fun (ch, events, answer) =>
        ({ w with channel := some ch }, events, answer)

/-! ## Opening streams -/

/-- `ClientStreamFactory::Open`. -/
def openStream (debug : Bool) (w : World) (view : View) (path : Bytes) (timeoutMs : Nat) :
    Option (World × ClientStream × List Event) :=
  (w.channelOpenStreamRaw debug w.lock path timeoutMs).map fun (w', id, told, events) =>
    (w', { id, view, channel := w.lock,
           state := match told with
             | some st => ({} : ClientStreamState).notifyTerminal st
             | none => {} }, events)

/-- `SendSingleRequest`. -/
def sendSingleRequest (w : World) (s : ClientStream) (request : Request) : Option (List Event) :=
  if !request.arena then some []
  else
    match request.encoded with
    | none => some []
    | some bytes =>
        (w.channelStreamSendRaw s.channel s.id (encodeFrame bytes) none true).map Prod.snd

/-- What an opening tells: the status of the stream, if it is over already. -/
def opened (w : World) (s : ClientStream) (events : List Event) :
    World × List Event × Answer :=
  ({ w with streams := w.streams ++ [s] }, events,
    if s.state.terminated then .status s.state.terminal else .later)

/-- `OpenClientReader`. -/
def openClientReader (debug : Bool) (w : World) (path : Bytes) (request : Request)
    (timeoutMs : Nat) : Option (World × List Event × Answer) :=
  (w.openStream debug .reader path timeoutMs).bind fun (w, s, events) =>
    (w.sendSingleRequest s request).map fun events' => w.opened s (events ++ events')

/-- `OpenClientWriter`. -/
def openClientWriter (debug : Bool) (w : World) (path : Bytes) (timeoutMs : Nat) :
    Option (World × List Event × Answer) :=
  (w.openStream debug .writer path timeoutMs).map fun (w, s, events) => w.opened s events

/-- `OpenClientReaderWriter`. -/
def openClientReaderWriter (debug : Bool) (w : World) (path : Bytes) (timeoutMs : Nat) :
    Option (World × List Event × Answer) :=
  (w.openStream debug .readerWriter path timeoutMs).map fun (w, s, events) => w.opened s events

/-! ## Streams -/

/-- `Write`; the request is `none` for a null pointer. -/
def write (w : World) (s : ClientStream) (onLoopThread : Bool) (request : Option Request)
    (cb : CbId) : Option (List Event × Answer) :=
  match request with
  | none => some ([], .refused)
  | some request =>
      if s.state.terminated then some ([], .refused)
      else
        (w.channelOnLoopThreadRaw s.channel onLoopThread).bind fun onLoop =>
          if onLoop || !request.arena then some ([], .refused)
          else
            match request.encoded with
            | none => some ([], .refused)
            | some bytes =>
                (w.channelStreamSendRaw s.channel s.id (encodeFrame bytes) (some cb) false).map
                  fun (told, events) => (events, if told.isSome then .refused else .later)

/-- `WritesDone`. -/
def writesDone (w : World) (s : ClientStream) : Option (ClientStream × List Event) :=
  if s.writesDone then some (s, [])
  else
    (w.channelStreamCloseSendRaw s.channel s.id).map fun events =>
      ({ s with writesDone := true }, events)

variable {Res : Type}

/-- `Finish` of each class. -/
def finish (w : World) (s : ClientStream) (caller : Caller Res) :
    Option (ClientStream × List Event × Answer) :=
  let rest (s : ClientStream) (events : List Event) : Option (ClientStream × List Event × Answer) :=
    (w.channelOnLoopThreadRaw s.channel caller.onLoopThread).map fun onLoop =>
      if s.view = .writer then
        match s.toClientWriter.finishRest { caller with onLoopThread := onLoop } with
        | some (result, writer) => ({ s with toClientWriter := writer }, events,
            .status result.status)
        | none => (s, events, .later)
      else if onLoop then (s, events, .status finishOnLoopThread)
      else (s, events, if s.state.terminated then .status s.state.terminal else .later)
  if s.view = .reader then rest s []
  else (w.writesDone s).bind fun (s, events) => rest s events

end World

/-! ## Sequences of operations -/

/-- A typed operation, or what happens to the channel in between: its last owner drops it, or the
    core channel calls a callback. -/
inductive Op (Res : Type) where
  | callAsync (path : Bytes) (request : Request) (timeoutMs : Nat)
  | call (onLoopThread : Bool) (path : Bytes) (request : Request) (timeoutMs : Nat)
  | openReader (path : Bytes) (request : Request) (timeoutMs : Nat)
  | openWriter (path : Bytes) (timeoutMs : Nat)
  | openReaderWriter (path : Bytes) (timeoutMs : Nat)
  | write (i : Nat) (onLoopThread : Bool) (request : Option Request) (cb : CbId)
  | writesDone (i : Nat)
  | finish (i : Nat) (caller : Caller Res)
  | close
  | expire
  | told (o : Obs)

namespace World

variable {Res : Type}

/-- The stream `i`, if it has a `Write`. -/
def writerAt (w : World) (i : Nat) : Option ClientStream :=
  w.streams[i]?.filter fun s => s.view != .reader

def setStreamAt (w : World) (i : Nat) (s : ClientStream) : World :=
  { w with streams := w.streams.set i s }

/-- An operation; `none` is a fault. One on a stream that does not exist does nothing. -/
def exec (debug : Bool) (w : World) : Op Res → Option (World × List Event × Answer)
  | .callAsync path request timeoutMs => w.proxyCallAsync path request timeoutMs
  | .call onLoopThread path request timeoutMs =>
      w.proxyCall onLoopThread path request timeoutMs
  | .openReader path request timeoutMs => w.openClientReader debug path request timeoutMs
  | .openWriter path timeoutMs => w.openClientWriter debug path timeoutMs
  | .openReaderWriter path timeoutMs => w.openClientReaderWriter debug path timeoutMs
  | .write i onLoopThread request cb =>
      match w.writerAt i with
      | none => some (w, [], .void)
      | some s =>
          (w.write s onLoopThread request cb).map fun (events, answer) => (w, events, answer)
  | .writesDone i =>
      match w.writerAt i with
      | none => some (w, [], .void)
      | some s => (w.writesDone s).map fun (s, events) => (w.setStreamAt i s, events, .void)
  | .finish i caller =>
      match w.streams[i]? with
      | none => some (w, [], .void)
      | some s =>
          (w.finish s caller).map fun (s, events, answer) => (w.setStreamAt i s, events, answer)
  | .close => some ({ w with channel := w.channel.map ChannelObj.close }, [], .void)
  | .expire => some ({ w with channel := none }, [], .void)
  | .told o =>
      -- callbacks come from the loop of a channel that is not closed
      if w.isClosed then some (w, [], .void)
      else some ({ w with streams := w.streams.map fun s =>
        { s with toClientWriter := s.toClientWriter.told o } }, [], .void)

/-- The operations of a sequence, each with the world it starts in and its outcome, up to a
    fault. -/
def run (debug : Bool) : World → List (Op Res) → List (World × Outcome)
  | _, [] => []
  | w, op :: ops =>
      match w.exec debug op with
      | none => [(w, .fault)]
      | some (w', events, answer) => (w, .ran events answer) :: run debug w' ops

end World

end Urpc.Api
