/-
  The life of a server (`Server::Impl` of `urpc_server.cc` and the listener of
  `urpc_platform.cpp`): start, connections, the drain handshake of `Shutdown`, destruction.

  Calls are kept as far as the handshake looks at them: which ones a connection has. What
  happens inside a call is the subject of `Stream`; here its streams open, are dispatched and
  close, its deadline timers are armed and its `PumpOut` tasks posted.

  `OnRead`, `OnStreamClose` and `FinishShutdown` call user callbacks in the middle of their
  bodies; the rest is a frame. `FinishShutdown` does so with `mu` locked. `mu` is not recursive:
  a function that locks it on the loop thread while that thread holds it leaves the server
  `stuck`, and nothing happens any more.

  A removed connection is gone: timers and tasks that still point to it find nothing where the
  source reads freed memory, and so does the grace timer of a destroyed server.
  Left out: logging, a second `Start` while the first is waiting, `Start` and `Shutdown` called
  on the loop thread. The fields from `swept` on are records kept for the proofs.
-/
import Urpc.Lib.Resume

namespace Urpc.Server.Impl

/-- What `Start` comes to. -/
inductive Outcome where
  | listening
  | badAddress
  | bindFailed
  | listenFailed
  deriving DecidableEq

/-- The handle of the `TcpListener`. -/
inductive Listener where
  | absent        -- `loop_` is null, nothing was closed
  | idle          -- initialised, not listening
  | serving
  | closing       -- `uv_close` was called
  | closed        -- its callback has run
  deriving DecidableEq

structure Call where
  sid : Nat
  dispatched : Bool := false
  late : Bool := false             -- record: opened after the task of `Shutdown`
  deriving DecidableEq

structure Conn where
  id : Nat
  closed : Bool := false
  socket : Bool := true            -- `socket` is not null
  calls : List Call := []
  deriving DecidableEq

structure State where
  startPosted : Bool := false
  startDone : Bool := false
  listening : Bool := false
  listener : Listener := .absent
  shutdownRequested : Bool := false
  shutdownPosted : Bool := false
  drained : Bool := false
  conns : List Conn := []
  nextConn : Nat := 0
  grace : Bool := false                     -- the grace timer is armed
  deadlines : List (Nat × Nat) := []        -- armed deadline timers: connection and stream
  pumps : List Nat := []                    -- posted `PumpOut` tasks: their connections
  locked : Bool := false                    -- the loop thread holds `mu`
  stuck : Bool := false                     -- and waits for it
  alive : Bool := true                      -- the server has not been destroyed
  swept : Bool := false                     -- the task of `Shutdown` has run
  listenerCloses : Nat := 0                 -- `uv_close` on the listener
  socketCloses : List Nat := []             -- `uv_close` on accepted sockets
  drains : Nat := 0                         -- how often `drained` was set
  lateConns : Nat := 0                      -- connections added after the task of `Shutdown`
  lateDispatches : Nat := 0                 -- dispatches of streams opened after it

/-- What is left of a function's body after a user callback. -/
inductive Frame where
  | onReadRest
  | onStreamCloseRest (conn sid : Nat)
  | finishConn (conn : Nat)
  | finishSocket (conn : Nat)
  | finishEnd
  deriving DecidableEq

namespace State

/-- `conns` with the connection `id` changed. -/
def update (s : State) (id : Nat) (f : Conn → Conn) : State :=
  { s with conns := s.conns.map fun conn => if conn.id = id then f conn else conn }

/-- The connection of that identity, if it is still in `conns`. -/
def find (s : State) (id : Nat) : Option Conn := s.conns.find? fun conn => conn.id = id

end State

/-- `drained = true`, once. -/
def setDrained (s : State) : State :=
  if s.drained then s else { s with drained := true, drains := s.drains + 1 }

/-- The callbacks given to `listener->Close`: they lock `mu`. -/
def finish (s : State) : State :=
  if s.locked then { s with stuck := true } else setDrained s

/-- `TcpListener::Close`. -/
def closeListener (s : State) : State :=
  match s.listener with
  | .idle | .serving => { s with listener := .closing, listenerCloses := s.listenerCloses + 1 }
  | .absent | .closing | .closed => finish s

/-- `uv_close` on the sockets of `conns`. -/
def closeSockets (s : State) (conns : List Conn) : State :=
  { s with socketCloses := s.socketCloses ++ (conns.filter Conn.socket).map Conn.id }

/-- `conn->closed = true`. -/
def markClosed (s : State) (id : Nat) : State := s.update id fun conn => { conn with closed := true }

/-- `FinishShutdown` closes the socket of a connection, if it still has one. -/
def finishSocket (s : State) (id : Nat) : State :=
  closeSockets (s.update id fun conn => { conn with socket := false })
    (s.conns.filter fun conn => conn.id = id)

/-- `OnConnIdle`. -/
def onConnIdle (s : State) : State :=
  if s.locked then { s with stuck := true }
  else
    let s := { s with conns := s.conns.filter fun conn => !conn.closed }
    if s.shutdownRequested && s.conns.isEmpty && !s.drained && s.listening then
      closeListener { s with listening := false }
    else s

/-- The end of `FinishShutdown`. -/
def finishEnd (s : State) : State :=
  let s := { s with conns := [] }
  if s.listening then closeListener { s with listening := false, locked := false }
  else { setDrained s with locked := false }

/-- The frames of `FinishShutdown`: every connection, then the end. -/
def finishFrames (conns : List Conn) : List Frame :=
  (conns.flatMap fun conn => [.finishConn conn.id, .finishSocket conn.id]) ++ [.finishEnd]

/-- `FinishShutdown` up to the first callback. -/
def finishShutdown (s : State) : State × List Frame :=
  if s.drained then (s, []) else ({ s with locked := true }, finishFrames s.conns)

/-- The task of `Shutdown` closes and removes the connections without calls. -/
def closeIdle (s : State) : State :=
  closeSockets { s with swept := true, conns := s.conns.filter fun conn => !conn.calls.isEmpty }
    (s.conns.filter fun conn => conn.calls.isEmpty)

/-- The task that `Shutdown` posts; it holds `mu` from its first line to its last. -/
def shutdownTask (s : State) : State :=
  let s := closeIdle s
  if !s.conns.isEmpty then { s with grace := true }
  else
    let s := { s with locked := true }
    let s := if s.listening then closeListener { s with listening := false } else finish s
    if s.stuck then s else { s with locked := false }

/-- The task that `Start` posts. -/
def startTask (s : State) (outcome : Outcome) : State :=
  { s with
    startPosted := false
    startDone := true
    listening := outcome == .listening
    listener :=
      match outcome with
      | .listening => .serving
      | .badAddress => .absent
      | .bindFailed | .listenFailed => .idle }

def accept (s : State) : State :=
  { s with
    conns := s.conns ++ [{ id := s.nextConn }]
    nextConn := s.nextConn + 1
    lateConns := s.lateConns + if s.swept then 1 else 0 }

/-- `OnHeadersComplete` as far as it registers a call and arms its deadline. -/
def openStream (s : State) (id sid : Nat) (deadline : Bool) : State :=
  { s.update id (fun conn => { conn with calls := conn.calls ++ [{ sid, late := s.swept }] }) with
    deadlines := if deadline then s.deadlines ++ [(id, sid)] else s.deadlines }

/-- The handler of a call is invoked. -/
def dispatch (s : State) (id : Nat) (call : Call) : State :=
  { s.update id (fun conn => { conn with
      calls := conn.calls.map fun c => if c.sid = call.sid then { c with dispatched := true } else c })
    with lateDispatches := s.lateDispatches + if call.late then 1 else 0 }

/-- `calls.erase(it)`, with the deadline timer cancelled. -/
def eraseCall (s : State) (id sid : Nat) : State :=
  { s.update id (fun conn => { conn with calls := conn.calls.filter fun c => c.sid ≠ sid }) with
    deadlines := s.deadlines.filter fun t => t ≠ (id, sid) }

/-- `OnStreamClose` after the callbacks. -/
def onStreamCloseRest (s : State) (id sid : Nat) : State := onConnIdle (eraseCall s id sid)

inductive Event where
  | start
  | startTask (outcome : Outcome)
  | shutdown
  | shutdownTask
  | graceTimer
  | listenerClosed
  | accept
  | openStream (conn sid : Nat) (deadline : Bool)
  | dispatch (conn sid : Nat)
  | streamClose (conn sid : Nat)
  | stopDeadline (conn sid : Nat)
  | deadline (conn sid : Nat)
  | postPump (conn : Nat)
  | pump
  | connLost (conn : Nat)
  | destroy
  deriving DecidableEq

/-- A thread that waits for `mu` runs no frame. -/
def exec (f : Frame) (s : State) : State × List Frame :=
  if s.stuck then (s, [f])
  else
    match f with
    | .onReadRest => (onConnIdle s, [])
    | .onStreamCloseRest id sid => (onStreamCloseRest s id sid, [])
    | .finishConn id => (markClosed s id, [])
    | .finishSocket id => (finishSocket s id, [])
    | .finishEnd => (finishEnd s, [])

/-- What an event does; `none` when it cannot happen. -/
def handle (s : State) : Event → Option (State × List Frame)
  | .start =>
      if s.alive && !s.startDone && !s.startPosted then some ({ s with startPosted := true }, [])
      else none
  | .startTask outcome => if s.startPosted then some (startTask s outcome, []) else none
  | .shutdown =>
      if !s.alive || s.locked then none
      else if !s.startDone || s.shutdownRequested then some (s, [])
      else some ({ s with shutdownRequested := true, shutdownPosted := true }, [])
  | .shutdownTask =>
      if !s.shutdownPosted then none
      else
        let s := { s with shutdownPosted := false }
        some (if s.alive then shutdownTask s else s, [])
  | .graceTimer =>
      if !s.grace then none
      else
        let s := { s with grace := false }
        some (if s.alive then finishShutdown s else (s, []))
  | .listenerClosed =>
      if s.listener = .closing then some (finish { s with listener := .closed }, []) else none
  | .accept => if s.listener = .serving then some (accept s, []) else none
  | .openStream id sid deadline =>
      match s.find id with
      | some conn =>
          if !conn.closed && conn.calls.all (fun c => c.sid ≠ sid) then
            some (openStream s id sid deadline, [])
          else none
      | none => none
  | .dispatch id sid =>
      match (s.find id).bind fun conn => conn.calls.find? fun c => c.sid = sid && !c.dispatched with
      | some call => some (dispatch s id call, [])
      | none => none
  | .streamClose id sid =>
      match s.find id with
      | some conn =>
          if conn.calls.any fun c => c.sid = sid then some (s, [.onStreamCloseRest id sid])
          else some (onConnIdle s, [])
      | none => none
  | .stopDeadline id sid | .deadline id sid =>
      if (id, sid) ∈ s.deadlines then
        some ({ s with deadlines := s.deadlines.filter fun t => t ≠ (id, sid) }, [])
      else none
  | .postPump id =>
      if (s.find id).isSome then some ({ s with pumps := s.pumps ++ [id] }, []) else none
  | .pump =>
      match s.pumps with
      | [] => none
      | _ :: pumps => some ({ s with pumps }, [])
  | .connLost id =>
      match s.find id with
      | some conn =>
          if conn.closed then none
          else some (markClosed s id, [.onReadRest])
      | none => none
  | .destroy =>
      -- `~Server` calls `Shutdown`, which returns when nothing was started or all is drained
      if s.alive && (s.drained || !s.startDone && !s.startPosted) then
        some ({ s with alive := false }, [])
      else none

def fire (e : Event) (s : State) : Option (State × List Frame) :=
  if s.stuck then none else handle s e

/-- What can happen inside a user callback, or on another thread. -/
def anytime : Event → Bool
  | .start | .shutdown | .streamClose .. | .stopDeadline .. | .postPump _ => true
  | .startTask _ | .shutdownTask | .graceTimer | .listenerClosed | .accept | .openStream ..
  | .dispatch .. | .deadline .. | .pump | .connLost _ | .destroy => false

def machine : Resume.System State Frame Event where
  exec := exec
  fire := fire
  anytime := anytime
  settled s := !s.stuck

abbrev Conf := Resume.Conf State Frame
abbrev Label := Resume.Label Event

/-- A server that nobody has started. -/
def fresh : Conf := { st := {} }

end Urpc.Server.Impl
