/-
  One server connection (`Server::Impl::Conn` of `urpc_server.cc`) with all its streams.

  The functions of the source take the connection and a stream id. What they do to `calls`, `ctxs`
  and the session's side of that stream is in `Stream`; a stream's `part` here is that. The rest
  is shared by all streams: the timers of the loop, with one counter for their ids, the queue of
  posted `PumpOut` tasks, the session's `consumed_notifications`, and the stack. `view` shows a
  stream what it works on, `put` writes back what it did: a timer is cancelled by its id, whoever
  has set it; new tasks and notifications go to the end of their queues.

  The loop has other users, so its counter may have moved on when a stream takes its turn
  (`Turn.clock`). Tasks are run and notifications are drained in order. Events of the loop find an
  empty stack and no notification, of any stream.

  The `timers`, `next_timer`, `posted` and notifications in a `part` are not used.
-/
import Urpc.Server.Stream

namespace Urpc.Server

open Cxx

structure Conn where
  part : Nat → State := fun _ => {}                 -- by stream id
  timers : List (Nat × Nat) := []                   -- the id, and the stream its closure keeps
  nextTimer : Nat := 1
  posted : List Nat := []                           -- `PumpOut` tasks, by stream id
  notes : List (Nat × Option CbId) := []            -- `consumed_notifications`
  stack : List (Nat × Frame) := []

/-- One step: whose it is, where the counter of the timers is, and what it does. -/
structure Turn where
  sid : Nat
  clock : Nat
  label : Label
  deriving DecidableEq

/-- Without what is shared. -/
def State.alone (s : State) : State :=
  { s with timers := [], nextTimer := 1, posted := 0, h2 := { s.h2 with notes := [] } }

namespace Conn

def notesOf (c : Conn) (sid : Nat) : List (Option CbId) :=
  (c.notes.filter fun n => n.1 = sid).map Prod.snd

/-- What the stream works on: its part, and all the timers. -/
def view (c : Conn) (sid clock : Nat) : State :=
  { c.part sid with
    timers := c.timers.map Prod.fst
    nextTimer := clock
    posted := c.posted.count sid
    h2 := { (c.part sid).h2 with notes := c.notesOf sid } }

/-- The connection after the stream has worked: timers that are not armed any more go, new ones are
    the stream's; new tasks and notifications wait behind the others. -/
def put (c : Conn) (sid : Nat) (r : State × List Frame) : Conn where
  part := Function.update c.part sid r.1.alone
  timers := (c.timers.filter fun e => r.1.timers.contains e.1) ++
    (r.1.timers.filter fun t => !(c.timers.map Prod.fst).contains t).map (·, sid)
  nextTimer := r.1.nextTimer
  posted := c.posted ++ List.replicate (r.1.posted - c.posted.count sid) sid
  notes := c.notes ++ (r.1.h2.notes.drop (c.notesOf sid).length).map (sid, ·)
  stack := r.2.map (sid, ·) ++ c.stack

local instance : LawfulBEq (Nat × Nat) := inferInstance

/-- The event takes its task or notification, which must be the first, or has its timer. -/
def take (c : Conn) (sid : Nat) : Event → Option Conn
  | .consumed =>
      match c.notes with
      | (sid', _) :: notes => if sid' = sid then some { c with notes } else none
      | [] => none
  | .pump =>
      match c.posted with
      | sid' :: posted => if sid' = sid then some { c with posted } else none
      | [] => none
  | .deadline t => if (t, sid) ∈ c.timers then some c else none
  | .connectionLost => none                         -- not an event of one stream
  | _ => some c

def step (cfg : Config) (c : Conn) (t : Turn) : Option Conn :=
  if t.clock < c.nextTimer then none
  else
    match t.label with
    | .resume =>
        match c.stack with
        | (sid, f) :: rest =>
            if sid = t.sid then
              some (put { c with stack := rest } sid (exec f (c.view sid t.clock)))
            else none
        | [] => none
    | .event e =>
        if anytime e || (c.stack.isEmpty && c.notes.isEmpty) then
          (c.take t.sid e).bind fun base =>
            (fire cfg e (c.view t.sid t.clock)).map fun r => base.put t.sid r
        else none

def run (cfg : Config) (c : Conn) : List Turn → Option Conn
  | [] => some c
  | t :: ts => (c.step cfg t).bind fun d => d.run cfg ts

end Conn

end Urpc.Server
