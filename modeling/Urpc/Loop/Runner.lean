/-
  `LoopRunner` (`urpc_loop.cpp`): the queue of posted tasks, the loop thread that drains it, and
  the life cycle `Start`, `Stop`.

  The model interleaves the atomic steps of all threads: a `Post` appends under the lock, then reads
  `running_`, then calls `uv_async_send`; `Stop` exchanges `running_`, then clears the queue and
  appends its close-all task under the lock, then signals, then waits; the loop thread tests
  `running_`, polls in `uv_run`, is woken, swaps the queue out under the lock and runs the tasks one
  by one. Any number of threads, and the tasks themselves, can be in the middle of a `Post`:
  `loading` and `sending` count them. `Start` and `Stop` are called one after the other.

  Assumed of libuv: a signal sent to an open handle is served by a later callback of the poll, and
  signals sent before that are one; a closed handle takes none; `uv_run` may return for other events
  of the loop at any time. `uv_loop_init` and `uv_async_init` succeed. `Start` after a `Stop` that
  has given up on a loop thread which still runs is left out, and so are timers and logging.

  `during`, `appends`, `executed` and `drains` are records kept for the proofs.
-/
import Urpc.Lib.Walk

namespace Urpc.Loop

inductive Task where
  | user (name : Nat)
  | closeAll (loop : Nat)           -- `CloseAllHandlesOnLoop`, pushed by the `Stop` of that loop
  deriving DecidableEq

/-- An entry of `pending_`. -/
structure Posted where
  task : Task
  during : Nat                      -- drains begun when it was appended
  deriving DecidableEq

/-- A task that was run, on which loop and in which drain. -/
structure Done extends Posted where
  loop : Nat
  drain : Nat
  deriving DecidableEq

/-- Where the loop thread is. -/
inductive Thread where
  | none                            -- not started, or `RunLoop` has returned
  | check                           -- before the test of `running_`
  | poll                            -- in `uv_run`
  | woken                           -- in `DrainPending`, before the swap
  | drain (ready : List Posted)     -- in `DrainPending`, with the tasks not begun yet
  deriving DecidableEq

/-- Where `Stop` is. -/
inductive Stopper where
  | none
  | exchanged
  | queued                          -- the close-all task is in `pending_`
  | waiting                         -- for `loop_exited_`
  deriving DecidableEq

structure State where
  running : Bool := false
  loopExited : Bool := false
  pending : List Posted := []
  thread : Thread := .none
  loop : Nat := 0                   -- loops initialised so far
  wakeOpen : Bool := false          -- `wake_` is initialised and not closing
  signal : Bool := false            -- a signal of `wake_` is not served yet
  loading : Nat := 0                -- calls of `Post` between the append and the test
  sending : Nat := 0                -- those that have read `running_` as true
  stopper : Stopper := .none
  onLoop : Bool := false            -- `Stop` was called by a task
  appends : List Posted := []
  executed : List Done := []
  drains : Nat := 0
  deriving DecidableEq

inductive Label where
  | start
  -- `Post`
  | append (name : Nat)
  | load
  | send
  -- the loop thread
  | check
  | wakeup
  | uvReturn                        -- `uv_run` returns for another event
  | swap
  | runTask
  | drained
  -- `Stop`
  | stop (onLoop : Bool)
  | stopClear
  | stopSend
  | stopJoin
  | stopGiveUp                      -- the bounded wait is over
  deriving DecidableEq

namespace Thread

/-- The tasks that were swapped out and have not begun. -/
def ready : Thread → List Posted
  | .drain ready => ready
  | _ => []

def draining : Thread → Bool
  | .woken | .drain _ => true
  | _ => false

end Thread

namespace State

/-- `push_back`. -/
def push (s : State) (t : Task) : State :=
  let e : Posted := ⟨t, s.drains⟩
  { s with pending := s.pending ++ [e], appends := s.appends ++ [e] }

/-- `uv_async_send(&wake_)`. -/
def asyncSend (s : State) : State := { s with signal := s.signal || s.wakeOpen }

/-- `Start`, as far as it succeeds: a second one while the loop runs returns false. -/
def start (s : State) : Option State :=
  if s.running || s.thread != .none || s.stopper != .none then none
  else some { s with
    running := true
    loopExited := false
    thread := .check
    loop := s.loop + 1
    wakeOpen := true
    signal := false }

/-- The test of `RunLoop`. -/
def check (s : State) : State :=
  if s.running then { s with thread := .poll } else { s with thread := .none, loopExited := true }

/-- `task()`: `CloseAllHandlesOnLoop` closes `wake_`, with every other handle of the loop. -/
def runTask (s : State) (e : Posted) (ready : List Posted) : State :=
  let s := { s with
    thread := .drain ready
    executed := s.executed ++ [{ e with loop := s.loop, drain := s.drains }] }
  match e.task with
  | .user _ => s
  | .closeAll _ => { s with wakeOpen := false, signal := false }

/-- A task that is in `Stop` holds up the loop thread. -/
def held (s : State) : Bool := s.onLoop && s.stopper != .none

def step (s : State) : Label → Option State
  | .start => s.start
  | .append name => some { s.push (.user name) with loading := s.loading + 1 }
  | .load =>
      if s.loading = 0 then none
      else some { s with
        loading := s.loading - 1
        sending := if s.running then s.sending + 1 else s.sending }
  | .send => if s.sending = 0 then none else some { s.asyncSend with sending := s.sending - 1 }
  | .check => if s.thread = .check then some s.check else none
  | .wakeup =>
      if s.thread = .poll && s.signal then some { s with thread := .woken, signal := false }
      else none
  | .uvReturn => if s.thread = .poll then some { s with thread := .check } else none
  | .swap =>
      if s.thread = .woken then
        some { s with thread := .drain s.pending, pending := [], drains := s.drains + 1 }
      else none
  | .runTask =>
      match s.thread with
      | .drain (e :: ready) => if s.held then none else some (s.runTask e ready)
      | _ => none
  | .drained =>
      if s.thread = .drain [] && !s.held then some { s with thread := .check } else none
  | .stop onLoop =>
      if s.running && s.stopper = .none && (!onLoop || s.thread.draining) then
        some { s with running := false, stopper := .exchanged, onLoop }
      else none
  | .stopClear =>
      if s.stopper = .exchanged then
        some { { s with pending := [] }.push (.closeAll s.loop) with stopper := .queued }
      else none
  | .stopSend =>
      if s.stopper = .queued then some { s.asyncSend with stopper := .waiting } else none
  | .stopJoin =>
      if s.stopper = .waiting && s.loopExited then some { s with stopper := .none } else none
  | .stopGiveUp =>
      if s.stopper = .waiting && !s.loopExited then some { s with stopper := .none } else none

end State

open Walk

/-- A `LoopRunner` that nobody has used. -/
def fresh : State := {}

/-- Runs of a `LoopRunner`. -/
abbrev Reach (ok : State → Label → Prop) : State → State → Prop := Walk.Reach State.step ok

end Urpc.Loop
