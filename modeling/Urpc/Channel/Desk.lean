/-
  What a channel holds for its users, on its own.

  `Desk` is the channel without its timers. `Desk.Move` lists the elementary
  changes a channel can make to it: an operation goes from one holder to the next, or a
  callback is called. `Steps` shows that each step of `machine` is a chain of moves. All results
  about the channel are inductions over the moves; none looks at the functions again.

  `Env` says what a run is allowed to do; a move that needs leave asks for it there.
-/
import Urpc.Channel.Impl

namespace Urpc.Channel

open Cxx

structure Desk where
  options : Options
  phase : Phase
  session : Bool
  calls : Nat → Option Call
  byStream : Nat → Option Nat
  pending : List PendingCall
  streams : Nat → Option Stream
  routes : Nat → Option Nat          -- `stream_by_sid`
  parked : List PendingStream        -- `pending_streams`
  posted : List Task
  senders : Nat → Sender Closure
  nextCallId : Nat
  nextSid : Nat
  log : List Obs
  issued : List Token
  accepted : List (Nat × Bytes)
  todo : List Frame

/-- The desk of a state and a stack. -/
def desk (s : State) (fs : List Frame) : Desk where
  options := s.options
  phase := s.phase
  session := s.session
  calls := s.calls
  byStream := s.byStream
  pending := s.pending
  streams := s.streams
  routes := s.streamBySid
  parked := s.pendingStreams
  posted := s.posted
  senders := s.senders
  nextCallId := s.nextCallId
  nextSid := s.nextSid
  log := s.log
  issued := s.issued
  accepted := s.accepted
  todo := fs

/-- Leave that moves ask for. -/
structure Env where
  feed : Nat → Bytes → Prop          -- this DATA has arrived
  clear : Prop                       -- connects fail with no stream parked
  calm : Prop                        -- streams terminate with no message in flight
  final : Prop := False              -- a message never joins a queue that a message closes
  spaced : Prop := False             -- streams are half-closed with no message in flight
  stern : Prop := False              -- no operation ends well
  honest : Prop := False             -- streams end well with no callback queued
  lasting : Prop := False            -- no stream ends
  ending : Prop := False             -- no queue of a stream changes, but by its end
  parking : Prop := False            -- no parked stream is started
  early : Nat → Prop := fun _ => False   -- this id is not cancelled before it is given out
  sent : Nat → Bytes → CbId → Prop := fun _ _ _ => True   -- this message was given with it
  mute : Prop := False               -- no message is given

/-- Tasks that hold no callback. -/
def Task.plain : Task → Bool
  | .cancel _ | .streamCloseSend _ | .pumpStream _ => true
  | .openStream _ _ events _ => !events.onComplete
  | .call .. | .streamSend .. => false

namespace Desk

/-- The call at the head of a queue, and the desk without it. -/
inductive NextCall (v : Desk) : Nat → NewCall → Desk → Prop where
  | posted {id : Nat} {path framed : Bytes} {timeoutMs : Nat} {call : NewCall} {ts : List Task}
      (timer : Nat) : v.posted = .call id path framed timeoutMs call :: ts →
      NextCall v id { call with timeoutTimer := timer } { v with posted := ts }
  | pending {pc : PendingCall} {rest : List PendingCall} : v.pending = pc :: rest →
      NextCall v pc.id pc.call { v with pending := rest }

/-- The stream at the head of a queue, and the desk without it. -/
inductive NextStream (v : Desk) : PendingStream → Desk → Prop where
  | posted {ps : PendingStream} {ts : List Task} :
      v.posted = .openStream ps.id ps.path ps.events ps.timeoutMs :: ts → ps.outQueue = [] →
      NextStream v ps { v with posted := ts }
  | parked {ps : PendingStream} {rest : List PendingStream} : v.parked = ps :: rest →
      NextStream v ps { v with parked := rest }

/-- Taking a call out of its queue changes nothing else. -/
theorem NextCall.same {v w : Desk} {id : Nat} {call : NewCall} (h : NextCall v id call w) :
    w.todo = v.todo ∧ w.phase = v.phase ∧ w.nextSid = v.nextSid ∧ w.calls = v.calls := by
  cases h <;> exact ⟨rfl, rfl, rfl, rfl⟩

/-- Taking a stream out of its queue changes nothing else. -/
theorem NextStream.same {v w : Desk} {ps : PendingStream} (h : NextStream v ps w) :
    w.todo = v.todo ∧ w.phase = v.phase ∧ w.nextSid = v.nextSid ∧ w.options = v.options := by
  cases h <;> exact ⟨rfl, rfl, rfl, rfl⟩

def setStream (v : Desk) (id : Nat) (st : Stream) : Desk :=
  { v with streams := Function.update v.streams id (some st) }

def setCall (v : Desk) (id : Nat) (call : Call) : Desk :=
  { v with calls := Function.update v.calls id (some call) }

def setSender (v : Desk) (sid : Nat) (h2 : Sender Closure) : Desk :=
  { v with senders := Function.update v.senders sid h2 }

def note (v : Desk) (os : List Obs) : Desk := { v with log := v.log ++ os }

/-- A new stream of the session. -/
def submit (v : Desk) (h2 : Sender Closure) : Desk :=
  { v.setSender v.nextSid h2 with nextSid := v.nextSid + 2 }

/-- The desk after the connection is lost. -/
def lose (v : Desk) : Desk :=
  { v with
    phase := .broken
    session := false
    senders := fun sid => (v.senders sid).close
    calls := fun _ => none
    byStream := fun _ => none
    streams := fun _ => none
    routes := fun _ => none
    parked := []
    log := v.log ++ (lostStreams (entries v.nextCallId v.streams) ++ lostParked v.parked ++
      lostCalls (entries v.nextCallId v.calls)) }

inductive Move (E : Env) : Desk → Desk → Prop where
  -- public functions
  | call {v : Desk} (path framed : Bytes) (timeoutMs : Nat) :
      Move E v { v with
        nextCallId := v.nextCallId + 1
        issued := v.issued ++ [.done v.nextCallId]
        posted := v.posted ++ [.call v.nextCallId path framed timeoutMs
          { decoder := .new v.options.maxReceiveSize }] }
  | openStream {v : Desk} (path : Bytes) (events : StreamEvents) (timeoutMs : Nat) :
      Move E v { v with
        nextCallId := v.nextCallId + 1
        issued := v.issued ++ if events.onComplete then [.complete v.nextCallId] else []
        posted := v.posted ++ [.openStream v.nextCallId path events timeoutMs] }
  | streamSend {v : Desk} (id : Nat) (framed : Bytes) (cb : Option CbId) (close : Bool) :
      (∀ k, cb = some k → E.sent id framed k) → ¬ E.mute →
      Move E v { v with
        issued := v.issued ++ cb.toList.map (.flushed id)
        posted := v.posted ++ [.streamSend id framed cb close] }
  | post {v : Desk} {t : Task} : t.plain = true →
      (∀ id, E.early id → t = .cancel id → id < v.nextCallId) →
      Move E v { v with posted := v.posted ++ [t] }
  | limit {v : Desk} (n : Nat) :
      Move E v { v with options := { v.options with maxReceiveSize := n } }
  -- the session
  | credit {v : Desk} (sid n : Nat) : Move E v (v.setSender sid ((v.senders sid).credit n))
  | close {v : Desk} (sid : Nat) : Move E v (v.setSender sid (v.senders sid).close)
  | reset {v : Desk} (sid : Nat) :
      Move E v (v.setSender sid { v.senders sid with subs := (v.senders sid).subs ++ [.reset] })
  | consumed {v : Desk} {sid : Nat} {n : Closure} {notes : List Closure} {st : Stream} :
      (v.senders sid).notes = n :: notes → v.streams n.id = some st → ¬ E.ending →
      Move E v (Desk.note { (v.setSender sid { v.senders sid with notes }).setStream n.id
        { st with outInflight := false } with
          posted := v.posted ++ [.pumpStream n.id] } (tellFlushed n.id n.cb .okay))
  | consumedLate {v : Desk} {sid : Nat} {n : Closure} {notes : List Closure} :
      (v.senders sid).notes = n :: notes → v.streams n.id = none → ¬ E.ending →
      Move E v ((v.setSender sid { v.senders sid with notes }).note (tellFlushed n.id n.cb .okay))
  -- the connection
  | connect {v : Desk} : v.phase = .idle → Move E v { v with phase := .connecting }
  | connected {v : Desk} : v.phase = .connecting → v.todo = [] →
      Move E v { v with
        session := true, phase := .ready, todo := [.startPending, .startPendingStreams] }
  | connectFailed {v : Desk} : v.phase = .connecting → v.pending = [] →
      (E.clear → v.parked = []) → Move E v { v with phase := .broken }
  | started {v : Desk} {fs : List Frame} : v.todo = .startPending :: fs → v.pending = [] →
      Move E v { v with todo := fs }
  | startedStreams {v : Desk} {fs : List Frame} : v.todo = .startPendingStreams :: fs →
      v.parked = [] → Move E v { v with todo := fs }
  | lost {v : Desk} : v.session = true → v.phase ≠ .broken → v.todo = [] →
      (E.calm → ∀ id < v.nextCallId, ∀ st, v.streams id = some st → st.completed = false →
        st.outInflight = false) → ¬ E.lasting →
      Move E v v.lose
  -- tasks without a callback of their own
  | skip {v : Desk} {t : Task} {ts : List Task} : v.posted = t :: ts → t.plain = true →
      Move E v { v with posted := ts }
  -- unary calls
  | callParked {v : Desk} {id : Nat} {path framed : Bytes} {timeoutMs : Nat} {call : NewCall}
      {ts : List Task} (timer : Nat) :
      v.posted = .call id path framed timeoutMs call :: ts →
      v.phase = .idle ∨ v.phase = .connecting →
      Move E v { v with
        posted := ts
        pending := v.pending ++ [⟨id, path, framed, { call with timeoutTimer := timer }⟩] }
  | callSubmitted {v v' : Desk} {id : Nat} {call : NewCall} (fields : HeaderMap) (body : Bytes) :
      NextCall v id call v' → v.phase = .ready →
      Move E v { v'.submit (submitRequest fields body) with
        todo := .callNowRest v.nextSid id call :: v.todo }
  | callFailed {v v' : Desk} {id : Nat} {call : NewCall} (status : Status) :
      NextCall v id call v' → status.ok = false →
      Move E v ({ v' with calls := Function.update v.calls id none }.note [.done id status []])
  | callRegistered {v : Desk} {sid id : Nat} {call : NewCall} {fs : List Frame} :
      v.todo = .callNowRest sid id call :: fs →
      Move E v ({ v with
          todo := fs
          byStream := Function.update v.byStream sid (some id) }.setCall id { call with sid })
  | callOver {v : Desk} {id : Nat} {call : Call} (status : Status) (payload : Bytes) :
      v.calls id = some call → call.completed = false → (E.stern → status.ok = false) →
      Move E v ({ v with
          calls := Function.update v.calls id none
          byStream := if call.sid ≠ 0 then Function.update v.byStream call.sid none
                      else v.byStream }.note [.done id status payload])
  | callFed {v : Desk} {sid id : Nat} {call : Call} {chunk : Bytes} (decoder : FrameDecoder) :
      E.feed sid chunk → v.calls id = some call → Move E v (v.setCall id { call with decoder })
  | callTimeout {v : Desk} {id : Nat} {call : Call} :
      v.calls id = some call → call.completed = false →
      Move E v { v.setCall id { call with completed := true, whole := by simp } with
        todo := .callTimeoutRest id :: v.todo }
  | callTimedOut {v : Desk} {id : Nat} {call : Call} {fs : List Frame} :
      v.todo = .callTimeoutRest id :: fs → v.calls id = some call →
      Move E v ({ v with todo := fs, calls := Function.update v.calls id none }.note
        (if call.done then [.done id deadlineExceeded []] else []))
  | callGone {v : Desk} {id : Nat} {fs : List Frame} :
      v.todo = .callTimeoutRest id :: fs → v.calls id = none → Move E v { v with todo := fs }
  | cancel {v : Desk} {id : Nat} {call : Call} :
      v.calls id = some call → call.completed = false →
      Move E v { v.setCall id { call with completed := true, done := false, whole := by simp } with
        todo := .cancelRest id :: v.todo }
  | cancelled {v : Desk} {id : Nat} {fs : List Frame} : v.todo = .cancelRest id :: fs →
      Move E v ({ v with todo := fs, calls := Function.update v.calls id none }.note
        [.done id cancelled []])
  -- streams
  | streamParked {v : Desk} {ps : PendingStream} {ts : List Task} :
      v.posted = .openStream ps.id ps.path ps.events ps.timeoutMs :: ts → ps.outQueue = [] →
      v.phase = .idle ∨ v.phase = .connecting →
      Move E v { v with posted := ts, parked := v.parked ++ [ps] }
  | streamOpened {v v' : Desk} {ps : PendingStream} : NextStream v ps v' → v.phase = .ready →
      (E.parking → v'.parked = v.parked) →
      Move E v { v'.submit
          (({} : Sender Closure).sendHeaders (requestHeaders v.options ps.path) false) with
        todo := .openStreamRest v.nextSid ps (.new v.options.maxReceiveSize) :: v.todo }
  | streamFailed {v v' : Desk} {ps : PendingStream} (status : Status) : NextStream v ps v' →
      status.ok = false → (E.parking → v'.parked = v.parked) →
      Move E v (v'.note (tellFail ps.id ps.outQueue ps.events status))
  | streamRegistered {v : Desk} {sid : Nat} {ps : PendingStream} {decoder : FrameDecoder}
      {fs : List Frame} (timer : Nat) : v.todo = .openStreamRest sid ps decoder :: fs → ¬ E.ending →
      Move E v ({ v with todo := fs, routes := Function.update v.routes sid (some ps.id) }.setStream
        ps.id (ps.toStream sid decoder timer))
  | streamFed {v : Desk} {sid id : Nat} {st : Stream} {chunk : Bytes} :
      E.feed sid chunk → v.routes sid = some id → v.streams id = some st →
      st.completed = false → (st.decoder.consume chunk).1.ok = true →
      Move E v ((v.setStream id
          { st with decoder := (takeMessages (st.decoder.consume chunk).2).2 }).note
        (if st.events.onMessage then
          (takeMessages (st.decoder.consume chunk).2).1.map (.message id .okay) else []))
  | streamOver {v : Desk} {id : Nat} {st : Stream} (decoder : FrameDecoder) (status : Status) :
      v.streams id = some st → st.completed = false → (E.calm → st.outInflight = false) →
      (E.stern → status.ok = false) →
      (E.honest → status.ok = true → ∀ m ∈ st.outQueue, m.cb = none) → ¬ E.lasting →
      Move E v ({ v.setStream id { st with
          completed := true, timeoutTimer := 0, outQueue := [], decoder } with
        routes := if st.sid ≠ 0 then Function.update v.routes st.sid none else v.routes }.note
          (tellFail id st.outQueue st.events status))
  | streamTimeout {v : Desk} {id : Nat} {st : Stream} : v.streams id = some st →
      st.completed = false →
      Move E v { v.setStream id { st with rstPending := true } with
        todo := .streamTimeoutRest id :: v.todo }
  | streamErased {v : Desk} {id : Nat} {st : Stream} {fs : List Frame} :
      v.todo = .streamTimeoutRest id :: fs → v.streams id = some st → st.completed = true →
      Move E v { v with todo := fs, streams := Function.update v.streams id none }
  | streamGone {v : Desk} {id : Nat} {fs : List Frame} :
      v.todo = .streamTimeoutRest id :: fs → v.streams id = none →
      Move E v { v with todo := fs }
  | unrouted {v : Desk} (sid : Nat) :
      Move E v { v with routes := Function.update v.routes sid none }
  | unregistered {v : Desk} (sid : Nat) :
      Move E v { v with byStream := Function.update v.byStream sid none }
  -- messages
  | sendParked {v : Desk} {id : Nat} {framed : Bytes} {cb : Option CbId} {close : Bool}
      {ts : List Task} {ps : PendingStream} : v.posted = .streamSend id framed cb close :: ts →
      v.parked.find? (fun ps => ps.id = id) = some ps →
      (E.final → ∀ m ∈ ps.outQueue, m.close = false) → ps.outQueue.length < 64 →
      Move E v { v with
        posted := ts
        parked := updateParked id
          (fun ps => { ps with outQueue := ps.outQueue ++ [⟨framed, close, cb⟩] }) v.parked
        accepted := v.accepted ++ [(id, framed)] }
  | sendQueued {v : Desk} {id : Nat} {framed : Bytes} {cb : Option CbId} {close : Bool}
      {ts : List Task} {st : Stream} : v.posted = .streamSend id framed cb close :: ts →
      v.streams id = some st → st.completed = false → st.sendClosed = false →
      (E.final → ∀ m ∈ st.outQueue, m.close = false) → st.outQueue.length < 64 → ¬ E.ending →
      Move E v (Desk.setStream { v with posted := ts, accepted := v.accepted ++ [(id, framed)] } id
        { st with outQueue := st.outQueue ++ [⟨framed, close, cb⟩] })
  | sendRefused {v : Desk} {id : Nat} {framed : Bytes} {cb : Option CbId} {close : Bool}
      {ts : List Task} (status : Status) : v.posted = .streamSend id framed cb close :: ts →
      status.ok = false → Move E v ({ v with posted := ts }.note (tellFlushed id cb status))
  | closeParked {v : Desk} (id : Nat) :
      Move E v { v with
        parked := updateParked id (fun ps => { ps with outQueue := closeQueue ps.outQueue })
          v.parked }
  | closeQueued {v : Desk} {id : Nat} {st : Stream} : v.streams id = some st →
      st.completed = false → st.outQueue ≠ [] → ¬ E.ending →
      Move E v (v.setStream id { st with outQueue := closeLast st.outQueue })
  | closeMarked {v : Desk} {id : Nat} {st : Stream} : v.streams id = some st →
      st.completed = false → st.outQueue = [] →
      Move E v (v.setStream id { st with sendClosed := true })
  | closeSent {v : Desk} {id : Nat} {st : Stream} : v.streams id = some st →
      st.completed = false → st.outQueue = [] → st.sendClosed = false →
      (E.spaced → st.outInflight = false) →
      Move E v ((v.setStream id { st with sendClosed := true }).setSender st.sid
        ((v.senders st.sid).sendData [] true none))
  | pumped {v : Desk} {id : Nat} {st : Stream} {out : OutMsg} {queue : List OutMsg} :
      v.streams id = some st → st.outQueue = out :: queue → st.completed = false →
      st.outInflight = false → v.session = true → ¬ E.ending →
      Move E v ((v.setStream id { st with
          outQueue := queue, outInflight := true
          sendClosed := st.sendClosed || out.close }).setSender st.sid
        ((v.senders st.sid).sendData out.framed out.close (some ⟨id, out.cb⟩)))

/-- A chain of moves. -/
abbrev Moves (E : Env) : Desk → Desk → Prop := Relation.ReflTransGen (Move E)

end Desk

end Urpc.Channel
