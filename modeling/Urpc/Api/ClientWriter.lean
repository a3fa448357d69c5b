/-
  `ClientWriter` (`urpc/stream.h`): the client's end of a client-streaming call.

  `ClientStreamFactory::Open` hands two callbacks to the channel. They collect the messages and the
  terminal status of the stream in a `ClientStreamState`, and `Finish` makes one response of it:
  the first message, if the status is OK and there is one.

  A writer that has been told the callbacks of a run, with calls of `Finish` in between, still has
  every message of its stream or has given up all of them (`run_kept`).
-/
import Urpc.Channel.Terminal

namespace Urpc.Api

open Cxx Channel

/-! ## The model -/

/-- `detail::ClientStreamState`: the messages in order, and the terminal event. -/
structure ClientStreamState where
  messages : List Bytes := []
  terminated : Bool := false
  terminal : Status := .okay

namespace ClientStreamState

/-- The `on_message` of `Open`. -/
def onMessage (s : ClientStreamState) (st : Status) (payload : Bytes) : ClientStreamState :=
  if !st.ok then s else { s with messages := s.messages ++ [payload] }

/-- `NotifyTerminal`, the `on_complete` of `Open`. -/
def notifyTerminal (s : ClientStreamState) (st : Status) : ClientStreamState :=
  { s with terminal := st, terminated := true }

end ClientStreamState

/-- `Result<T>`. -/
structure Result (α : Type) where
  status : Status
  value : Option α

structure ClientWriter where
  id : Nat
  state : ClientStreamState := {}
  writesDone : Bool := false

/-- What `Finish` meets: the thread it is called on, whether `upb_Arena_New` gives an arena, and
    `res_decoder_`. -/
structure Caller (Res : Type) where
  onLoopThread : Bool
  arena : Bool
  decode : Bytes → Option Res

namespace ClientWriter

variable {Res : Type}

/-- The callbacks that `Open` has handed over for the stream of this writer. -/
def told (w : ClientWriter) : Obs → ClientWriter
  | .message id st msg => if id = w.id then { w with state := w.state.onMessage st msg } else w
  | .complete id st => if id = w.id then { w with state := w.state.notifyTerminal st } else w
  | .done .. | .flushed .. => w

/-- `WritesDone`, with what it asks of the channel. -/
def callWritesDone (w : ClientWriter) : List Event × ClientWriter :=
  if w.writesDone then ([], w) else ([.streamCloseSend w.id], { w with writesDone := true })

/-- `Finish` after `WritesDone`; `none` while it waits in `WaitTerminal`. -/
def finishRest (w : ClientWriter) (caller : Caller Res) : Option (Result Res × ClientWriter) :=
  if caller.onLoopThread then
    some (⟨⟨.internal, str "sync Finish() is not allowed on the urpc event-loop thread"⟩, none⟩, w)
  else if !w.state.terminated then none
  else if !w.state.terminal.ok then some (⟨w.state.terminal, none⟩, w)
  else
    match w.state.messages with
    | [] => some (⟨⟨.dataLoss, str "missing response"⟩, none⟩, w)
    | payload :: _ =>
        let w := { w with state := { w.state with messages := [] } }
        if !caller.arena then some (⟨⟨.internal, str "arena alloc failed"⟩, none⟩, w)
        else
          match caller.decode payload with
          | none => some (⟨⟨.dataLoss, str "decode failed"⟩, none⟩, w)
          | some res => some (⟨.okay, some res⟩, w)

/-- `Finish`, with what `WritesDone` asks of the channel. -/
def finish (w : ClientWriter) (caller : Caller Res) :
    List Event × Option (Result Res × ClientWriter) :=
  let (events, w) := w.callWritesDone
  (events, w.finishRest caller)

/-! ## Runs -/

/-- A callback of the channel, or a call of `Finish`. -/
inductive Input (Res : Type) where
  | told (o : Obs)
  | finish (caller : Caller Res)

/-- The callbacks among some inputs. -/
def log (inputs : List (Input Res)) : List Obs :=
  inputs.filterMap fun
    | .told o => some o
    | .finish _ => none

/-- The writer after one input; a `Finish` that waits has done its `WritesDone`. -/
def input (w : ClientWriter) : Input Res → ClientWriter
  | .told o => w.told o
  | .finish caller =>
      match (w.finish caller).2 with
      | some (_, w') => w'
      | none => w.callWritesDone.2

def run (id : Nat) (inputs : List (Input Res)) : ClientWriter := inputs.foldl input { id }

/-- The messages that `on_message` of one stream has been given with OK. -/
def received (id : Nat) (log : List Obs) : List Bytes :=
  log.filterMap fun
    | .message id' st msg => if id' = id ∧ st.ok = true then some msg else none
    | _ => none

theorem received_append (id : Nat) (log log' : List Obs) :
    received id (log ++ log') = received id log ++ received id log' :=
  List.filterMap_append ..

/-! ## What `Finish` leaves -/

@[simp] theorem callWritesDone_id (w : ClientWriter) : w.callWritesDone.2.id = w.id := by
  unfold callWritesDone
  split <;> rfl

@[simp] theorem callWritesDone_state (w : ClientWriter) :
    w.callWritesDone.2.state = w.state := by
  unfold callWritesDone
  split <;> rfl

/-- What is left of a stream that `Finish` has looked at. -/
def Left (s s' : ClientStreamState) : Prop :=
  s' = s ∨ s.terminated = true ∧ s' = { s with messages := [] }

theorem finishRest_left {w w' : ClientWriter} {caller : Caller Res} {res : Result Res}
    (h : w.finishRest caller = some (res, w')) : w'.id = w.id ∧ Left w.state w'.state := by
  unfold finishRest at h
  split at h
  · cases h
    exact ⟨rfl, .inl rfl⟩
  · split at h
    · cases h
    · next hterm =>
        have hterm : w.state.terminated = true := by simpa using hterm
        split at h
        · cases h
          exact ⟨rfl, .inl rfl⟩
        · split at h
          · cases h
            exact ⟨rfl, .inl rfl⟩
          · dsimp only at h
            split at h
            · cases h
              exact ⟨rfl, .inr ⟨hterm, rfl⟩⟩
            · split at h <;> cases h <;> exact ⟨rfl, .inr ⟨hterm, rfl⟩⟩

/-- `Finish` is only OK with a message to give. -/
theorem finish_ok {w w' : ClientWriter} {caller : Caller Res} {res : Result Res}
    (h : (w.finish caller).2 = some (res, w')) (hok : res.status.ok = true) :
    w.state.messages ≠ [] := by
  intro hnil
  simp only [finish, finishRest, callWritesDone_state, hnil] at h
  split at h
  · cases h
    cases hok
  · split at h
    · cases h
    · split at h
      · next hbad =>
          cases h
          rw [hok] at hbad
          cases hbad
      · cases h
        cases hok

theorem input_finish_left (w : ClientWriter) (caller : Caller Res) :
    (w.input (.finish caller)).id = w.id ∧ Left w.state (w.input (.finish caller)).state := by
  simp only [input]
  split
  · next res w' h =>
      have h : w.callWritesDone.2.finishRest caller = some (res, w') := h
      obtain ⟨hid, hleft⟩ := finishRest_left h
      rw [callWritesDone_id] at hid
      rw [callWritesDone_state] at hleft
      exact ⟨hid, hleft⟩
  · exact ⟨callWritesDone_id w, .inl (callWritesDone_state w)⟩

/-- The messages of the stream are all there, or the stream is over and they are gone. -/
structure Kept (log : List Obs) (w : ClientWriter) : Prop where
  ended : w.state.terminated = true → ∃ st, .complete w.id st ∈ log
  messages : w.state.messages = received w.id log ∨
    w.state.messages = [] ∧ w.state.terminated = true

theorem kept_told {log : List Obs} {w : ClientWriter} {o : Obs}
    (hord : Desk.Ordered (log ++ [o])) (h : Kept log w) : Kept (log ++ [o]) (w.told o) := by
  have hover : w.state.terminated = true → ∃ st, .complete w.id st ∈ log ++ [o] := fun hterm =>
    (h.ended hterm).imp fun _ => List.mem_append_left _
  -- a callback that is no message of the stream
  have hmessages : received w.id [o] = [] → w.state.messages = received w.id (log ++ [o]) ∨
      w.state.messages = [] ∧ w.state.terminated = true := by
    intro hnone
    rw [received_append, hnone, List.append_nil]
    exact h.messages
  cases o with
  | message id st msg =>
      simp only [told]
      split
      · next hid =>
          simp only [ClientStreamState.onMessage]
          split
          · next hbad => exact ⟨hover, hmessages (by simp_all [received])⟩
          · next hok =>
              refine ⟨hover, .inl ?_⟩
              rcases h.messages with hall | ⟨-, hterm⟩
              · simp_all [received]
              · obtain ⟨st', hst'⟩ := h.ended hterm
                have hafter := (List.pairwise_append.mp hord).2.2 _ hst' _ (.head _) w.id st' rfl
                exact absurd (congrArg some hid) hafter
      · next hid => exact ⟨hover, hmessages (by simp [received, hid])⟩
  | complete id st =>
      simp only [told]
      split
      · next hid =>
          refine ⟨fun _ => ⟨st, by simp [hid]⟩, ?_⟩
          rcases hmessages rfl with hall | ⟨hnil, -⟩
          · exact .inl hall
          · exact .inr ⟨hnil, rfl⟩
      · exact ⟨hover, hmessages rfl⟩
  | done | flushed => exact ⟨hover, hmessages rfl⟩

theorem kept_finish {log : List Obs} {w : ClientWriter} (caller : Caller Res)
    (h : Kept log w) : Kept log (w.input (.finish caller)) := by
  obtain ⟨hid, heq | ⟨hterm, heq⟩⟩ := input_finish_left w caller
  · refine ⟨?_, ?_⟩ <;> rw [hid, heq]
    · exact h.ended
    · exact h.messages
  · refine ⟨?_, .inr ?_⟩ <;> rw [heq]
    · rw [hid]
      exact h.ended
    · exact ⟨rfl, hterm⟩

theorem told_id (w : ClientWriter) (o : Obs) : (w.told o).id = w.id := by
  unfold told
  split
  · split <;> rfl
  · split <;> rfl
  · rfl
  · rfl

/-- **Messages of a run.** -/
theorem run_kept (id : Nat) (inputs : List (Input Res)) (hord : Desk.Ordered (log inputs)) :
    (run id inputs).id = id ∧ Kept (log inputs) (run id inputs) := by
  induction inputs using List.reverseRecOn with
  | nil => exact ⟨rfl, ⟨fun h => (nomatch h), .inl rfl⟩⟩
  | append_singleton inputs i ih =>
      have hrun : run id (inputs ++ [i]) = (run id inputs).input i := by simp [run]
      rw [hrun]
      cases i with
      | told o =>
          have hlog : log (inputs ++ [.told o]) = log inputs ++ [o] := by simp [log]
          rw [hlog] at hord ⊢
          obtain ⟨hid, hkept⟩ := ih (List.pairwise_append.mp hord).1
          exact ⟨(told_id _ o).trans hid, kept_told hord hkept⟩
      | finish caller =>
          have hlog : log (inputs ++ [.finish caller]) = log inputs := by simp [log]
          rw [hlog] at hord ⊢
          obtain ⟨hid, hkept⟩ := ih hord
          exact ⟨(input_finish_left _ caller).1.trans hid, kept_finish caller hkept⟩

end ClientWriter

end Urpc.Api
