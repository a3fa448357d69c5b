/-
  What the handler has been told stays told: no step of a stream takes anything back
  (`log_step`, `log_reach`). And a unary handler is called by `FinishRequest` only
  (`requests_step`).
-/
import Urpc.Server.Stream

namespace Urpc.Server

open Cxx

def Obs.request : Obs → Option Bytes
  | .unary request => some request
  | _ => none

/-- The requests that a unary handler has been called with. -/
def requests (log : List Obs) : List Bytes := log.filterMap Obs.request

/-- The log of `s'` continues that of `s`; a unary handler has been called with `rs`. -/
def Grows (rs : List Bytes) (s s' : State) : Prop :=
  ∃ os, s'.log = s.log ++ os ∧ requests os = rs

section Functions

variable {s s' s'' : State}

theorem Grows.of_eq (h : s'.log = s.log) : Grows [] s s' := ⟨[], by rw [List.append_nil, h], rfl⟩

theorem Grows.trans {rs : List Bytes} (h : Grows [] s s') (h' : Grows rs s' s'') :
    Grows rs s s'' := by
  obtain ⟨os, hos, hnone⟩ := h
  obtain ⟨os', hos', hrs⟩ := h'
  refine ⟨os ++ os', by rw [hos', hos, List.append_assoc], ?_⟩
  rw [requests, List.filterMap_append, ← requests, hnone, List.nil_append]
  exact hrs

theorem grows_note (o : Obs) : Grows o.request.toList s (s.note o) :=
  ⟨[o], rfl, by cases o <;> rfl⟩

theorem log_trailersOnly (st : Status) : (trailersOnly s st).log = s.log := by
  unfold trailersOnly
  split
  · split <;> rfl
  · rfl

theorem log_respondError (st : Status) : (respondError s st).log = s.log := by
  unfold respondError
  split
  · split
    · rfl
    · exact log_trailersOnly _
  · rfl

theorem log_finishStream (st : Status) : (finishStream s st).log = s.log := by
  unfold finishStream
  split
  · split
    · rfl
    · dsimp only
      split
      · rfl
      · split <;> rfl
  · rfl

theorem log_pumpOut : (pumpOut s).1.log = s.log := by
  unfold pumpOut
  split
  · split
    · rfl
    · split
      · rfl
      · dsimp only
        split <;> rfl
  · rfl

theorem grows_dispatchStream (first : Option Bytes) : Grows [] s (dispatchStream s first) := by
  unfold dispatchStream
  split
  · split
    · exact .of_eq rfl
    · exact grows_note _
  · exact .of_eq rfl

theorem grows_deliverRead (st : Status) (eos : Bool) (msg : Bytes) :
    Grows [] s (deliverRead s st eos msg) := by
  unfold deliverRead
  split
  · split
    · exact .of_eq rfl
    · split
      · split
        · exact grows_note _
        · exact .of_eq rfl
      · split
        · exact grows_note _
        · split
          · exact .of_eq (log_finishStream _)
          · exact .of_eq rfl
  · exact .of_eq rfl

/-- What `FinishRequest` calls a unary handler with, if it does. -/
def callsUnary (s : State) : List Bytes :=
  match s.call with
  | some k =>
      if k.requestDone = false ∧ k.hasHandler = true ∧ k.form = .unary ∧
          k.decoder.messageCount = 0 ∧ k.decoder.hasMessage = true then
        [k.decoder.takeMessage.1]
      else []
  | none => []

theorem callsUnary_eq {k : Call} (hc : s.call = some k) (hopen : k.requestDone = false)
    (hreg : k.hasHandler = true) (hform : k.form = .unary)
    (hcount : k.decoder.messageCount = 0) :
    callsUnary s = if k.decoder.hasMessage then [k.decoder.takeMessage.1] else [] := by
  simp only [callsUnary, hc, hopen, hreg, hform, hcount, true_and]

theorem callsUnary_streaming {k : Call} (hc : s.call = some k) (hform : k.form ≠ .unary) :
    callsUnary s = [] := by
  simp [callsUnary, hc, hform]

theorem grows_finishRequest : Grows (callsUnary s) s (finishRequest s) := by
  unfold finishRequest
  split
  · next hc =>
      rw [callsUnary, hc]
      exact .of_eq rfl
  · next k hc =>
      split
      · next hdone =>
          simp only [callsUnary, hc, hdone, Bool.true_eq_false, false_and, if_false]
          exact .of_eq rfl
      · next hopen =>
          have hopen : k.requestDone = false := by simpa using hopen
          dsimp only
          split
          · next hreg =>
              have hreg : k.hasHandler = false := by simpa using hreg
              simp only [callsUnary, hc, hreg, Bool.false_eq_true, false_and, and_false, if_false]
              exact .of_eq (log_trailersOnly _)
          · next hreg =>
              have hreg : k.hasHandler = true := by simpa using hreg
              split
              · next hform =>
                  split
                  · next hcount =>
                      simp only [callsUnary, hc, hcount, false_and, and_false, if_false]
                      exact .of_eq (log_trailersOnly _)
                  · next hcount =>
                      rw [callsUnary_eq hc hopen hreg hform (by simpa using hcount)]
                      cases k.decoder.hasMessage with
                      | false => exact .of_eq (log_trailersOnly (s := s.setCall _) _)
                      | true => exact grows_note (.unary _)
              · next hform =>
                  rw [callsUnary_streaming hc (by simp [hform])]
                  split
                  · split
                    · exact .of_eq (log_trailersOnly _)
                    · exact grows_dispatchStream (s := s.setCall _) _
                  · exact grows_deliverRead (s := s.setCall _) _ _ _
              · next hform _ =>
                  rw [callsUnary_streaming hc hform]
                  split
                  · exact .of_eq (log_trailersOnly _)
                  · exact grows_deliverRead (s := s.setCall _) _ _ _

theorem log_armDeadline (k : Call) (headers : HeaderMap) :
    (armDeadline s k headers).log = s.log := by
  unfold armDeadline
  dsimp only
  split <;> rfl

theorem grows_onHeadersComplete (cfg : Config) (headers : HeaderMap) (e : Bool) :
    Grows [] s (onHeadersComplete cfg s headers e).1 := by
  unfold onHeadersComplete
  split
  · split
    · exact .of_eq (log_trailersOnly _)
    · have harm : ∀ k, Grows [] s (armDeadline s k headers) := fun k =>
        .of_eq (log_armDeadline k headers)
      dsimp only
      split
      · exact (harm _).trans (grows_dispatchStream _)
      · exact harm _
  · exact .of_eq (log_trailersOnly _)

theorem log_onData (chunk : Bytes) (e : Bool) : (onData s chunk e).1.log = s.log := by
  unfold onData
  split
  · rfl
  · split
    · rfl
    · generalize (if chunk.isEmpty then _ else _) = r
      dsimp only
      split
      · exact log_respondError _
      · rfl

theorem grows_onDataRest (e : Bool) :
    Grows (if e then callsUnary s else []) s (onDataRest s e).1 := by
  cases hc : s.call with
  | none =>
      simp only [onDataRest, callsUnary, hc, ite_self]
      exact .of_eq rfl
  | some k =>
      by_cases hloop : k.form ≠ .unary ∧ k.decoder.hasMessage = true
      · rw [callsUnary_streaming hc hloop.1, ite_self]
        simp only [onDataRest, hc, if_pos hloop]
        split
        · split
          · exact .of_eq (log_finishStream _)
          · exact grows_dispatchStream (s := s.setCall _) _
        · exact grows_deliverRead (s := s.setCall _) _ _ _
      · simp only [onDataRest, hc, if_neg hloop]
        cases e with
        | false => exact .of_eq rfl
        | true => exact grows_finishRequest

theorem grows_fireCancel : Grows [] s (fireCancel s) := by
  unfold fireCancel
  split
  · next k _ =>
      split
      · exact .of_eq rfl
      · refine ⟨k.cancelCbs.map .cancelled, rfl, ?_⟩
        rw [requests, List.filterMap_map]
        exact List.filterMap_eq_nil_iff.mpr fun _ _ => rfl
  · exact .of_eq rfl

theorem log_onDeadlineRest : (onDeadlineRest s).log = s.log := by
  unfold onDeadlineRest
  split
  · split
    · rfl
    · dsimp only
      split <;> rfl
  · rfl

theorem grows_cancelStreamIo : Grows [] s (cancelStreamIo s) := by
  unfold cancelStreamIo
  split
  · split
    · exact grows_note _
    · exact .of_eq rfl
  · exact .of_eq rfl

theorem grows_cancelOut : Grows [] s (cancelOut s).1 := by
  unfold cancelOut
  split
  · split
    · exact .of_eq rfl
    · dsimp only
      split
      · exact grows_note _
      · exact .of_eq rfl
  · exact .of_eq rfl

theorem grows_onConsumed (cb : Option CbId) : Grows [] s (onConsumed s cb).1 := by
  have hset : (match s.call with
      | some k => s.setCall { k with outInflight := false }
      | none => s).log = s.log := by
    split <;> rfl
  unfold onConsumed
  cases cb with
  | none => exact .of_eq hset
  | some cb => exact Grows.trans (.of_eq hset) (grows_note _)

theorem grows_tellWriter (cb : Option CbId) (st : Status) : Grows [] s (tellWriter s cb st) := by
  cases cb with
  | none => exact .of_eq rfl
  | some cb => exact grows_note _

theorem grows_readMessage (first : Option Bytes) (cb : CbId) :
    Grows [] s (readMessage s first cb) := by
  unfold readMessage
  split
  · exact grows_note _
  · split
    · exact grows_note _
    · split
      · exact grows_note _
      · split
        · exact grows_note _
        · split
          · exact grows_note _
          · split
            · exact grows_note _
            · exact .of_eq rfl

theorem grows_writeMessage (msg : Bytes) (cb : Option CbId) :
    Grows [] s (writeMessage s msg cb).1 := by
  unfold writeMessage
  split
  · exact grows_tellWriter _ _
  · split
    · exact grows_tellWriter _ _
    · split
      · exact grows_tellWriter _ _
      · exact .of_eq log_pumpOut

theorem log_respond (st : Status) (payload : Bytes) : (respond s st payload).1.log = s.log := by
  unfold respond
  split
  · split
    · rfl
    · dsimp only
      split <;> rfl
  · rfl

theorem grows_applyOp {o : Op} {r : State × List Frame} (h : applyOp s o = some r) :
    Grows [] s r.1 := by
  cases o with
  | respond st payload =>
      simp only [applyOp] at h
      split at h <;> cases h
      · exact .of_eq (log_respond st payload)
      · exact .of_eq (log_finishStream _)
  | readMessage cb =>
      simp only [applyOp] at h
      split at h <;> cases h
      exact grows_readMessage _ cb
  | writeMessage msg cb =>
      simp only [applyOp] at h
      split at h <;> cases h
      exact grows_writeMessage msg cb
  | writeDone =>
      simp only [applyOp] at h
      split at h <;> cases h
      unfold writeDone
      split <;> exact .of_eq rfl
  | finish st =>
      simp only [applyOp] at h
      split at h <;> cases h
      exact .of_eq (log_finishStream _)
  | onCancel cb =>
      simp only [applyOp] at h
      split at h <;> cases h
      unfold onCancel
      split
      · split <;> exact .of_eq rfl
      · exact .of_eq rfl

/-- The frame ends the request, unless `OnData` still has messages to hand on. -/
def Frame.endsRequest : Frame → Bool
  | .onHeadersRest endStream | .onDataRest endStream => endStream
  | _ => false

theorem grows_exec (f : Frame) :
    Grows (if f.endsRequest then callsUnary s else []) s (exec f s).1 := by
  cases f with
  | onHeadersRest e =>
      cases e with
      | false => exact .of_eq rfl
      | true => exact grows_finishRequest
  | onDataRest e => exact grows_onDataRest e
  | respondData | respondTrailers | pumpOutData => exact .of_eq rfl
  | onDeadlineRest => exact .of_eq log_onDeadlineRest
  | consumedRest =>
      refine .of_eq ?_
      simp only [exec, maybeSendDeferredFinish]
      split
      · split
        · rfl
        · split <;> rfl
      · rfl
  | cancelOut => exact grows_cancelOut
  | fireCancel => exact grows_fireCancel
  | closeErase =>
      refine .of_eq ?_
      simp only [exec, closeErase]
      split <;> rfl

theorem grows_fire {cfg : Config} {e : Event} {r : State × List Frame}
    (h : fire cfg e s = some r) : Grows [] s r.1 := by
  cases e with
  | headers fields e =>
      simp only [fire] at h
      split at h <;> cases h
      exact grows_onHeadersComplete (s := { s with opened := true }) cfg fields e
  | data chunk e =>
      simp only [fire] at h
      split at h <;> cases h
      exact .of_eq (log_onData chunk e)
  | deadline timer =>
      simp only [fire] at h
      split at h
      · split at h <;> cases h
        · exact grows_fireCancel (s := { s with timers := s.timers.erase timer })
        · exact .of_eq rfl
      · cases h
  | pump =>
      simp only [fire] at h
      split at h <;> cases h
      exact .of_eq log_pumpOut
  | connectionLost =>
      simp only [fire] at h
      split at h <;> cases h
      exact grows_cancelStreamIo (s := { s with connClosed := true })
  | streamClose =>
      simp only [fire] at h
      split at h
      · split at h <;> cases h
        · exact grows_cancelStreamIo (s := { s with h2 := s.h2.close })
        · exact .of_eq rfl
      · cases h
  | credit n =>
      simp only [fire] at h
      split at h <;> cases h
      exact .of_eq rfl
  | consumed =>
      simp only [fire] at h
      split at h
      · cases h
      · next cb notes hn =>
          cases h
          exact grows_onConsumed (s := { s with h2 := { s.h2 with notes } }) cb
  | op o => exact grows_applyOp h

end Functions

/-- What a step calls a unary handler with. -/
def asks (c : Conf) : Label → List Bytes
  | .resume =>
      match c.frames with
      | f :: _ => if f.endsRequest then callsUnary c.st else []
      | [] => []
  | .event _ => []

theorem grows_step {cfg : Config} {c d : Conf} {l : Label} (h : (machine cfg).step c l = some d) :
    Grows (asks c l) c.st d.st := by
  cases l with
  | resume =>
      obtain ⟨f, fs, hf, rfl⟩ := Resume.System.step_resume h
      simp only [asks, hf]
      exact grows_exec f
  | event e =>
      obtain ⟨-, s, gs, hfire, rfl⟩ := Resume.System.step_event h
      exact grows_fire (r := (s, gs)) hfire

theorem log_step {cfg : Config} {c d : Conf} {l : Label} (h : (machine cfg).step c l = some d) :
    c.st.log <+: d.st.log := by
  obtain ⟨os, hos, -⟩ := grows_step h
  exact ⟨os, hos.symm⟩

theorem requests_step {cfg : Config} {c d : Conf} {l : Label}
    (h : (machine cfg).step c l = some d) :
    requests d.st.log = requests c.st.log ++ asks c l := by
  obtain ⟨os, hos, hrs⟩ := grows_step h
  rw [hos, requests, List.filterMap_append]
  exact congrArg _ hrs

theorem log_reach {cfg : Config} {ok : Conf → Label → Prop} {c d : Conf}
    (h : (machine cfg).Reach ok c d) : c.st.log <+: d.st.log :=
  h.inv (I := fun e => c.st.log <+: e.st.log) List.prefix_rfl
    fun _ _ _ he _ hs => he.trans (log_step hs)

end Urpc.Server
