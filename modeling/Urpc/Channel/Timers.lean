/-
  Which steps set timers.

  Two places call `SetTimer`: the task of `Call`, before it looks at the connection, and
  `OpenStreamNow`, once the request has been submitted. All other functions at most cancel
  timers (`Disarms`), so a timer that is new after a step was set by one of the two
  (`step_timers`).
-/
import Urpc.Channel.Impl

namespace Urpc.Channel

open Cxx

/-- No timer is set. -/
structure Disarms (s s' : State) : Prop where
  timers : ∀ e ∈ s'.timers, e ∈ s.timers
  armed : s'.armed = s.armed

namespace Disarms

variable {s s' s'' : State}

theorem of_eq (ht : s'.timers = s.timers) (ha : s'.armed = s.armed) : Disarms s s' :=
  ⟨fun _ h => ht ▸ h, ha⟩

theorem refl (s : State) : Disarms s s := .of_eq rfl rfl

theorem trans (h : Disarms s s') (h' : Disarms s' s'') : Disarms s s'' :=
  ⟨fun e he => h.timers e (h'.timers e he), h'.armed.trans h.armed⟩

end Disarms

section Functions

variable {s : State}

theorem cancelTimer_disarms (s : State) (t : Nat) : Disarms s (s.cancelTimer t) :=
  ⟨fun _ h => (List.mem_filter.mp h).1, rfl⟩

/-- `if (timer != 0) CancelTimer(timer)`. -/
theorem cancelSet_disarms (s : State) (t : Nat) :
    Disarms s (if t ≠ 0 then s.cancelTimer t else s) := by
  split
  · exact cancelTimer_disarms s t
  · exact .refl s

theorem completeStream_disarms (s : State) (id : Nat) (st : Stream) (status : Status) :
    Disarms s (completeStream s id st status) := by
  unfold completeStream
  split
  · exact .refl s
  · refine (cancelSet_disarms s st.timeoutTimer).trans ?_
    split <;> split <;> exact .of_eq rfl rfl

theorem complete_disarms (s : State) (id : Nat) (call : Call) (status : Status) (payload : Bytes) :
    Disarms s (complete s id call status payload) := by
  unfold complete
  split
  · exact .refl s
  · refine (cancelSet_disarms s call.timeoutTimer).trans ?_
    split <;> split <;> exact .of_eq rfl rfl

theorem pumpStream_disarms (s : State) (id : Nat) : Disarms s (pumpStream s id) := by
  unfold pumpStream
  split
  · exact .refl s
  · split
    · exact .refl s
    · split
      · exact .refl s
      · split <;> exact .of_eq rfl rfl

theorem onConsumed_disarms (s : State) (n : Closure) : Disarms s (onConsumed s n) := by
  unfold onConsumed
  split <;> exact .of_eq rfl rfl

theorem submit_disarms {s' : State} {h2 : Sender Closure} {sid : Nat}
    (h : s.submit h2 = some (s', sid)) : Disarms s s' := by
  unfold State.submit at h
  split at h
  · cases h
  · cases h
    exact .of_eq rfl rfl

theorem openStreamNow_disarms (s : State) (ps : PendingStream) :
    Disarms s (openStreamNow s ps).1 := by
  unfold openStreamNow
  split
  · exact .of_eq rfl rfl
  · next hsub => exact submit_disarms hsub

theorem callNow_disarms (s : State) (id : Nat) (path framed : Bytes) (call : NewCall) :
    Disarms s (callNow s id path framed call).1 := by
  unfold callNow
  split
  · exact complete_disarms s id { call with sid := 0 } submitFailed []
  · next hsub => exact submit_disarms hsub

theorem failPending_disarms (s : State) (st : Status) : Disarms s (failPending s st) := by
  have key : ∀ (l : List PendingCall) (s : State),
      Disarms s (l.foldl (fun s pc => completeNew s pc.id pc.call st) s) := by
    intro l
    induction l with
    | nil => exact fun s => .refl s
    | cons pc l ih =>
        exact fun s => (complete_disarms s pc.id { pc.call with sid := 0 } st []).trans (ih _)
  have hempty : Disarms s { s with pending := [] } := .of_eq rfl rfl
  exact hempty.trans (key s.pending _)

theorem connectFailed_disarms (s : State) (st : Status) : Disarms s (connectFailed s st) := by
  have hbroken : Disarms s { s with phase := .broken } := .of_eq rfl rfl
  exact hbroken.trans (failPending_disarms _ st)

theorem connectNow_disarms (s : State) (tcp : Option Status) : Disarms s (connectNow s tcp) := by
  have hphase : Disarms s { s with phase := .connecting } := .of_eq rfl rfl
  cases tcp with
  | none => exact hphase
  | some st => exact hphase.trans (connectFailed_disarms _ st)

theorem onHeadersComplete_disarms (s : State) (sid : Nat) (headers : HeaderMap) :
    Disarms s (onHeadersComplete s sid headers) := by
  unfold onHeadersComplete
  split
  · split
    · exact .refl s
    · split
      · exact .refl s
      · split
        · exact completeStream_disarms _ _ _ _
        · split
          · exact completeStream_disarms _ _ _ _
          · exact .refl s
  · split
    · exact .refl s
    · split
      · exact .refl s
      · split
        · exact complete_disarms _ _ _ _ _
        · split
          · exact complete_disarms _ _ _ _ _
          · exact .refl s

theorem onData_disarms (s : State) (sid : Nat) (chunk : Bytes) :
    Disarms s (onData s sid chunk) := by
  unfold onData
  split
  · split
    · exact .refl s
    · unfold onStreamData
      split
      · exact .refl s
      · dsimp only
        split
        · exact completeStream_disarms _ _ _ _
        · exact .of_eq rfl rfl
  · split
    · exact .refl s
    · split
      · exact .refl s
      · unfold onCallData
        split
        · exact .refl s
        · dsimp only
          split
          · exact complete_disarms _ _ _ _ _
          · exact .of_eq rfl rfl

theorem eraseStreamBySidAt_disarms (s : State) (sid : Nat) :
    Disarms s (s.eraseStreamBySidAt sid) := by
  unfold State.eraseStreamBySidAt
  split <;> exact .of_eq rfl rfl

theorem eraseByStreamAt_disarms (s : State) (sid : Nat) : Disarms s (s.eraseByStreamAt sid) := by
  unfold State.eraseByStreamAt
  split <;> exact .of_eq rfl rfl

theorem onStreamClose_disarms (s : State) (sid : Nat) : Disarms s (onStreamClose s sid) := by
  obtain ⟨m, s', heq, hstream, hcall⟩ := onStreamClose_closed s sid
  rw [heq]
  have hm : Disarms s m := by
    cases hstream with
    | unknown => exact .refl s
    | left => exact eraseStreamBySidAt_disarms s sid
    | failed => exact (completeStream_disarms _ _ _ _).trans (eraseStreamBySidAt_disarms _ sid)
  cases hcall with
  | unknown => exact hm
  | left => exact hm.trans (eraseByStreamAt_disarms m sid)
  | failed => exact hm.trans ((complete_disarms _ _ _ _ _).trans (eraseByStreamAt_disarms _ sid))

theorem onConnectionLost_disarms (s : State) : Disarms s (onConnectionLost s) := by
  unfold onConnectionLost
  split
  · exact .refl s
  · refine .trans ?_ (failPending_disarms _ connectionLost)
    exact ⟨fun _ h => (List.mem_filter.mp h).1, rfl⟩

theorem callTimeoutRest_disarms (s : State) (id : Nat) : Disarms s (callTimeoutRest s id) := by
  unfold callTimeoutRest
  split
  · exact .refl s
  · dsimp only
    split <;> exact .of_eq rfl rfl

theorem callTimeout_disarms (s : State) (id : Nat) : Disarms s (callTimeout s id).1 := by
  unfold callTimeout
  split
  · exact .refl s
  · split
    · exact .refl s
    · dsimp only
      split
      · exact .of_eq rfl rfl
      · refine .trans ?_ (callTimeoutRest_disarms (s.setCall id _) id)
        exact .of_eq rfl rfl

theorem streamTimeoutRest_disarms (s : State) (id : Nat) :
    Disarms s (streamTimeoutRest s id) := by
  unfold streamTimeoutRest
  split
  · exact .refl s
  · dsimp only
    refine .trans (.trans ?_ (completeStream_disarms _ _ _ _)) (.of_eq rfl rfl)
    split <;> exact .of_eq rfl rfl

theorem streamTimeout_disarms (s : State) (id : Nat) : Disarms s (streamTimeout s id).1 := by
  unfold streamTimeout
  split
  · exact .refl s
  · split
    · exact .refl s
    · dsimp only
      split
      · exact .of_eq rfl rfl
      · refine .trans ?_ (streamTimeoutRest_disarms (s.setStream id _) id)
        exact .of_eq rfl rfl

theorem cancelRest_disarms (s : State) (id : Nat) : Disarms s (cancelRest s id) := by
  unfold cancelRest
  split
  · split <;> exact .of_eq rfl rfl
  · exact .of_eq rfl rfl

theorem cancelTask_disarms (s : State) (id : Nat) : Disarms s (cancelTask s id).1 := by
  unfold cancelTask
  split
  · exact .refl s
  · next call _ =>
      split
      · exact .refl s
      · refine (cancelSet_disarms s call.timeoutTimer).trans ?_
        generalize (if call.timeoutTimer ≠ 0 then s.cancelTimer call.timeoutTimer else s) = s₁
        dsimp only
        split
        · exact .of_eq rfl rfl
        · refine .trans ?_ (cancelRest_disarms (s₁.setCall id _) id)
          exact .of_eq rfl rfl

theorem openStreamTask_disarms (s : State) (tcp : Option Status) (id : Nat) (path : Bytes)
    (events : StreamEvents) (timeoutMs : Nat) :
    Disarms s (openStreamTask s tcp id path events timeoutMs).1 := by
  unfold openStreamTask
  split
  · dsimp only
    split
    · exact openStreamNow_disarms _ _
    · exact .of_eq rfl rfl
    · exact .of_eq rfl rfl
    · refine .trans ?_ (connectNow_disarms _ tcp)
      exact .of_eq rfl rfl
  · exact .refl s

theorem streamSendTask_disarms (s : State) (id : Nat) (framed : Bytes) (cb : Option CbId)
    (close : Bool) : Disarms s (streamSendTask s id framed cb close) := by
  unfold streamSendTask
  split
  · split
    · split <;> exact .of_eq rfl rfl
    · exact .of_eq rfl rfl
  · split
    · exact .of_eq rfl rfl
    · split
      · exact .of_eq rfl rfl
      · refine .trans ?_ (pumpStream_disarms _ id)
        exact .of_eq rfl rfl

theorem streamCloseSendTask_disarms (s : State) (id : Nat) :
    Disarms s (streamCloseSendTask s id) := by
  unfold streamCloseSendTask
  split
  · exact .of_eq rfl rfl
  · split
    · exact .refl s
    · split
      · dsimp only
        split <;> exact .of_eq rfl rfl
      · exact .of_eq rfl rfl

/-- The task of `Call` after `SetTimer`. -/
theorem callTask_timers (s : State) (tcp : Option Status) (id : Nat) (path framed : Bytes)
    (timeoutMs : Nat) (call : NewCall) :
    Disarms (if timeoutMs > 0 then s.setTimer (.call id timeoutMs) else (s, call.timeoutTimer)).1
      (callTask s tcp id path framed timeoutMs call).1 := by
  unfold callTask
  generalize (if timeoutMs > 0 then s.setTimer (.call id timeoutMs)
    else (s, call.timeoutTimer)) = r
  obtain ⟨s₁, timer⟩ := r
  dsimp only
  split
  · exact callNow_disarms _ _ _ _ _
  · exact complete_disarms s₁ id { call with timeoutTimer := timer, sid := 0 } channelBroken []
  · exact .of_eq rfl rfl
  · refine .trans ?_ (connectNow_disarms _ tcp)
    exact .of_eq rfl rfl

/-- `OpenStreamNow` after `SetTimer`. -/
theorem openStreamRest_timers (s : State) (sid : Nat) (ps : PendingStream)
    (decoder : FrameDecoder) :
    Disarms (if ps.timeoutMs > 0 then s.setTimer (.stream ps.id ps.timeoutMs) else (s, 0)).1
      (openStreamRest s sid ps decoder) := by
  unfold openStreamRest
  by_cases hms : ps.timeoutMs > 0
  · simp only [if_pos hms]
    refine .trans ?_ (pumpStream_disarms _ ps.id)
    exact .of_eq rfl rfl
  · simp only [if_neg hms]
    refine .trans ?_ (pumpStream_disarms _ ps.id)
    exact .of_eq rfl rfl

end Functions

/-! ## Steps -/

/-- The timer that a task sets. -/
def Task.sets : Task → Option Alarm
  | .call id _ _ timeoutMs _ => if timeoutMs > 0 then some (.call id timeoutMs) else none
  | _ => none

/-- The timer that a frame sets. -/
def Frame.sets : Frame → Option Alarm
  | .openStreamRest _ ps _ =>
      if ps.timeoutMs > 0 then some (.stream ps.id ps.timeoutMs) else none
  | _ => none

/-- The timer that a step sets. -/
def sets (c : Conf) : Label → Option Alarm
  | .event (.task _) => c.st.posted.head?.bind Task.sets
  | .event _ => none
  | .resume => c.frames.head?.bind Frame.sets

/-- At most the timer `a` is set. -/
structure Sets (a : Option Alarm) (s s' : State) : Prop where
  timers : ∀ e ∈ s'.timers, e ∈ s.timers ∨ a = some e.2
  armed : s'.armed = s.armed ++ a.toList

theorem Disarms.sets {s s' : State} (h : Disarms s s') : Sets none s s' :=
  ⟨fun e he => .inl (h.timers e he), by simp [h.armed]⟩

/-- `if (timeout_ms > 0) SetTimer(..)`, and then no other timer. -/
theorem Sets.of_disarms {s s' : State} {a : Alarm} {ms t : Nat}
    (h : Disarms (if ms > 0 then s.setTimer a else (s, t)).1 s') :
    Sets (if ms > 0 then some a else none) s s' := by
  split at h
  · next hms =>
      rw [if_pos hms]
      refine ⟨fun e he => ?_, h.armed⟩
      have hmem := h.timers e he
      simp only [State.setTimer, List.mem_append, List.mem_singleton] at hmem
      exact hmem.imp_right fun heq => by rw [heq]
  · next hms =>
      rw [if_neg hms]
      exact h.sets

theorem startPending_disarms (s : State) : Disarms s (startPending s).1 := by
  unfold startPending
  split
  · exact .refl s
  · refine .trans ?_ (callNow_disarms _ _ _ _ _)
    exact .of_eq rfl rfl

theorem startPendingStreams_disarms (s : State) : Disarms s (startPendingStreams s).1 := by
  unfold startPendingStreams
  split
  · exact .refl s
  · refine .trans ?_ (openStreamNow_disarms _ _)
    exact .of_eq rfl rfl

theorem exec_sets (f : Frame) (s : State) : Sets f.sets s (exec f s).1 := by
  cases f with
  | callNowRest sid id call =>
      refine Disarms.sets ?_
      exact .of_eq rfl rfl
  | openStreamRest sid ps decoder => exact .of_disarms (openStreamRest_timers s sid ps decoder)
  | startPending => exact (startPending_disarms s).sets
  | startPendingStreams => exact (startPendingStreams_disarms s).sets
  | callTimeoutRest id => exact (callTimeoutRest_disarms s id).sets
  | streamTimeoutRest id => exact (streamTimeoutRest_disarms s id).sets
  | cancelRest id => exact (cancelRest_disarms s id).sets

theorem runTask_sets (s : State) (tcp : Option Status) (t : Task) :
    Sets t.sets s (runTask s tcp t).1 := by
  cases t with
  | call id path framed timeoutMs call =>
      exact .of_disarms (callTask_timers s tcp id path framed timeoutMs call)
  | cancel id => exact (cancelTask_disarms s id).sets
  | openStream id path events timeoutMs =>
      exact (openStreamTask_disarms s tcp id path events timeoutMs).sets
  | streamSend id framed cb close => exact (streamSendTask_disarms s id framed cb close).sets
  | streamCloseSend id => exact (streamCloseSendTask_disarms s id).sets
  | pumpStream id => exact (pumpStream_disarms s id).sets

/-- An event that can happen under a condition has happened. -/
theorem of_guard {p : Prop} [Decidable p] {s s' : State} {fs gs : List Frame}
    (h : (if p then some (s, fs) else none) = some (s', gs)) : p ∧ s = s' ∧ fs = gs := by
  split at h
  · next hp => exact ⟨hp, Prod.mk.inj (Option.some.inj h)⟩
  · cases h

/-- Only tasks among the events set timers. -/
theorem fire_disarms {e : Event} {s s' : State} {gs : List Frame} (he : ∀ tcp, e ≠ .task tcp)
    (h : fire e s = some (s', gs)) : Disarms s s' := by
  cases e with
  | call | cancel | openStream | streamSend | streamCloseSend | setMaxReceiveSize | refuse =>
      cases h
      exact .of_eq rfl rfl
  | task tcp => exact absurd rfl (he tcp)
  | consumed sid =>
      simp only [fire] at h
      split at h
      · cases h
      · cases h
        refine .trans ?_ (onConsumed_disarms _ _)
        exact .of_eq rfl rfl
  | timer t =>
      simp only [fire] at h
      split at h
      · cases h
      · next id ms _ =>
          obtain ⟨rfl, -⟩ := Prod.mk.inj (Option.some.inj h)
          exact (cancelTimer_disarms s t).trans (callTimeout_disarms _ id)
      · next id ms _ =>
          obtain ⟨rfl, -⟩ := Prod.mk.inj (Option.some.inj h)
          exact (cancelTimer_disarms s t).trans (streamTimeout_disarms _ id)
  | streamClose sid =>
      obtain ⟨-, rfl, -⟩ := of_guard h
      refine .trans ?_ (onStreamClose_disarms _ sid)
      exact .of_eq rfl rfl
  | credit sid n | connected =>
      obtain ⟨-, rfl, -⟩ := of_guard h
      exact .of_eq rfl rfl
  | connectFailed st =>
      obtain ⟨-, rfl, -⟩ := of_guard h
      exact connectFailed_disarms s st
  | headers sid fields =>
      obtain ⟨-, rfl, -⟩ := of_guard h
      exact onHeadersComplete_disarms s sid fields
  | data sid chunk =>
      obtain ⟨-, rfl, -⟩ := of_guard h
      exact onData_disarms s sid chunk
  | lost =>
      obtain ⟨-, rfl, -⟩ := of_guard h
      exact onConnectionLost_disarms s

/-- **Timers.** A step sets the timer that it should, and no other. -/
theorem step_sets {c d : Conf} {l : Label} (h : machine.step c l = some d) :
    Sets (sets c l) c.st d.st := by
  cases l with
  | resume =>
      obtain ⟨f, fs, hf, rfl⟩ := machine.step_resume h
      have hsets : sets c .resume = f.sets := by simp [sets, hf]
      rw [hsets]
      exact exec_sets f c.st
  | event e =>
      obtain ⟨-, s', gs, hfire, rfl⟩ := machine.step_event h
      change fire e c.st = some (s', gs) at hfire
      by_cases he : ∃ tcp, e = .task tcp
      · obtain ⟨tcp, rfl⟩ := he
        simp only [fire] at hfire
        split at hfire
        · cases hfire
        · next t ts hp =>
            split at hfire
            · have hsets : sets c (.event (.task tcp)) = t.sets := by simp [sets, hp]
              have hrun := runTask_sets { c.st with posted := ts } tcp t
              rw [Option.some.inj hfire] at hrun
              rw [hsets]
              exact ⟨hrun.timers, hrun.armed⟩
            · cases hfire
      · push Not at he
        have hsets : sets c (.event e) = none := by
          cases e with
          | task tcp => exact absurd rfl (he tcp)
          | _ => rfl
        rw [hsets]
        exact (fire_disarms he hfire).sets

end Urpc.Channel
