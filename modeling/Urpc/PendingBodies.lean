/-
  The bodies that a session keeps, on both endpoints.

  `pending_bodies` loses a body only with its stream, so a stream that sends message after
  message keeps all of them (`bodies_pile_up`), and a body submitted after the close stays for
  the life of the session. The bound holds as long as each body finds its stream open and with
  no body read to its end.

  Proved: `bodies_sparing_step`, `step_served`, `bodies_kept`.
-/
import Urpc.Channel.Flushed
import Urpc.Channel.Outbox
import Urpc.Server.Blocks
import Urpc.Session.Kept

namespace Urpc

open Cxx

/-! ## The server -/

namespace Server

/-- A message would go to the session, after the response headers. -/
def WriteSide.free (k : WriteSide) : Bool :=
  !k.responded && !k.writeClosed && !k.outInflight && k.responseHeadersSent

namespace Writer

variable {t : Trigger} {v w : Writer}

/-- Does the step call `SendData`? -/
def sends (v : Writer) : Trigger → Bool
  | .frame (.respondData _) | .frame (.pumpOutData _) => true
  | .event (.op (.writeMessage ..)) => v.call.any WriteSide.free
  | .event .pump => v.call.any fun k => !k.outQueue.isEmpty && k.free
  | _ => false

theorem bodies_sparing_step (h : v.h2.Sparing) (hready : v.sends t = true → v.h2.ready = true)
    (hs : Step t v w) : w.h2.Sparing := by
  cases hs with
  | badHeaders | answered | respondOk | respondErr | deadlineOnly | finishOnly =>
      exact h.sendHeaders _ _
  | respondTrailers | deadlineTrailers | deferredFinish | finishTrailers =>
      exact h.sendTrailers _
  | respondData | pumpOutData => exact h.sendData _ _ _ (hready rfl)
  | written hc _ hr hw hi _ hp =>
      cases hp with
      | first => exact h.sendHeaders _ _
      | next hh => exact h.sendData _ _ _ (hready (by simp [sends, WriteSide.free, *]))
  | pumped hc hq hr hw hi hp =>
      cases hp with
      | first => exact h.sendHeaders _ _
      | next hh => exact h.sendData _ _ _ (hready (by simp [sends, WriteSide.free, *]))
  | consumed => exact h.same rfl rfl rfl
  | credit => exact h.credit _
  | closeIdle | close => exact Sender.Sparing.close _
  | _ => exact h

theorem bodies_sparing_again (h : v.h2.Sparing) (ha : Again v w) : w.h2.Sparing := by
  cases ha with
  | answered => exact h
  | unknown | refused => exact h.sendHeaders _ _

end Writer

/-- Does the step call `SendData`? -/
def sendsBody (c : Conf) : Label → Bool
  | .resume =>
      match c.frames with
      | .respondData _ :: _ | .pumpOutData _ :: _ => true
      | _ => false
  | .event (.op (.writeMessage ..)) => c.st.call.any fun k => k.free
  | .event .pump => c.st.call.any fun k => !k.outQueue.isEmpty && k.free
  | _ => false

theorem sendsBody_of_sends {c : Conf} {l : Label} {t : Trigger} (ht : trigger c l = some t)
    (hs : (Writer.of c).sends t = true) : sendsBody c l = true := by
  have hany : ∀ p : WriteSide → Bool,
      (Writer.of c).call.any p = c.st.call.any fun k => p k.toWriteSide := fun p => Option.any_map
  cases triggers_of_trigger ht with
  | @frame f fs hf =>
      cases f with
      | respondData | pumpOutData => simp [sendsBody, hf]
      | _ => cases hs
  | overrun => cases hs
  | violation => cases hs
  | @event e =>
      cases e with
      | pump => rwa [Writer.sends, hany] at hs
      | op o =>
          cases o with
          | writeMessage => rwa [Writer.sends, hany] at hs
          | _ => cases hs
      | _ => cases hs

/-- A body finds its stream open and no body of it read to its end. -/
def sendsReady (c : Conf) (l : Label) : Prop :=
  trailersPlain c l ∧ (sendsBody c l = true → c.st.h2.ready = true)

instance (c : Conf) (l : Label) : Decidable (sendsReady c l) :=
  inferInstanceAs (Decidable (_ ∧ _))

theorem reach_sparing {cfg : Config} {d : Conf} (h : (machine cfg).Reach sendsReady fresh d) :
    d.st.h2.Sparing := by
  refine (h.inv (I := fun c => Writer.Orderly (.of c) ∧ c.st.h2.Sparing)
    ⟨sound_fresh.orderly, Sender.sparing_new⟩ ?_).2
  rintro c l e ⟨ho, hi⟩ ⟨hplain, hready⟩ hs
  rcases writer_step_or_again ho.dispatched hplain hs with ⟨t, ht, hw⟩ | ha
  · exact ⟨Writer.orderly_step ho hw,
      Writer.bodies_sparing_step hi (fun hsend => hready (sendsBody_of_sends ht hsend)) hw⟩
  · exact ⟨Writer.orderly_again ho ha, Writer.bodies_sparing_again hi ha⟩

end Server

/-! ## The client -/

namespace Channel

/-- What one step can do to the sender of a stream; `may`: the step may send a body on it. -/
inductive Served (may : Prop) (h2 : Sender Closure) : Sender Closure → Prop where
  | same : Served may h2 h2
  | quiet {h2' : Sender Closure} : Quiet h2 h2' → Served may h2 h2'
  | opened (fields : HeaderMap) : Served may h2 (({} : Sender Closure).sendHeaders fields false)
  | request (fields : HeaderMap) (body : Bytes) : Served may h2 (submitRequest fields body)
  | sent (data : Bytes) (e : Bool) (n : Option Closure) : may →
      Served may h2 (h2.sendData data e n)

/-- The same for all streams. -/
def Serves (may : Nat → Prop) (s s' : State) : Prop :=
  ∀ sid, Served (may sid) (s.senders sid) (s'.senders sid)

/-- The stream that a task sends a body on. -/
def Task.sendsOn (s : State) : Task → Option Nat
  | .streamSend id .. =>
      (live s id).bind fun st =>
        if st.sendClosed || decide (64 ≤ st.outQueue.length) || st.outInflight then none
        else some st.sid
  | .pumpStream id =>
      (live s id).bind fun st =>
        if st.outQueue.isEmpty || st.outInflight then none else some st.sid
  | .streamCloseSend id =>
      (live s id).bind fun st =>
        if st.sendClosed || !st.outQueue.isEmpty then none else some st.sid
  | _ => none

/-- The stream that a step sends a body on. -/
def sendsOn (c : Conf) : Label → Option Nat
  | .resume =>
      match c.frames with
      | .openStreamRest sid ps _ :: _ => if ps.outQueue.isEmpty then none else some sid
      | _ => none
  | .event (.task _) => c.st.posted.head?.bind (Task.sendsOn c.st)
  | _ => none

section Functions

variable {s s' : State} {may : Nat → Prop}

theorem Serves.of_eq (h : s'.senders = s.senders) : Serves may s s' := fun sid => by
  rw [h]
  exact .same

theorem Serves.set {sid : Nat} {h2 : Sender Closure}
    (hs : s'.senders = Function.update s.senders sid h2)
    (h : Served (may sid) (s.senders sid) h2) : Serves may s s' := by
  intro sid'
  rw [hs]
  by_cases heq : sid' = sid
  · subst heq
    rwa [Function.update_self]
  · rw [Function.update_of_ne heq]
    exact .same

/-- After something that touches no sender. -/
theorem Serves.after (s' : State) {s'' : State} (hs : s'.senders = s.senders) (h : Serves may s' s'') :
    Serves may s s'' := by
  intro sid
  rw [← hs]
  exact h sid

theorem completeStream_senders (id : Nat) (st : Stream) (status : Status) :
    (completeStream s id st status).senders = s.senders := by
  unfold completeStream
  split
  · rfl
  · dsimp only
    split <;> split <;> rfl

theorem complete_senders (id : Nat) (call : Call) (status : Status) (payload : Bytes) :
    (complete s id call status payload).senders = s.senders := by
  unfold complete
  split
  · rfl
  · dsimp only
    split <;> split <;> rfl

theorem failPending_senders (st : Status) : (failPending s st).senders = s.senders := by
  have hfold : ∀ (l : List PendingCall) (s : State),
      (l.foldl (fun s pc => completeNew s pc.id pc.call st) s).senders = s.senders := by
    intro l
    induction l with
    | nil => exact fun _ => rfl
    | cons pc l ih => exact fun s => (ih _).trans (complete_senders _ _ _ _)
  exact hfold _ _

theorem connectNow_senders (tcp : Option Status) : (connectNow s tcp).senders = s.senders := by
  unfold connectNow
  dsimp only
  split
  · exact failPending_senders _
  · rfl

theorem callNow_serves (id : Nat) (path framed : Bytes) (call : NewCall) :
    Serves may s (callNow s id path framed call).1 := by
  unfold callNow State.submit
  split
  · exact .of_eq (complete_senders _ _ _ _)
  · next h =>
      split at h
      · cases h
      · cases h
        exact .set rfl (.request _ _)

theorem openStreamNow_serves (ps : PendingStream) : Serves may s (openStreamNow s ps).1 := by
  unfold openStreamNow State.submit
  dsimp only
  split
  · exact .of_eq rfl
  · next h =>
      split at h
      · cases h
      · cases h
        exact .set rfl (.opened _)

theorem pumpStream_serves (id : Nat) (hmay : ∀ st, s.streams id = some st →
      st.completed = false → st.outInflight = false → st.outQueue ≠ [] → may st.sid) :
    Serves may s (pumpStream s id) := by
  unfold pumpStream
  split
  · exact .of_eq rfl
  · next st hst =>
      split
      · exact .of_eq rfl
      · next out queue hq =>
          split
          · exact .of_eq rfl
          · next hfree =>
              split
              · exact .of_eq rfl
              · simp only [Bool.or_eq_true, not_or, Bool.not_eq_true] at hfree
                exact .set rfl (.sent _ _ _ (hmay st hst hfree.1 hfree.2 (by simp [hq])))

theorem openStreamRest_serves (sid : Nat) (ps : PendingStream) (decoder : FrameDecoder)
    (hmay : ps.outQueue ≠ [] → may sid) : Serves may s (openStreamRest s sid ps decoder) := by
  unfold openStreamRest
  dsimp only
  generalize hr : (if ps.timeoutMs > 0 then _ else _ : State × Nat) = r
  have hsame : r.1.senders = s.senders := by
    rw [← hr]
    split <;> rfl
  refine .after (r.1.setStream ps.id (ps.toStream sid decoder r.2)) hsame
    (pumpStream_serves ps.id ?_)
  intro st hst _ _ hq
  simp only [State.setStream, Function.update_self, Option.some.injEq] at hst
  subst hst
  refine hmay fun hnil => hq ?_
  simp [PendingStream.toStream, hnil, seedQueue]

theorem callTimeoutRest_senders (id : Nat) : (callTimeoutRest s id).senders = s.senders := by
  unfold callTimeoutRest
  split
  · rfl
  · dsimp only
    split <;> rfl

theorem callTimeout_serves (id : Nat) : Serves may s (callTimeout s id).1 := by
  unfold callTimeout
  split
  · exact .of_eq rfl
  · split
    · exact .of_eq rfl
    · dsimp only
      split
      · exact .set rfl (.quiet (.reset _))
      · exact .of_eq (callTimeoutRest_senders _)

theorem streamTimeoutRest_senders (id : Nat) : (streamTimeoutRest s id).senders = s.senders := by
  unfold streamTimeoutRest
  split
  · rfl
  · next st _ =>
      dsimp only
      refine (completeStream_senders id st deadlineExceeded).trans ?_
      split <;> rfl

theorem streamTimeout_serves (id : Nat) : Serves may s (streamTimeout s id).1 := by
  unfold streamTimeout
  split
  · exact .of_eq rfl
  · split
    · exact .of_eq rfl
    · dsimp only
      split
      · exact .set rfl (.quiet (.reset _))
      · exact .of_eq (streamTimeoutRest_senders _)

theorem cancelRest_senders (id : Nat) : (cancelRest s id).senders = s.senders := by
  unfold cancelRest
  dsimp only
  split
  · split <;> rfl
  · rfl

theorem cancelTask_serves (id : Nat) : Serves may s (cancelTask s id).1 := by
  unfold cancelTask
  split
  · exact .of_eq rfl
  · split
    · exact .of_eq rfl
    · next c _ _ =>
        generalize hr : (if c.timeoutTimer ≠ 0 then s.cancelTimer c.timeoutTimer else s) = r
        have hsame : r.senders = s.senders := by
          rw [← hr]
          split <;> rfl
        refine .after _ hsame ?_
        dsimp only
        split
        · exact .set rfl (.quiet (.reset _))
        · exact .of_eq (cancelRest_senders _)

theorem callTask_serves (tcp : Option Status) (id : Nat) (path framed : Bytes) (timeoutMs : Nat)
    (call : NewCall) : Serves may s (callTask s tcp id path framed timeoutMs call).1 := by
  unfold callTask
  generalize hr : (if timeoutMs > 0 then _ else _ : State × Nat) = r
  have hsame : r.1.senders = s.senders := by
    rw [← hr]
    split <;> rfl
  refine .after _ hsame ?_
  dsimp only
  split
  · exact callNow_serves _ _ _ _
  · exact .of_eq (complete_senders _ _ _ _)
  · exact .of_eq rfl
  · exact .of_eq (connectNow_senders _)

theorem openStreamTask_serves (tcp : Option Status) (id : Nat) (path : Bytes)
    (events : StreamEvents) (timeoutMs : Nat) :
    Serves may s (openStreamTask s tcp id path events timeoutMs).1 := by
  unfold openStreamTask
  split
  · dsimp only
    split
    · exact openStreamNow_serves _
    · exact .of_eq rfl
    · exact .of_eq rfl
    · exact .of_eq (connectNow_senders _)
  · exact .of_eq rfl

theorem streamSendTask_serves (id : Nat) (framed : Bytes) (cb : Option CbId) (close : Bool) :
    Serves (fun sid => Task.sendsOn s (.streamSend id framed cb close) = some sid) s
      (streamSendTask s id framed cb close) := by
  unfold streamSendTask
  split
  · split
    · split <;> exact .of_eq rfl
    · exact .of_eq rfl
  · next st hlive =>
      split
      · exact .of_eq rfl
      · split
        · exact .of_eq rfl
        · next hsc hlen =>
            dsimp only
            have hpump : ∀ s', s' = State.setStream
                { s with accepted := s.accepted ++ [(id, framed)] } id
                { st with outQueue := st.outQueue ++ [⟨framed, close, cb⟩] } →
                Serves (fun sid => Task.sendsOn s (.streamSend id framed cb close) = some sid) s'
                  (pumpStream s' id) := by
              rintro s' rfl
              refine pumpStream_serves id ?_
              intro st' hst' _ hi _
              simp only [State.setStream, Function.update_self, Option.some.injEq] at hst'
              subst hst'
              have hi : st.outInflight = false := hi
              simp only [Task.sendsOn, hlive, Option.bind_some]
              rw [if_neg (by simp [hsc, hi]; omega)]
            exact hpump _ rfl

theorem streamCloseSendTask_serves (id : Nat) :
    Serves (fun sid => Task.sendsOn s (.streamCloseSend id) = some sid) s
      (streamCloseSendTask s id) := by
  unfold streamCloseSendTask
  split
  · exact .of_eq rfl
  · next st hlive =>
      split
      · exact .of_eq rfl
      · next hsc =>
          split
          · next hq =>
              dsimp only
              split
              · refine .set rfl (.sent _ _ _ ?_)
                have hnil := List.isEmpty_iff.mp hq
                simp [Task.sendsOn, hlive, hsc, hnil]
              · exact .of_eq rfl
          · exact .of_eq rfl

theorem runTask_serves (tcp : Option Status) (t : Task) :
    Serves (fun sid => t.sendsOn s = some sid) s (runTask s tcp t).1 := by
  cases t with
  | call id path framed timeoutMs call => exact callTask_serves _ _ _ _ _ _
  | cancel id => exact cancelTask_serves id
  | openStream id path events timeoutMs => exact openStreamTask_serves _ _ _ _ _
  | streamSend id framed cb close => exact streamSendTask_serves id framed cb close
  | streamCloseSend id => exact streamCloseSendTask_serves id
  | pumpStream id =>
      refine pumpStream_serves id ?_
      intro st hst hc hi hq
      simp [Task.sendsOn, live_eq hst hc, hi, hq]

theorem onHeadersComplete_senders (sid : Nat) (headers : HeaderMap) :
    (onHeadersComplete s sid headers).senders = s.senders := by
  unfold onHeadersComplete
  split
  · split
    · rfl
    · split
      · rfl
      · split
        · exact completeStream_senders _ _ _
        · split
          · exact completeStream_senders _ _ _
          · rfl
  · split
    · rfl
    · split
      · rfl
      · split
        · exact complete_senders _ _ _ _
        · split
          · exact complete_senders _ _ _ _
          · rfl

theorem onData_senders (sid : Nat) (chunk : Bytes) : (onData s sid chunk).senders = s.senders := by
  unfold onData
  split
  · split
    · rfl
    · unfold onStreamData
      split
      · rfl
      · dsimp only
        split
        · exact completeStream_senders _ _ _
        · rfl
  · split
    · rfl
    · split
      · rfl
      · unfold onCallData
        split
        · rfl
        · dsimp only
          split
          · exact complete_senders _ _ _ _
          · rfl

theorem onStreamClose_senders (sid : Nat) : (onStreamClose s sid).senders = s.senders := by
  have herase : ∀ s : State, (s.eraseStreamBySidAt sid).senders = s.senders := by
    intro s
    obtain ⟨n, h⟩ := eraseStreamBySidAt_eq s sid
    rw [h]
  have herase' : ∀ s : State, (s.eraseByStreamAt sid).senders = s.senders := by
    intro s
    obtain ⟨n, h⟩ := eraseByStreamAt_eq s sid
    rw [h]
  obtain ⟨m, s', heq, hstream, hcall⟩ := onStreamClose_closed s sid
  rw [heq]
  have hm : m.senders = s.senders := by
    cases hstream with
    | unknown => rfl
    | left => exact herase s
    | failed => exact (herase _).trans (completeStream_senders _ _ _)
  rw [← hm]
  cases hcall with
  | unknown => rfl
  | left => exact herase' m
  | failed => exact (herase' _).trans (complete_senders _ _ _ _)

theorem onConsumed_senders (n : Closure) : (onConsumed s n).senders = s.senders := by
  unfold onConsumed
  dsimp only [State.note]
  split <;> rfl

theorem onConnectionLost_serves : Serves may s (onConnectionLost s) := by
  unfold onConnectionLost
  split
  · exact .of_eq rfl
  · intro sid
    rw [failPending_senders]
    exact .quiet (.close _)

/-- **What one step does to the senders.** -/
theorem step_served {c d : Conf} {l : Label} (h : machine.step c l = some d) :
    Serves (fun sid => sendsOn c l = some sid) c.st d.st := by
  cases l with
  | resume =>
      obtain ⟨f, fs, hf, rfl⟩ := Resume.System.step_resume h
      cases f with
      | callNowRest sid id call => exact .of_eq rfl
      | openStreamRest sid ps decoder =>
          refine openStreamRest_serves sid ps decoder ?_
          intro hq
          simp [sendsOn, hf, hq]
      | startPending =>
          simp only [machine, exec, startPending]
          split
          · exact .of_eq rfl
          · next rest _ =>
              exact .after { c.st with pending := rest } rfl (callNow_serves _ _ _ _)
      | startPendingStreams =>
          simp only [machine, exec, startPendingStreams]
          split
          · exact .of_eq rfl
          · next rest _ =>
              exact .after { c.st with pendingStreams := rest } rfl
                (openStreamNow_serves _)
      | callTimeoutRest id => exact .of_eq (callTimeoutRest_senders id)
      | streamTimeoutRest id => exact .of_eq (streamTimeoutRest_senders id)
      | cancelRest id => exact .of_eq (cancelRest_senders id)
  | event e =>
      obtain ⟨-, s', gs, hfire, rfl⟩ := Resume.System.step_event h
      have hfire : fire e c.st = some (s', gs) := hfire
      cases e with
      | call | cancel | openStream | streamSend | streamCloseSend | setMaxReceiveSize | refuse =>
          cases hfire
          exact .of_eq rfl
      | streamClose sid =>
          simp only [fire] at hfire
          split at hfire
          · cases hfire
            exact .set (onStreamClose_senders _) (.quiet (.close _))
          · cases hfire
      | credit sid n =>
          simp only [fire] at hfire
          split at hfire
          · cases hfire
            exact .set rfl (.quiet (.credit _ n))
          · cases hfire
      | consumed sid =>
          simp only [fire] at hfire
          split at hfire
          · cases hfire
          · next n notes hn =>
              cases hfire
              exact .set (onConsumed_senders n) (.quiet (.noted hn))
      | task tcp =>
          simp only [fire] at hfire
          split at hfire
          · cases hfire
          · next t ts hp =>
              split at hfire
              · have hrun := runTask_serves (s := { c.st with posted := ts }) tcp t
                rw [Option.some.inj hfire] at hrun
                simp only [sendsOn, hp, List.head?_cons, Option.bind_some]
                exact hrun
              · cases hfire
      | timer t =>
          simp only [fire] at hfire
          split at hfire
          · cases hfire
          · next id _ _ =>
              have hrun : Serves (fun sid => sendsOn c (.event (.timer t)) = some sid)
                  (c.st.cancelTimer t) (callTimeout (c.st.cancelTimer t) id).1 :=
                callTimeout_serves id
              rw [Option.some.inj hfire] at hrun
              exact hrun
          · next id _ _ =>
              have hrun : Serves (fun sid => sendsOn c (.event (.timer t)) = some sid)
                  (c.st.cancelTimer t) (streamTimeout (c.st.cancelTimer t) id).1 :=
                streamTimeout_serves id
              rw [Option.some.inj hfire] at hrun
              exact hrun
      | connected =>
          simp only [fire] at hfire
          split at hfire
          · cases hfire
            exact .of_eq rfl
          · cases hfire
      | connectFailed st =>
          simp only [fire] at hfire
          split at hfire
          · cases hfire
            exact .of_eq (failPending_senders _)
          · cases hfire
      | headers sid fields =>
          simp only [fire] at hfire
          split at hfire
          · cases hfire
            exact .of_eq (onHeadersComplete_senders _ _)
          · cases hfire
      | data sid chunk =>
          simp only [fire] at hfire
          split at hfire
          · cases hfire
            exact .of_eq (onData_senders _ _)
          · cases hfire
      | lost =>
          simp only [fire] at hfire
          split at hfire
          · cases hfire
            exact onConnectionLost_serves
          · cases hfire

end Functions

/-- A body finds its stream open and no body of it read to its end. -/
def sendsReady (c : Conf) (l : Label) : Prop :=
  (sendsOn c l).all (fun sid => (c.st.senders sid).ready) = true

instance (c : Conf) (l : Label) : Decidable (sendsReady c l) :=
  inferInstanceAs (Decidable (_ = true))

theorem Served.sparing {may : Prop} {h2 h2' : Sender Closure} (h : Served may h2 h2')
    (hs : h2.Sparing) (hready : may → h2.ready = true) : h2'.Sparing := by
  cases h with
  | same => exact hs
  | quiet hq =>
      cases hq with
      | credit n => exact hs.credit n
      | close => exact Sender.Sparing.close _
      | reset | noted => exact hs.same rfl rfl rfl
  | opened fields => exact Sender.sparing_new.sendHeaders fields false
  | request fields body =>
      unfold submitRequest
      dsimp only
      split
      · exact Sender.sparing_new.sendHeaders _ _
      · exact (Sender.sparing_new.sendHeaders _ _).sendData _ _ _ rfl
  | sent data e n hmay => exact hs.sendData data e n (hready hmay)

theorem reach_sparing {o : Options} {d : Conf} (h : machine.Reach sendsReady (fresh o) d)
    (sid : Nat) : (d.st.senders sid).Sparing := by
  refine h.inv (I := fun c => ∀ sid, (c.st.senders sid).Sparing)
    (fun _ => Sender.sparing_new) ?_ sid
  intro c l e hi hok hs sid
  refine (step_served hs sid).sparing (hi sid) fun hsend => ?_
  simpa [sendsReady, hsend] using hok

end Channel

/-! ## Both endpoints -/

/-- **The bodies that a session keeps**, in every run of a client channel and in every run of a
    server connection, all its streams taking turns, in which each body finds its stream open
    and with no body read to its end. -/
theorem bodies_kept (o : Channel.Options) (cfg : Server.Config) :
    (∀ d : Channel.Conf, Channel.machine.Reach Channel.sendsReady (Channel.fresh o) d →
      ∀ sid, (d.st.senders sid).Kept) ∧
    ∀ d : Int → Server.Conf,
      (Server.machine cfg).Interleaved Server.sendsReady (fun _ => Server.fresh) d →
      ∀ sid, (d sid).st.h2.Kept := by
  constructor
  · intro d h sid
    exact (Channel.reach_sparing h sid).kept
  · intro d h sid
    exact (Server.reach_sparing (h.proj sid)).kept

/-- A client stream and a server stream that send one message each. -/
theorem bodies_kept_one :
    (∃ d, Channel.machine.Reach Channel.sendsReady (Channel.fresh Channel.demo) d ∧
      (d.st.senders 1).pendingBodies.length = 1 ∧ (d.st.senders 1).unread = [] ∧
      (d.st.senders 1).Kept) ∧
    ∃ d : Int → Server.Conf,
      (Server.machine Server.demo).Interleaved Server.sendsReady (fun _ => Server.fresh) d ∧
      (d 1).st.h2.pendingBodies.length = 1 ∧ (d 1).st.h2.Kept := by
  constructor
  · obtain ⟨d, hd, hlen, hread⟩ : ∃ d, Channel.machine.run Channel.sendsReady
        (Channel.fresh Channel.demo) (Channel.openAndSend ++ [.event (.credit 1 100)]) = some d ∧
        (d.st.senders 1).pendingBodies.length = 1 ∧ (d.st.senders 1).unread = [] :=
      ⟨_, rfl, rfl, rfl⟩
    have hd := Resume.System.reach_of_run _ _ _ hd
    exact ⟨d, hd, hlen, hread, (bodies_kept Channel.demo Server.demo).1 d hd 1⟩
  · obtain ⟨c, hc, hlen⟩ : ∃ c, (Server.machine Server.demo).run Server.sendsReady Server.fresh
        (Server.openBidi ++ [.event (.credit 100), .event (.op (.writeMessage [7] none)),
          .resume]) = some c ∧ c.st.h2.pendingBodies.length = 1 := ⟨_, rfl, rfl⟩
    have hd := Resume.System.Interleaved.single (c := fun _ : Int => Server.fresh) (i := 1)
      (Resume.System.reach_of_run _ _ _ hc)
    refine ⟨_, hd, ?_, (bodies_kept Channel.demo Server.demo).2 _ hd 1⟩
    rw [Function.update_self]
    exact hlen

/-- Two messages of a bidi call, each read by the peer, are both kept. A message whose stream is
    closed while its response headers are flushed is kept for a closed stream. -/
theorem bodies_pile_up :
    (∃ d : Int → Server.Conf,
      (Server.machine Server.demo).Interleaved Server.trailersPlain (fun _ => Server.fresh) d ∧
      (d 1).st.h2.pendingBodies.length = 2 ∧ (d 1).st.h2.unread = [] ∧ ¬ (d 1).st.h2.Kept) ∧
    ∃ d : Int → Server.Conf,
      (Server.machine Server.demo).Interleaved Server.trailersPlain (fun _ => Server.fresh) d ∧
      (d 1).st.h2.closed = true ∧ (d 1).st.h2.pendingBodies.length = 1 ∧
      ¬ (d 1).st.h2.Kept := by
  constructor
  · obtain ⟨c, hc, hlen, hread, hkept⟩ : ∃ c, (Server.machine Server.demo).run
        Server.trailersPlain Server.fresh (Server.openBidi ++ [.event (.credit 100),
          .event (.op (.writeMessage [7] none)), .resume, .event .consumed, .resume,
          .event (.op (.writeMessage [8] none)), .event .consumed, .resume]) = some c ∧
        c.st.h2.pendingBodies.length = 2 ∧ c.st.h2.unread = [] ∧
        (c.st.h2.pendingBodies.filter fun body => !body.eof).length = 0 :=
      ⟨_, rfl, rfl, rfl, rfl⟩
    have hd := Resume.System.Interleaved.single (c := fun _ : Int => Server.fresh) (i := 1)
      (Resume.System.reach_of_run _ _ _ hc)
    refine ⟨_, hd, ?_⟩
    rw [Function.update_self]
    refine ⟨hlen, hread, fun h => ?_⟩
    have := h.few
    omega
  · obtain ⟨c, hc, hclosed, hlen⟩ : ∃ c, (Server.machine Server.demo).run
        Server.trailersPlain Server.fresh (Server.openBidi ++
          [.event (.op (.writeMessage [7] none)), .event .streamClose, .resume, .resume, .resume,
            .resume]) = some c ∧
        c.st.h2.closed = true ∧ c.st.h2.pendingBodies.length = 1 := ⟨_, rfl, rfl, rfl⟩
    have hd := Resume.System.Interleaved.single (c := fun _ : Int => Server.fresh) (i := 1)
      (Resume.System.reach_of_run _ _ _ hc)
    refine ⟨_, hd, ?_⟩
    rw [Function.update_self]
    refine ⟨hclosed, hlen, fun h => ?_⟩
    rw [h.dropped hclosed] at hlen
    cases hlen

end Urpc
