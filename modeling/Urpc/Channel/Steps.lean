/-
  Each step of the channel is a chain of moves of its desk.

  One lemma per function of the source says which moves it makes; `desk_step` puts them
  together. `ended` lists the streams that a step can terminate, `failsClear` and `calmEnd` are
  the conditions on a step under which its moves may ask for `clear` and `calm`.

  Proved: `desk_step`.
-/
import Urpc.Channel.Desk

namespace Urpc.Channel

open Cxx

section Functions

open Desk Relation

variable {E : Env} {s : State} {fs : List Frame}

theorem desk_completeStream (s : State) (fs : List Frame) (id : Nat) (st : Stream)
    (status : Status) (hc : st.completed = false) :
    desk (completeStream s id st status) fs =
      { (desk s fs).setStream id
          { st with completed := true, timeoutTimer := 0, outQueue := [] } with
        routes := if st.sid ≠ 0 then Function.update s.streamBySid st.sid none
                  else s.streamBySid }.note (tellFail id st.outQueue st.events status) := by
  simp only [completeStream, hc, Bool.false_eq_true, if_false]
  split <;> split <;> simp_all [desk, State.note, State.setStream, State.eraseStreamBySid,
    State.cancelTimer, Desk.note, Desk.setStream]

theorem completeStream_moves {id : Nat} {st : Stream} (decoder : FrameDecoder) (status : Status)
    (hst : s.streams id = some st) (hc : st.completed = false)
    (hcalm : E.calm → st.outInflight = false) (hstern : E.stern → status.ok = false)
    (hhonest : E.honest → status.ok = true → ∀ m ∈ st.outQueue, m.cb = none)
    (hlast : ¬ E.lasting) :
    Moves E (desk s fs) (desk (completeStream s id { st with decoder } status) fs) := by
  rw [desk_completeStream s fs id { st with decoder } status hc]
  have hmove := Move.streamOver (v := desk s fs) decoder status hst hc hcalm hstern hhonest hlast
  exact .single hmove

theorem pumpStream_moves (id : Nat) (hend : ¬ E.ending) :
    Moves E (desk s fs) (desk (pumpStream s id) fs) := by
  unfold pumpStream
  split
  · exact .refl
  · next st hst =>
      split
      · exact .refl
      · next out queue hq =>
          split
          · exact .refl
          · next hidle =>
              split
              · exact .refl
              · next hses =>
                  obtain ⟨hc, hi⟩ : st.completed = false ∧ st.outInflight = false := by
                    simpa using hidle
                  obtain ⟨-, hs⟩ : ¬ st.sid = 0 ∧ s.session = true := by simpa using hses
                  exact .single (.pumped (v := desk s fs) hst hq hc hi hs hend)

theorem onConsumed_moves {sid : Nat} {n : Closure} {notes : List Closure}
    (hn : (s.senders sid).notes = n :: notes) (hend : ¬ E.ending) :
    Moves E (desk s fs)
      (desk (onConsumed (s.setSender sid { s.senders sid with notes }) n) fs) := by
  unfold onConsumed
  cases hst : s.streams n.id with
  | some st =>
      have hmove := Move.consumed (v := desk s fs) hn hst hend
      convert ReflTransGen.single hmove using 1
      simp [desk, State.setSender, State.setStream, State.post, State.note, Desk.note,
        Desk.setStream, Desk.setSender, hst]
  | none =>
      have hmove := Move.consumedLate (v := desk s fs) hn hst hend
      convert ReflTransGen.single hmove using 1
      simp [desk, State.setSender, State.note, Desk.note, Desk.setSender, hst]

/-- `OpenStreamNow` on the stream at the head of a queue; `s` is the state without it. -/
theorem openStreamNow_moves {v : Desk} {ps : PendingStream}
    (hnext : NextStream v ps (desk s fs)) (hphase : v.phase = .ready)
    (hpark : E.parking → s.pendingStreams = v.parked) :
    Moves E v (desk (openStreamNow s ps).1 ((openStreamNow s ps).2 ++ fs)) := by
  obtain ⟨htodo, -, hsid, hopt⟩ := hnext.same
  unfold openStreamNow State.submit
  split
  · next h =>
      exact .single (.streamFailed submitFailed hnext rfl hpark)
  · next s' sid h =>
      split at h
      · cases h
      · obtain ⟨rfl, rfl⟩ := Prod.mk.inj (Option.some.inj h)
        have hmove := Move.streamOpened (E := E) hnext hphase hpark
        rw [← htodo, ← hsid, ← hopt] at hmove
        exact .single hmove

theorem openStreamRest_moves (sid : Nat) (ps : PendingStream) (decoder : FrameDecoder)
    (hend : ¬ E.ending) :
    Moves E (desk s (.openStreamRest sid ps decoder :: fs))
      (desk (openStreamRest s sid ps decoder) fs) := by
  unfold openStreamRest
  dsimp only
  split
  · refine ReflTransGen.trans ?_ (pumpStream_moves ps.id hend)
    exact .single (.streamRegistered s.nextTimer rfl hend)
  · refine ReflTransGen.trans ?_ (pumpStream_moves ps.id hend)
    exact .single (.streamRegistered 0 rfl hend)

theorem startPendingStreams_moves (hphase : s.phase = .ready) (hpark : ¬ E.parking) :
    Moves E (desk s (.startPendingStreams :: fs))
      (desk (startPendingStreams s).1 ((startPendingStreams s).2 ++ fs)) := by
  unfold startPendingStreams
  split
  · next hp => exact .single (.startedStreams rfl hp)
  · next ps rest hp =>
      have hnext : NextStream (desk s (.startPendingStreams :: fs)) ps
          (desk { s with pendingStreams := rest } (.startPendingStreams :: fs)) := .parked hp
      have := openStreamNow_moves (E := E) hnext hphase fun h => absurd h hpark
      simpa using this

theorem desk_complete (s : State) (fs : List Frame) (id : Nat) (call : Call) (status : Status)
    (payload : Bytes) (hc : call.completed = false) :
    desk (complete s id call status payload) fs =
      { desk s fs with
        calls := Function.update s.calls id none
        byStream := if call.sid ≠ 0 then Function.update s.byStream call.sid none
                    else s.byStream }.note [.done id status payload] := by
  simp only [complete, hc, Bool.false_eq_true, if_false, call.whole hc, if_true]
  split <;> split <;> simp_all [desk, Desk.note, State.note, State.eraseCall, State.eraseByStream,
    State.cancelTimer]

theorem complete_moves {id : Nat} {call : Call} (decoder : FrameDecoder) (status : Status)
    (payload : Bytes) (hcall : s.calls id = some call) (hc : call.completed = false)
    (hstern : E.stern → status.ok = false) :
    Moves E (desk s fs) (desk (complete s id { call with decoder } status payload) fs) := by
  rw [desk_complete s fs id { call with decoder } status payload hc]
  have hmove := Move.callOver (v := desk s fs) status payload hcall hc hstern
  exact .single hmove

/-- `CallNow` on the call at the head of a queue; `s` is the state without it. -/
theorem callNow_moves {v : Desk} {id : Nat} {call : NewCall} (path framed : Bytes)
    (hnext : NextCall v id call (desk s fs)) (hphase : v.phase = .ready) :
    let r := callNow s id path framed call
    Moves E v (desk r.1 (r.2 ++ fs)) := by
  obtain ⟨htodo, -, hsid, hcalls⟩ := hnext.same
  unfold callNow State.submit
  split
  · next h =>
      have hmove := Move.callFailed (E := E) submitFailed hnext rfl
      rw [← hcalls] at hmove
      show Moves E v (desk (completeNew s id call submitFailed) fs)
      rw [completeNew, desk_complete _ _ _ _ _ _ rfl]
      exact .single hmove
  · next s' sid h =>
      split at h
      · cases h
      · obtain ⟨rfl, rfl⟩ := Prod.mk.inj (Option.some.inj h)
        have hmove := Move.callSubmitted (E := E) (requestHeaders s.options path) framed hnext
          hphase
        rw [← htodo, ← hsid] at hmove
        exact .single hmove

theorem startPending_moves (hphase : s.phase = .ready) :
    Moves E (desk s (.startPending :: fs))
      (desk (startPending s).1 ((startPending s).2 ++ fs)) := by
  unfold startPending
  split
  · next hp => exact .single (.started rfl hp)
  · next pc rest hp =>
      have hnext : NextCall (desk s (.startPending :: fs)) pc.id pc.call
          (desk { s with pending := rest } (.startPending :: fs)) := .pending hp
      have := callNow_moves (E := E) pc.path pc.framed hnext hphase
      simpa using this

/-! ### Connecting -/

/-- Every parked call fails. -/
def Desk.failAll (v : Desk) (st : Status) : Desk :=
  { v with
    pending := []
    calls := v.pending.foldl (fun calls pc => Function.update calls pc.id none) v.calls
    log := v.log ++ v.pending.map fun pc => .done pc.id st [] }

theorem Desk.failAll_moves (v : Desk) {st : Status} (hst : st.ok = false) :
    Moves E v (v.failAll st) := by
  unfold Desk.failAll
  induction hp : v.pending generalizing v with
  | nil =>
      have hv : { v with pending := [] } = v := by rw [← hp]
      simpa using (hv ▸ .refl : Moves E v { v with pending := [] })
  | cons pc rest ih =>
      refine .head (.callFailed st (.pending hp) hst) ?_
      have := ih (Desk.note { v with pending := rest, calls := Function.update v.calls pc.id none }
        [.done pc.id st []]) rfl
      simpa [Desk.note] using this

theorem desk_failPending (st : Status) :
    desk (failPending s st) fs = (desk s fs).failAll st := by
  have key : ∀ (l : List PendingCall) (s : State),
      desk (l.foldl (fun s pc => completeNew s pc.id pc.call st) s) fs =
        { desk s fs with
          calls := l.foldl (fun calls pc => Function.update calls pc.id none) s.calls
          log := s.log ++ l.map fun pc => .done pc.id st [] } := by
    intro l
    induction l with
    | nil => intro s; simp [desk]
    | cons pc l ih =>
        intro s
        have hd := desk_complete s fs pc.id { pc.call with sid := 0 } st [] rfl
        rw [List.foldl_cons, ih, completeNew, hd]
        have hcalls := congrArg Desk.calls hd
        have hlog := congrArg Desk.log hd
        simp only [desk, Desk.note] at hcalls hlog
        simp [desk, Desk.note, hcalls, hlog]
  exact key s.pending { s with pending := [] }

theorem connectFailed_moves {st : Status} (hst : st.ok = false) (hphase : s.phase = .connecting)
    (hclear : E.clear → s.pendingStreams = []) :
    Moves E (desk s fs) (desk (connectFailed s st) fs) := by
  -- the calls fail first here: `FailPending` does not look at the phase
  rw [connectFailed, desk_failPending]
  exact ((desk s fs).failAll_moves hst).tail (.connectFailed hphase rfl hclear)

theorem connectNow_moves {tcp : Option Status} (htcp : ∀ st, tcp = some st → st.ok = false)
    (hphase : s.phase = .idle)
    (hclear : E.clear → tcp.isSome = true → s.pendingStreams = []) :
    Moves E (desk s fs) (desk (connectNow s tcp) fs) := by
  unfold connectNow
  refine .head (.connect hphase) ?_
  cases tcp with
  | none => exact .refl
  | some st =>
      exact connectFailed_moves (s := { s with phase := .connecting }) (htcp st rfl) rfl
        fun h => hclear h rfl

theorem onConnectionLost_moves (hses : s.session = true)
    (hcalm : E.calm → ∀ id < s.nextCallId, ∀ st, s.streams id = some st → st.completed = false →
      st.outInflight = false) (hlast : ¬ E.lasting) :
    Moves E (desk s []) (desk (onConnectionLost s) []) := by
  unfold onConnectionLost
  split
  · exact .refl
  · next hphase =>
      rw [desk_failPending]
      exact .head (.lost hses hphase rfl hcalm hlast) (Desk.failAll_moves _ rfl)

/-! ### Transport events -/

/-- A header block that terminates its stream. -/
def endsStream (headers : HeaderMap) : Bool :=
  (find headers "grpc-status").isSome || find headers ":status" != some (str "200")

/-- A chunk that the stream's decoder rejects. -/
def rejects (st : Stream) (chunk : Bytes) : Bool :=
  !chunk.isEmpty && !(st.decoder.consume chunk).1.ok

theorem live_eq {id : Nat} {st : Stream} (hst : s.streams id = some st)
    (hc : st.completed = false) : live s id = some st := by
  simp [live, hst, hc]

theorem of_live {id : Nat} {st : Stream} (h : live s id = some st) :
    s.streams id = some st ∧ st.completed = false := by
  simpa [live, Option.filter_eq_some_iff] using h

/-- If the block ends its stream well, no message in the stream's queue has a callback. -/
def endsHonestly (s : State) (sid : Nat) (headers : HeaderMap) : Bool :=
  ((s.streamBySid sid).bind (live s)).all fun st =>
    (find headers "grpc-status").all fun gs =>
      !(trailersStatus headers gs).ok || st.outQueue.all fun m => m.cb.isNone

theorem endsHonestly_cb {sid id : Nat} {headers : HeaderMap} {st : Stream} {gs : Bytes}
    (h : endsHonestly s sid headers = true) (hid : s.streamBySid sid = some id)
    (hst : live s id = some st) (hgs : find headers "grpc-status" = some gs)
    (hok : (trailersStatus headers gs).ok = true) : ∀ m ∈ st.outQueue, m.cb = none := by
  simpa [endsHonestly, hid, hst, hgs, hok] using h

theorem onHeadersComplete_moves (sid : Nat) (headers : HeaderMap)
    (hcalm : E.calm → endsStream headers = true → ∀ id st, s.streamBySid sid = some id →
      live s id = some st → st.outInflight = false) (hstern : ¬ E.stern)
    (hhonest : E.honest → endsHonestly s sid headers = true) (hlast : ¬ E.lasting) :
    Moves E (desk s fs) (desk (onHeadersComplete s sid headers) fs) := by
  unfold onHeadersComplete
  split
  · next id hid =>
      split
      · exact .refl
      · next st hst =>
          split
          · exact .refl
          · next hc =>
              have hc : st.completed = false := by simpa using hc
              have hcalm := fun h he => hcalm h he id st hid (live_eq hst hc)
              split
              · next gs hgs =>
                  exact completeStream_moves st.decoder _ hst hc
                    (fun h => hcalm h (by simp [endsStream, hgs])) (fun h => absurd h hstern)
                    (fun h => endsHonestly_cb (hhonest h) hid (live_eq hst hc) hgs) hlast
              · split
                · next hstatus =>
                    exact completeStream_moves st.decoder _ hst hc
                      (fun h => hcalm h (by simp [endsStream, hstatus])) (fun h => absurd h hstern)
                      (fun _ h => absurd h (by decide)) hlast
                · exact .refl
  · split
    · exact .refl
    · next id hid =>
        split
        · exact .refl
        · next call hcall =>
            by_cases hc : call.completed = true
            · have hskip : ∀ st payload, complete s id call st payload = s := by
                intro st payload
                simp [complete, hc]
              simp only [hskip, ite_self]
              split <;> exact .refl
            · have hmove : ∀ st payload,
                  Moves E (desk s fs) (desk (complete s id call st payload) fs) :=
                fun st payload => complete_moves call.decoder st payload hcall (by simpa using hc)
                  fun h => absurd h hstern
              split
              · exact hmove _ _
              · split
                · exact hmove _ _
                · exact .refl

theorem onData_moves (sid : Nat) (chunk : Bytes) (hfeed : E.feed sid chunk)
    (hcalm : E.calm → ∀ id st, s.streamBySid sid = some id → live s id = some st →
      rejects st chunk = true → st.outInflight = false) (hlast : ¬ E.lasting) :
    Moves E (desk s fs) (desk (onData s sid chunk) fs) := by
  unfold onData
  split
  · next id hid =>
      split
      · exact .refl
      · next st hst =>
          unfold onStreamData
          split
          · exact .refl
          · next hgo =>
              obtain ⟨hc, hne⟩ : st.completed = false ∧ chunk.isEmpty = false := by simpa using hgo
              dsimp only
              split
              · next hbad =>
                  have hbad : (st.decoder.consume chunk).1.ok = false := by simpa using hbad
                  exact completeStream_moves _ _ hst hc (fun h =>
                    hcalm h id st hid (live_eq hst hc) (by simp [rejects, hne, hbad]))
                    (fun _ => hbad) (fun _ h => absurd h (by simp [hbad])) hlast
              · next hok =>
                  exact .single (.streamFed hfeed hid hst hc (by simpa using hok))
  · split
    · exact .refl
    · split
      · exact .refl
      · next call hcall =>
          unfold onCallData
          split
          · exact .refl
          · next hgo =>
              have hc : call.completed = false := by
                simp only [Bool.or_eq_true, not_or, Bool.not_eq_true] at hgo
                exact hgo.1
              dsimp only
              split
              · next hbad => exact complete_moves _ _ _ hcall hc fun _ => by simpa using hbad
              · exact .single (.callFed _ hfeed hcall)

theorem eraseStreamBySidAt_moves (sid : Nat) :
    Moves E (desk s fs) (desk (s.eraseStreamBySidAt sid) fs) := by
  unfold State.eraseStreamBySidAt
  split
  · exact .single (.unrouted sid)
  · exact .refl

theorem eraseByStreamAt_moves (sid : Nat) :
    Moves E (desk s fs) (desk (s.eraseByStreamAt sid) fs) := by
  unfold State.eraseByStreamAt
  split
  · exact .single (.unregistered sid)
  · exact .refl

theorem onStreamClose_moves (sid : Nat)
    (hcalm : E.calm → ∀ id st, s.streamBySid sid = some id → live s id = some st →
      st.rstPending = false → st.outInflight = false) (hlast : ¬ E.lasting) :
    Moves E (desk s fs) (desk (onStreamClose s sid) fs) := by
  obtain ⟨m, s', heq, hstream, hcall⟩ := onStreamClose_closed s sid
  rw [heq]
  refine ReflTransGen.trans (b := desk m fs) ?_ ?_
  · cases hstream with
    | unknown => exact .refl
    | left => exact eraseStreamBySidAt_moves sid
    | failed hid hst hc hr =>
        refine ReflTransGen.trans ?_ (eraseStreamBySidAt_moves sid)
        exact completeStream_moves _ _ hst hc (fun h => hcalm h _ _ hid (live_eq hst hc) hr)
          (fun _ => rfl) (fun _ h => absurd h (by decide)) hlast
  · cases hcall with
    | unknown => exact .refl
    | left => exact eraseByStreamAt_moves sid
    | failed _ hcall hc =>
        refine ReflTransGen.trans ?_ (eraseByStreamAt_moves sid)
        exact complete_moves _ _ _ hcall hc fun _ => rfl

/-! ### Timers -/

theorem callTimeoutRest_moves (id : Nat) :
    Moves E (desk s (.callTimeoutRest id :: fs)) (desk (callTimeoutRest s id) fs) := by
  unfold callTimeoutRest
  split
  · next hcall => exact .single (.callGone rfl hcall)
  · next call hcall =>
      refine .head (.callTimedOut rfl hcall) ?_
      dsimp only
      by_cases herase : (call.sid ≠ 0 && s.session) = true
      · rw [if_pos herase]
        exact .single (.unregistered call.sid)
      · rw [if_neg herase]
        exact .refl

theorem callTimeout_moves (id : Nat) :
    Moves E (desk s fs) (desk (callTimeout s id).1 ((callTimeout s id).2 ++ fs)) := by
  unfold callTimeout
  split
  · exact .refl
  · next call hcall =>
      split
      · exact .refl
      · next hc =>
          refine .head (.callTimeout hcall (by simpa using hc)) ?_
          dsimp only
          split
          · exact .single (.reset call.sid)
          · exact callTimeoutRest_moves (s := s.setCall id _) id

theorem streamTimeoutRest_moves (id : Nat)
    (hcalm : E.calm → ∀ st, live s id = some st → st.outInflight = false) (hlast : ¬ E.lasting) :
    Moves E (desk s (.streamTimeoutRest id :: fs)) (desk (streamTimeoutRest s id) fs) := by
  unfold streamTimeoutRest
  split
  · next hst => exact .single (.streamGone rfl hst)
  · next st hst =>
      dsimp only
      generalize hs' : (if (st.sid ≠ 0 && s.session) = true then s.eraseStreamBySid st.sid
        else s) = s'
      have hunroute : Moves E (desk s (.streamTimeoutRest id :: fs))
          (desk s' (.streamTimeoutRest id :: fs)) := by
        subst hs'
        split
        · exact .single (.unrouted st.sid)
        · exact .refl
      have hst' : s'.streams id = some st := by
        subst hs'
        split <;> exact hst
      refine hunroute.trans ?_
      by_cases hc : st.completed = true
      · rw [show completeStream s' id st deadlineExceeded = s' by simp [completeStream, hc]]
        exact .single (.streamErased rfl hst' hc)
      · have hc : st.completed = false := by simpa using hc
        refine (completeStream_moves st.decoder deadlineExceeded hst' hc
          (fun h => hcalm h st (live_eq hst hc)) (fun _ => rfl)
          (fun _ h => absurd h (by decide)) hlast).tail ?_
        have hdone : (completeStream s' id st deadlineExceeded).streams id = some { st with
            completed := true, timeoutTimer := 0, outQueue := [] } := by
          simp only [completeStream, hc, Bool.false_eq_true, if_false]
          split <;> split <;> simp [State.note, State.setStream]
        exact .streamErased rfl hdone rfl

theorem streamTimeout_moves (id : Nat)
    (hcalm : E.calm → ∀ st, live s id = some st → (st.sid = 0 ∨ s.session = false) →
      st.outInflight = false) (hlast : ¬ E.lasting) :
    Moves E (desk s fs) (desk (streamTimeout s id).1 ((streamTimeout s id).2 ++ fs)) := by
  unfold streamTimeout
  split
  · exact .refl
  · next st hst =>
      split
      · exact .refl
      · next hc =>
          have hc : st.completed = false := by simpa using hc
          refine .head (.streamTimeout hst hc) ?_
          dsimp only
          split
          · exact .single (.reset st.sid)
          · next hno =>
              refine streamTimeoutRest_moves (s := s.setStream id _) id (fun h st' hst' => ?_) hlast
              obtain ⟨heq, -⟩ := of_live hst'
              simp only [State.setStream, Function.update_self, Option.some.injEq] at heq
              subst heq
              refine hcalm h st (live_eq hst hc) ?_
              by_cases h0 : st.sid = 0
              · exact .inl h0
              · right
                simpa [State.setStream, h0] using hno

/-! ### Posted tasks -/

variable {ts : List Task}

theorem callTask_moves {tcp : Option Status} (htcp : ∀ st, tcp = some st → st.ok = false)
    {id : Nat} {path framed : Bytes} {timeoutMs : Nat} {call : NewCall}
    (hp : s.posted = .call id path framed timeoutMs call :: ts)
    (hclear : E.clear → tcp.isSome = true → s.phase = .idle → s.pendingStreams = []) :
    let r := callTask { s with posted := ts } tcp id path framed timeoutMs call
    Moves E (desk s fs) (desk r.1 (r.2 ++ fs)) := by
  unfold callTask
  generalize hr : (if timeoutMs > 0 then State.setTimer { s with posted := ts } (.call id timeoutMs)
    else ({ s with posted := ts }, call.timeoutTimer)) = r
  obtain ⟨s', timer⟩ := r
  have hs' : desk s' fs = { desk s fs with posted := ts } := by
    split at hr <;> cases hr <;> rfl
  have hphase : s'.phase = s.phase := congrArg Desk.phase hs'
  have hparked : s'.pendingStreams = s.pendingStreams := congrArg Desk.parked hs'
  have hnext : NextCall (desk s fs) id { call with timeoutTimer := timer } (desk s' fs) := by
    rw [hs']
    exact .posted timer hp
  have hpark : s.phase = .idle ∨ s.phase = .connecting → Move E (desk s fs) (desk { s' with
      pending := s'.pending ++ [⟨id, path, framed, { call with timeoutTimer := timer }⟩] } fs) := by
    intro h
    have hmove := Move.callParked (E := E) (v := desk s fs) timer hp h
    convert hmove using 1
    have := congrArg (fun v : Desk => { v with pending := v.pending ++
      [(⟨id, path, framed, { call with timeoutTimer := timer }⟩ : PendingCall)] }) hs'
    simpa [desk] using this
  dsimp only
  split
  · next h => exact callNow_moves path framed hnext (hphase.symm.trans h)
  · next h =>
      have hmove := Move.callFailed (E := E) channelBroken hnext rfl
      rw [completeNew, List.nil_append, desk_complete _ _ _ _ _ _ rfl]
      rw [← hnext.same.2.2.2] at hmove
      exact .single hmove
  · next h => exact .single (hpark (.inr (hphase.symm.trans h)))
  · next h =>
      refine .head (hpark (.inl (hphase.symm.trans h))) ?_
      refine connectNow_moves htcp h fun hc ht => ?_
      exact hparked.trans (hclear hc ht (hphase.symm.trans h))

theorem cancelRest_moves (id : Nat) :
    Moves E (desk s (.cancelRest id :: fs)) (desk (cancelRest s id) fs) := by
  refine .head (.cancelled rfl) ?_
  unfold cancelRest
  dsimp only
  split
  · next call _ =>
      split
      · exact .single (.unregistered call.sid)
      · exact .refl
  · exact .refl

theorem cancelTask_moves (id : Nat) :
    Moves E (desk s fs) (desk (cancelTask s id).1 ((cancelTask s id).2 ++ fs)) := by
  unfold cancelTask
  split
  · exact .refl
  · next call hcall =>
      split
      · exact .refl
      · next hc =>
          dsimp only
          generalize hs' :
            (if call.timeoutTimer ≠ 0 then s.cancelTimer call.timeoutTimer else s) = s'
          have hd : ∀ fs, desk s' fs = desk s fs := by
            intro fs
            subst hs'
            split <;> rfl
          have hcall' : s'.calls id = some call :=
            (congrArg (fun v : Desk => v.calls id) (hd [])).trans hcall
          rw [← hd]
          refine .head (.cancel hcall' (by simpa using hc)) ?_
          split
          · exact .single (.reset call.sid)
          · exact cancelRest_moves (s := s'.setCall id _) id

theorem openStreamTask_moves {tcp : Option Status} (htcp : ∀ st, tcp = some st → st.ok = false)
    {id : Nat} {path : Bytes}
    {events : StreamEvents} {timeoutMs : Nat}
    (hp : s.posted = .openStream id path events timeoutMs :: ts)
    (hclear : E.clear → tcp.isSome = true → s.phase = .idle → events.onComplete = false) :
    let r := openStreamTask { s with posted := ts } tcp id path events timeoutMs
    Moves E (desk s fs) (desk r.1 (r.2 ++ fs)) := by
  unfold openStreamTask
  dsimp only
  split
  · next hterm =>
      have hnext : NextStream (desk s fs) { id, path, events, timeoutMs, terminal := hterm }
          (desk { s with posted := ts } fs) := .posted hp rfl
      have hpark : s.phase = .idle ∨ s.phase = .connecting → Move E (desk s fs) (desk { s with
          posted := ts
          pendingStreams := s.pendingStreams ++ [{ id, path, events, timeoutMs,
                                                   terminal := hterm }] } fs) :=
        fun h => .streamParked hp rfl h
      split
      · next h => exact openStreamNow_moves hnext h fun _ => rfl
      · next h =>
          have hmove := Move.streamFailed (E := E) channelBroken hnext rfl fun _ => rfl
          exact .single hmove
      · next h => exact .single (hpark (.inr h))
      · next h =>
          refine .head (hpark (.inl h)) ?_
          refine connectNow_moves (s := { s with
            posted := ts
            pendingStreams := s.pendingStreams ++ [_] }) htcp h fun hc ht => ?_
          rw [hclear hc ht h] at hterm
          cases hterm
  · next hterm => exact .single (.skip hp (by simpa [Task.plain] using hterm))

/-- `StreamSend` refuses the message, or no message of the queue it joins closes the stream. -/
def joinsOpen (s : State) (id : Nat) : Bool :=
  match live s id with
  | some st => st.sendClosed || 64 ≤ st.outQueue.length || st.outQueue.all fun m => !m.close
  | none => (s.pendingStreams.find? fun ps => ps.id = id).all fun ps =>
      64 ≤ ps.outQueue.length || ps.outQueue.all fun m => !m.close

theorem streamSendTask_moves {id : Nat} {framed : Bytes} {cb : Option CbId} {close : Bool}
    (hp : s.posted = .streamSend id framed cb close :: ts)
    (hfinal : E.final → joinsOpen s id = true) (hend : ¬ E.ending) :
    Moves E (desk s fs) (desk (streamSendTask { s with posted := ts } id framed cb close) fs) := by
  have hrefuse : ∀ st : Status, st.ok = false → Moves E (desk s fs)
      (desk (State.note { s with posted := ts } (tellFlushed id cb st)) fs) :=
    fun st hst => .single (.sendRefused st hp hst)
  unfold streamSendTask
  split
  · next hlive =>
      have hlive : live s id = none := hlive
      split
      · next ps hps =>
          have hps : s.pendingStreams.find? (fun ps => ps.id = id) = some ps := hps
          split
          · exact hrefuse _ rfl
          · next hroom =>
              refine .single (.sendParked hp hps (fun hf => ?_) (Nat.lt_of_not_le hroom))
              have hopen := hfinal hf
              rw [joinsOpen, hlive, hps] at hopen
              simpa [hroom] using hopen
      · exact hrefuse _ rfl
  · next st hlive =>
      have hlive : live s id = some st := hlive
      obtain ⟨hst, hc⟩ := of_live hlive
      split
      · exact hrefuse _ rfl
      · next hsc =>
          split
          · exact hrefuse _ rfl
          · next hroom =>
              refine ReflTransGen.trans ?_ (pumpStream_moves id hend)
              refine .single (.sendQueued hp hst hc (by simpa using hsc) (fun hf => ?_)
                (Nat.lt_of_not_le hroom) hend)
              have hopen := hfinal hf
              rw [joinsOpen, hlive] at hopen
              simpa [hsc, hroom] using hopen

/-- `StreamCloseSend` sends nothing, or nothing is in flight. -/
def closesSpaced (s : State) (id : Nat) : Bool :=
  (live s id).all fun st => st.sendClosed || !st.outQueue.isEmpty || !st.outInflight

theorem streamCloseSendTask_moves (id : Nat) (hspaced : E.spaced → closesSpaced s id = true)
    (hend : ¬ E.ending) :
    Moves E (desk s fs) (desk (streamCloseSendTask s id) fs) := by
  unfold streamCloseSendTask
  split
  · exact .single (.closeParked id)
  · next st hlive =>
      obtain ⟨hst, hc⟩ := of_live hlive
      split
      · exact .refl
      · next hsc =>
        split
        · next hq =>
            have hq : st.outQueue = [] := by simpa using hq
            dsimp only
            split
            · refine .single (.closeSent hst hc hq (by simpa using hsc) fun hf => ?_)
              simpa [closesSpaced, hlive, hsc, hq] using hspaced hf
            · exact .single (.closeMarked hst hc hq)
        · next hq => exact .single (.closeQueued hst hc (by simpa using hq) hend)

/-- The condition on a task that starts a connect which fails at once. -/
def startsClear (s : State) (tcp : Option Status) (t : Task) : Bool :=
  match s.phase, tcp, t with
  | .idle, some _, .call .. => s.pendingStreams.isEmpty
  | .idle, some _, .openStream _ _ events _ => !events.onComplete
  | _, _, _ => true

theorem runTask_moves {tcp : Option Status} (htcp : ∀ st, tcp = some st → st.ok = false) {t : Task}
    (hp : s.posted = t :: ts)
    (hclear : E.clear → startsClear s tcp t = true)
    (hfinal : E.final → ∀ id framed cb close, t = .streamSend id framed cb close →
      joinsOpen s id = true)
    (hspaced : E.spaced → ∀ id, t = .streamCloseSend id → closesSpaced s id = true)
    (hend : ¬ E.ending) :
    let r := runTask { s with posted := ts } tcp t
    Moves E (desk s fs) (desk r.1 (r.2 ++ fs)) := by
  have hskip : t.plain = true → Move E (desk s fs) (desk { s with posted := ts } fs) :=
    fun h => .skip hp h
  cases t with
  | call id path framed timeoutMs call =>
      refine callTask_moves htcp hp fun hc ht hi => ?_
      obtain ⟨st, rfl⟩ := Option.isSome_iff_exists.mp ht
      simpa [startsClear, hi] using hclear hc
  | cancel id => exact .head (hskip rfl) (cancelTask_moves id)
  | openStream id path events timeoutMs =>
      refine openStreamTask_moves htcp hp fun hc ht hi => ?_
      obtain ⟨st, rfl⟩ := Option.isSome_iff_exists.mp ht
      simpa [startsClear, hi] using hclear hc
  | streamSend id framed cb close =>
      exact streamSendTask_moves hp (fun hf => hfinal hf id framed cb close rfl) hend
  | streamCloseSend id =>
      exact .head (hskip rfl) (streamCloseSendTask_moves id (fun hf => hspaced hf id rfl) hend)
  | pumpStream id => exact .head (hskip rfl) (pumpStream_moves id hend)

theorem issue_moves (e : Event)
    (hearly : ∀ id, E.early id → e = .cancel id → id < s.nextCallId)
    (hsent : ∀ id framed k close, e = .streamSend id framed (some k) close → E.sent id framed k)
    (hmute : E.mute → ∀ id framed cb close, e ≠ .streamSend id framed cb close) :
    Moves E (desk s fs) (desk (issue s e) fs) := by
  cases e with
  | call path framed timeoutMs => exact .single (.call path framed timeoutMs)
  | openStream path events timeoutMs => exact .single (.openStream path events timeoutMs)
  | streamSend id framed cb close =>
      refine .single (.streamSend id framed cb close (fun k hk => hsent id framed k close ?_)
        fun hm => hmute hm id framed cb close rfl)
      rw [hk]
  | cancel id =>
      refine .single (.post rfl fun id' he heq => ?_)
      cases heq
      exact hearly id he rfl
  | streamCloseSend id => exact .single (.post rfl fun _ _ heq => by cases heq)
  | setMaxReceiveSize n => exact .single (.limit n)
  | _ => exact .refl

end Functions

/-! ## Steps -/

/-- A connect that fails in this step fails with no stream parked. -/
def failsClear (c : Conf) : Label → Bool
  | .event (.connectFailed _) => c.st.pendingStreams.isEmpty
  | .event (.task tcp) => c.st.posted.head?.all (startsClear c.st tcp)
  | _ => true

/-- The live streams that this step terminates. -/
def ended (c : Conf) : Label → List Nat
  | .resume =>
      match c.frames with
      | .streamTimeoutRest id :: _ => [id]
      | _ => []
  | .event (.headers sid fields) =>
      if endsStream fields then (c.st.streamBySid sid).toList else []
  | .event (.data sid chunk) =>
      (c.st.streamBySid sid).toList.filter fun id => (live c.st id).any fun st => rejects st chunk
  | .event (.streamClose sid) =>
      (c.st.streamBySid sid).toList.filter fun id => (live c.st id).any fun st => !st.rstPending
  | .event (.timer t) =>
      match c.st.timers.lookup t with
      | some (.stream id _) =>
          if (live c.st id).any fun st => st.sid = 0 || !c.st.session then [id] else []
      | _ => []
  | .event .lost => List.range c.st.nextCallId
  | _ => []

/-- Every stream that this step terminates has no message in flight. -/
def calmEnd (c : Conf) (l : Label) : Bool :=
  (ended c l).all fun id => (live c.st id).all fun st => !st.outInflight

theorem calmEnd_iff {c : Conf} {l : Label} : calmEnd c l = true ↔
    ∀ id ∈ ended c l, ∀ st, live c.st id = some st → st.outInflight = false := by
  simp [calmEnd, Option.all_eq_true]

/-- A message that is accepted in this step joins a queue that no message closes. -/
def sendsOpen (c : Conf) : Label → Bool
  | .event (.task _) =>
      match c.st.posted with
      | .streamSend id .. :: _ => joinsOpen c.st id
      | _ => true
  | _ => true

/-- A half-close that is sent in this step finds no message in flight. -/
def halfClosesSpaced (c : Conf) : Label → Bool
  | .event (.task _) =>
      match c.st.posted with
      | .streamCloseSend id :: _ => closesSpaced c.st id
      | _ => true
  | _ => true

/-- A stream that this step ends well has no callback in its queue. -/
def honestEnd (c : Conf) : Label → Bool
  | .event (.headers sid fields) => endsHonestly c.st sid fields
  | _ => true

/-- Steps that can end a stream. -/
def mayEnd (c : Conf) : Label → Bool
  | .resume =>
      match c.frames with
      | .streamTimeoutRest _ :: _ => true
      | _ => false
  | .event (.headers ..) | .event (.data ..) | .event (.streamClose _) | .event (.timer _)
  | .event .lost => true
  | _ => false

/-- This step takes no leave that `E` does not give. -/
structure Env.Allows (E : Env) (c : Conf) (l : Label) : Prop where
  feed : ∀ sid chunk, l = .event (.data sid chunk) → E.feed sid chunk := by
    exact fun _ _ _ => trivial
  clear : E.clear → failsClear c l = true := by exact False.elim
  calm : E.calm → calmEnd c l = true := by exact False.elim
  final : E.final → sendsOpen c l = true := by exact False.elim
  spaced : E.spaced → halfClosesSpaced c l = true := by exact False.elim
  stern : E.stern → ∀ sid fields, l ≠ .event (.headers sid fields) := by exact False.elim
  honest : E.honest → honestEnd c l = true := by exact False.elim
  lasting : E.lasting → mayEnd c l = false := by exact False.elim
  ending : E.ending → mayEnd c l = true := by exact False.elim
  parking : E.parking → l = .resume → c.frames.head? ≠ some .startPendingStreams := by
    exact False.elim
  early : ∀ id, E.early id → l = .event (.cancel id) → id < c.st.nextCallId := by
    exact fun _ => False.elim
  sent : ∀ id framed k close, l = .event (.streamSend id framed (some k) close) →
    E.sent id framed k := by exact fun _ _ _ _ _ => trivial
  mute : E.mute → ∀ id framed cb close, l ≠ .event (.streamSend id framed cb close) := by
    exact False.elim

section Steps

open Desk Relation

variable {E : Env} {c d : Conf} {l : Label}

theorem exec_moves (f : Frame) (s : State) (fs : List Frame) (hready : s.phase = .ready)
    (hcalm : E.calm → ∀ id, f = .streamTimeoutRest id → ∀ st, live s id = some st →
      st.outInflight = false) (hlast : E.lasting → ∀ id, f ≠ .streamTimeoutRest id)
    (hend : E.ending → ∃ id, f = .streamTimeoutRest id)
    (hpark : E.parking → f ≠ .startPendingStreams) :
    Moves E (desk s (f :: fs)) (desk (exec f s).1 ((exec f s).2 ++ fs)) := by
  cases f with
  | callNowRest sid id call => exact .single (.callRegistered rfl)
  | openStreamRest sid ps decoder =>
      exact openStreamRest_moves sid ps decoder fun h => by simpa using hend h
  | startPending => exact startPending_moves hready
  | startPendingStreams => exact startPendingStreams_moves hready fun h => hpark h rfl
  | callTimeoutRest id => exact callTimeoutRest_moves id
  | streamTimeoutRest id =>
      exact streamTimeoutRest_moves id (fun h => hcalm h id rfl) fun h => hlast h id rfl
  | cancelRest id => exact cancelRest_moves id

/-- The moves of an event; `hbase`: the loop's own events start with an empty stack. -/
theorem fire_moves {e : Event} {s' : State} {gs : List Frame}
    (hbase : anytime e = false → c.frames = []) (hok : E.Allows c (.event e))
    (h : fire e c.st = some (s', gs)) :
    Moves E (desk c.st c.frames) (desk s' (gs ++ c.frames)) := by
  have hends := fun hc => calmEnd_iff.mp (hok.calm hc)
  have hlast : mayEnd c (.event e) = true → ¬ E.lasting := by
    intro hmay hl
    rw [hok.lasting hl] at hmay
    cases hmay
  have hend : mayEnd c (.event e) = false → ¬ E.ending := by
    intro hno he
    rw [hok.ending he] at hno
    cases hno
  cases e with
  | call path framed timeoutMs | cancel id | openStream path events timeoutMs
  | streamSend id framed cb close | streamCloseSend id | setMaxReceiveSize n =>
      cases h
      exact issue_moves _ (fun id he heq => hok.early id he (by rw [heq]))
        (fun id framed k close heq => hok.sent id framed k close (by rw [heq]))
        fun hm id framed cb close heq => hok.mute hm id framed cb close (by rw [heq])
  | refuse b =>
      cases h
      exact .refl
  | streamClose sid =>
      simp only [fire] at h
      split at h
      · cases h
        refine .head (.close sid)
          (onStreamClose_moves (s := c.st.setSender sid _) sid ?_ (hlast rfl))
        intro hc id st hid hst hr
        have hst : live c.st id = some st := hst
        have hid : c.st.streamBySid sid = some id := hid
        refine hends hc id ?_ st hst
        simp [ended, hid, hst, hr]
      · cases h
  | credit sid n =>
      simp only [fire] at h
      split at h
      · cases h
        exact .single (.credit sid n)
      · cases h
  | consumed sid =>
      simp only [fire] at h
      split at h
      · cases h
      · next n notes hn =>
          cases h
          exact onConsumed_moves hn (hend rfl)
  | task tcp =>
      simp only [fire] at h
      split at h
      · cases h
      · next t ts hp =>
          split at h
          · next htcp =>
            obtain ⟨rfl, rfl⟩ := Prod.mk.inj (Option.some.inj h)
            have htcp : ∀ st, tcp = some st → st.ok = false := by
              simpa [Option.all_eq_true] using htcp
            refine runTask_moves htcp hp (fun hc => ?_) (fun hf id framed cb close ht => ?_)
              (fun hf id ht => ?_) (hend rfl)
            · simpa [failsClear, hp] using hok.clear hc
            · simpa [sendsOpen, hp, ht] using hok.final hf
            · simpa [halfClosesSpaced, hp, ht] using hok.spaced hf
          · cases h
  | timer t =>
      simp only [fire] at h
      split at h
      · cases h
      · next id ms hl =>
          obtain ⟨rfl, rfl⟩ := Prod.mk.inj (Option.some.inj h)
          exact callTimeout_moves (s := c.st.cancelTimer t) id
      · next id ms hl =>
          obtain ⟨rfl, rfl⟩ := Prod.mk.inj (Option.some.inj h)
          refine streamTimeout_moves (s := c.st.cancelTimer t) id (fun hc st hst hno => ?_)
            (hlast rfl)
          have hst : live c.st id = some st := hst
          refine hends hc id ?_ st hst
          have hno : st.sid = 0 ∨ c.st.session = false := hno
          simpa [ended, hl, hst] using hno
  | connected =>
      simp only [fire] at h
      split at h
      · next hphase =>
          cases h
          rw [hbase rfl]
          exact .single (.connected hphase rfl)
      · cases h
  | connectFailed st =>
      simp only [fire] at h
      split at h
      · next hgo =>
          cases h
          obtain ⟨hphase, hst⟩ : c.st.phase = .connecting ∧ st.ok = false := by simpa using hgo
          exact connectFailed_moves hst hphase fun hc => by simpa [failsClear] using hok.clear hc
      · cases h
  | headers sid fields =>
      simp only [fire] at h
      split at h
      · cases h
        refine onHeadersComplete_moves sid fields (fun hc he id st hid hst => ?_)
          (fun hstern => hok.stern hstern sid fields rfl) hok.honest (hlast rfl)
        exact hends hc id (by simp [ended, he, hid]) st hst
      · cases h
  | data sid chunk =>
      simp only [fire] at h
      split at h
      · cases h
        refine onData_moves sid chunk (hok.feed sid chunk rfl) (fun hc id st hid hst hr => ?_)
          (hlast rfl)
        exact hends hc id (by simp [ended, hid, hst, hr]) st hst
      · cases h
  | lost =>
      simp only [fire] at h
      split at h
      · next hses =>
          cases h
          rw [hbase rfl]
          refine onConnectionLost_moves hses (fun hc id hid st hst hcomp => ?_) (hlast rfl)
          exact hends hc id (by simpa [ended] using hid) st (live_eq hst hcomp)
      · cases h

/-- **Each step is a chain of moves.** -/
theorem desk_step (hready : c.st.phase ≠ .ready → c.frames = [])
    (hok : E.Allows c l) (h : machine.step c l = some d) :
    Moves E (desk c.st c.frames) (desk d.st d.frames) := by
  cases l with
  | resume =>
      obtain ⟨f, fs, hfs, rfl⟩ := Resume.System.step_resume h
      have hphase : c.st.phase = .ready := by
        by_contra hne
        rw [hready hne] at hfs
        cases hfs
      rw [hfs]
      refine exec_moves f c.st fs hphase (fun hc id hf st hst => ?_) (fun hl id hf => ?_)
        (fun he => ?_) fun hp hf => hok.parking hp rfl (by rw [hfs, hf]; rfl)
      · refine calmEnd_iff.mp (hok.calm hc) id ?_ st hst
        simp [ended, hfs, hf]
      · have hmay := hok.lasting hl
        simp [mayEnd, hfs, hf] at hmay
      · have hmay := hok.ending he
        cases f <;> simp [mayEnd, hfs] at hmay ⊢
  | event e =>
      obtain ⟨hen, s', gs, hfire, rfl⟩ := Resume.System.step_event h
      exact fire_moves (fun hb => (Resume.System.enabled_base hb hen).1) hok hfire

/-- The loop runs the first task. -/
theorem step_task {tcp : Option Status} {t : Task} {ts : List Task}
    (h : machine.step c (.event (.task tcp)) = some d) (hp : c.st.posted = t :: ts) :
    c.frames = [] ∧ d = ⟨(runTask { c.st with posted := ts } tcp t).1,
      (runTask { c.st with posted := ts } tcp t).2⟩ := by
  obtain ⟨hen, s', gs, hfire, rfl⟩ := machine.step_event h
  obtain ⟨hframes, -⟩ := machine.enabled_base rfl hen
  change fire (.task tcp) c.st = some (s', gs) at hfire
  simp only [fire, hp] at hfire
  split at hfire
  · rw [hframes, List.append_nil, Option.some.inj hfire]
    exact ⟨rfl, rfl⟩
  · cases hfire

end Steps

end Urpc.Channel
