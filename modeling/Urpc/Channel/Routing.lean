/-
  Responses go to their own call.

  Every HTTP/2 stream belongs to the operation that submitted it, for good. So the two routing
  tables have no key in common, and their entries lead to the operation that they are about;
  what is received on a stream changes that operation and no other.

  A call that is being reset by its own timeout or cancel is marked as completed, and `by_stream`
  still leads to it until the session's flush is over.

  Proved: `responses_go_to_their_own_call`.
-/
import Urpc.Channel.Files

namespace Urpc.Channel

open Cxx

/-- The HTTP/2 stream `sid` is that of `op`, which is registered or about to be. -/
inductive HasStream (s : State) (fs : List Frame) : Op → Nat → Prop where
  | call {id : Nat} {call : Call} : s.calls id = some call → HasStream s fs (.call id) call.sid
  | stream {id : Nat} {st : Stream} : s.streams id = some st → HasStream s fs (.stream id) st.sid
  | opening {f : Frame} {sid t : Nat} {op : Op} : f ∈ fs → f.opens = some (sid, op, t) →
      HasStream s fs op sid

/-- The routing tables are right. -/
structure Routed (s : State) (fs : List Frame) : Prop where
  apart : ∀ sid, s.byStream sid = none ∨ s.streamBySid sid = none
  call : ∀ sid id, s.byStream sid = some id → ∃ call, s.calls id = some call ∧ call.sid = sid ∧
    (call.completed = true → .callTimeoutRest id ∈ fs ∨ .cancelRest id ∈ fs)
  stream : ∀ sid id, s.streamBySid sid = some id →
    ∃ st, s.streams id = some st ∧ st.sid = sid ∧ st.completed = false
  alone : ∀ op op' sid, HasStream s fs op sid → HasStream s fs op' sid → op = op'

/-- The two states differ in `op` only. -/
structure Confined (op : Op) (s s' : State) : Prop where
  calls : ∀ id, op ≠ .call id → s'.calls id = s.calls id
  streams : ∀ id, op ≠ .stream id → s'.streams id = s.streams id
  byStream : ∀ sid id, op ≠ .call id → (s'.byStream sid = some id ↔ s.byStream sid = some id)
  streamBySid : ∀ sid id, op ≠ .stream id →
    (s'.streamBySid sid = some id ↔ s.streamBySid sid = some id)
  timers : ∀ e : Nat × Alarm, e.2.op ≠ op → (e ∈ s'.timers ↔ e ∈ s.timers)
  log : ∃ os, s'.log = s.log ++ os ∧ ∀ o ∈ os, o.op = op
  pending : s'.pending = s.pending
  pendingStreams : s'.pendingStreams = s.pendingStreams
  posted : s'.posted = s.posted
  senders : s'.senders = s.senders

/-- A header block or DATA chunk on `sid`. -/
def Event.receivedOn (sid : Nat) : Event → Bool
  | .headers sid' _ | .data sid' _ => sid' = sid
  | _ => false

variable {tidy : Prop} {owner : Nat → Op} {s : State} {fs : List Frame}

/-! ## The tables -/

theorem HasStream.owned {op : Op} {sid : Nat} (hs : HasStream s fs op sid)
    (h : Filed tidy owner none s fs) : owner sid = op := by
  cases hs with
  | call hcall => exact (h.call _ _ hcall).owner
  | stream hst => exact (h.stream _ _ hst).owner
  | opening hf ho => exact (h.opening _ hf _ _ _ ho).owner

theorem Filed.routed (h : Filed tidy owner none s fs) (hm : (desk s fs).Marked) : Routed s fs where
  apart sid := by
    cases hroute : s.streamBySid sid with
    | none => exact .inr rfl
    | some id =>
        obtain ⟨st, hst, hsid, -⟩ := h.route sid id hroute
        exact .inl (h.noCall hst hsid)
  call sid id hby := by
    obtain ⟨call, hcall, hsid⟩ := h.byStream sid id hby
    refine ⟨call, hcall, hsid, fun hc => ?_⟩
    have hframe := hm id call hcall hc
    unfold Desk.ending at hframe
    split at hframe
    · exact .inl hframe
    · exact .inr hframe
  stream := h.route
  alone op op' sid hop hop' := (hop.owned h).symm.trans (hop'.owned h)

/-! ## What is received -/

theorem Confined.refl (op : Op) (s : State) : Confined op s s where
  calls _ _ := rfl
  streams _ _ := rfl
  byStream _ _ _ := Iff.rfl
  streamBySid _ _ _ := Iff.rfl
  timers _ _ := Iff.rfl
  log := ⟨[], (List.append_nil _).symm, by simp⟩
  pending := rfl
  pendingStreams := rfl
  posted := rfl
  senders := rfl

/-- A key that is erased is that of `id`. -/
theorem erase_route {table : Nat → Option Nat} {sid id id' : Nat} (hne : id ≠ id')
    (hown : ∀ i, table sid = some i → i = id) (sid' : Nat) :
    Function.update table sid none sid' = some id' ↔ table sid' = some id' := by
  rw [Function.update_apply]
  split
  · next heq =>
      subst heq
      exact ⟨nofun, fun hroute => absurd (hown id' hroute).symm hne⟩
  · exact Iff.rfl

/-- A timer that is cancelled is that of `op`. -/
theorem mem_cancelSet {op : Op} {t : Nat} (hkey : KeyOf s.nextTimer s.timers op t)
    {e : Nat × Alarm} (hne : e.2.op ≠ op) :
    e ∈ (if t ≠ 0 then s.cancelTimer t else s).timers ↔ e ∈ s.timers := by
  split
  · simp only [State.cancelTimer, List.mem_filter, bne_iff_ne, ne_eq, and_iff_left_iff_imp]
    rintro hmem rfl
    exact hne (hkey.own e.2 hmem)
  · exact Iff.rfl

theorem completeStream_confined {id : Nat} {st : Stream} (h : Filed tidy owner none s fs)
    (hst : s.streams id = some st) (decoder : FrameDecoder) (status : Status) :
    Confined (.stream id) s (completeStream s id { st with decoder } status) := by
  have hown := h.stream id st hst
  have hsid : st.sid ≠ 0 := Nat.pos_iff_ne_zero.mp hown.pos
  have htimers := @mem_cancelSet s (.stream id) st.timeoutTimer hown.key
  unfold completeStream
  dsimp only
  split
  · exact .refl _ _
  · generalize hs₁ : (if st.timeoutTimer ≠ 0 then s.cancelTimer st.timeoutTimer else s) = s₁
    rw [hs₁] at htimers
    have hrest : s₁ = { s with timers := s₁.timers } := by
      rw [← hs₁]
      split <;> rfl
    rw [hrest]
    refine { Confined.refl (.stream id) s with
      streams := fun id' hne =>
        Function.update_of_ne (fun heq => hne (congrArg Op.stream heq.symm)) ..
      streamBySid := fun sid' id' hne => ?_
      timers := fun e he => htimers he
      log := ⟨_, rfl, fun o ho => ?_⟩ }
    · exact erase_route (fun heq => hne (congrArg Op.stream heq)) (fun i => h.route_eq hst) sid'
    · rcases Desk.mem_tellFail ho with ⟨k, rfl⟩ | rfl <;> rfl

theorem complete_confined {id : Nat} {call : Call} (h : Filed tidy owner none s fs)
    (hcall : s.calls id = some call) (decoder : FrameDecoder) (status : Status)
    (payload : Bytes) :
    Confined (.call id) s (complete s id { call with decoder } status payload) := by
  have hown := h.call id call hcall
  have hsid : call.sid ≠ 0 := Nat.pos_iff_ne_zero.mp hown.pos
  have htimers := @mem_cancelSet s (.call id) call.timeoutTimer hown.key
  unfold complete
  dsimp only
  split
  · exact .refl _ _
  · generalize hs₁ : (if call.timeoutTimer ≠ 0 then s.cancelTimer call.timeoutTimer else s) = s₁
    rw [hs₁] at htimers
    have hrest : s₁ = { s with timers := s₁.timers } := by
      rw [← hs₁]
      split <;> rfl
    rw [hrest]
    refine { Confined.refl (.call id) s with
      calls := fun id' hne =>
        Function.update_of_ne (fun heq => hne (congrArg Op.call heq.symm)) ..
      byStream := fun sid' id' hne => ?_
      timers := fun e he => htimers he
      log := ⟨_, rfl, fun o ho => ?_⟩ }
    · exact erase_route (fun heq => hne (congrArg Op.call heq)) (fun i => h.byStream_eq hcall) sid'
    · split at ho
      · rw [List.mem_singleton.mp ho]
        rfl
      · cases ho

theorem onHeadersComplete_confined (h : Filed tidy owner none s fs) (sid : Nat)
    (headers : HeaderMap) : Confined (owner sid) s (onHeadersComplete s sid headers) := by
  unfold onHeadersComplete
  split
  · next id hid =>
      obtain ⟨st', hst', hsid, -⟩ := h.route sid id hid
      rw [hst']
      have hover := completeStream_confined h hst' st'.decoder
      rw [← hsid, (h.stream id st' hst').owner]
      dsimp only
      split
      · exact .refl _ _
      · split
        · exact hover _
        · split
          · exact hover _
          · exact .refl _ _
  · split
    · exact .refl _ _
    · next id hid =>
        obtain ⟨call, hcall, hsid⟩ := h.byStream sid id hid
        rw [hcall]
        have hover := complete_confined h hcall call.decoder
        rw [← hsid, (h.call id call hcall).owner]
        dsimp only
        split
        · exact hover _ _
        · split
          · exact hover _ _
          · exact .refl _ _

theorem onData_confined (h : Filed tidy owner none s fs) (sid : Nat) (chunk : Bytes) :
    Confined (owner sid) s (onData s sid chunk) := by
  unfold onData
  split
  · next id hid =>
      obtain ⟨st, hst, hsid, -⟩ := h.route sid id hid
      rw [hst, ← hsid, (h.stream id st hst).owner]
      dsimp only
      unfold onStreamData
      split
      · exact .refl _ _
      · dsimp only
        split
        · exact completeStream_confined h hst _ _
        · refine { Confined.refl (.stream id) s with
            streams := fun id' hne =>
              Function.update_of_ne (fun heq => hne (congrArg Op.stream heq.symm)) ..
            log := ⟨_, rfl, fun o ho => ?_⟩ }
          split at ho
          · obtain ⟨m, -, rfl⟩ := List.mem_map.mp ho
            rfl
          · cases ho
  · split
    · exact .refl _ _
    · next id hid =>
        obtain ⟨call, hcall, hsid⟩ := h.byStream sid id hid
        rw [hcall, ← hsid, (h.call id call hcall).owner]
        dsimp only
        unfold onCallData
        split
        · exact .refl _ _
        · dsimp only
          split
          · exact complete_confined h hcall _ _ _
          · exact { Confined.refl (.call id) s with
              calls := fun id' hne =>
                Function.update_of_ne (fun heq => hne (congrArg Op.call heq.symm)) .. }

theorem received_confined {c d : Conf} {e : Event} {sid : Nat}
    (h : Filed tidy owner none c.st c.frames) (he : e.receivedOn sid = true)
    (hstep : machine.step c (.event e) = some d) : Confined (owner sid) c.st d.st := by
  obtain ⟨-, s', gs, hfire, rfl⟩ := machine.step_event hstep
  change fire e c.st = some (s', gs) at hfire
  cases e with
  | headers sid' fields =>
      obtain rfl : sid' = sid := of_decide_eq_true he
      simp only [fire] at hfire
      split at hfire
      · cases hfire
        exact onHeadersComplete_confined h sid' fields
      · cases hfire
  | data sid' chunk =>
      obtain rfl : sid' = sid := of_decide_eq_true he
      simp only [fire] at hfire
      split at hfire
      · cases hfire
        exact onData_confined h sid' chunk
      · cases hfire
  | _ => cases he

/-- **Responses go to their own call.** In every state of every run of a channel the keys of
    `by_stream` and `stream_by_sid` are apart; an entry of `by_stream` leads to a call with that
    HTTP/2 stream, which is not completed unless its own timeout or cancel is resetting it; an
    entry of `stream_by_sid` leads to a stream with that HTTP/2 stream; no two operations share
    one. And each HTTP/2 stream has an owner, the operation that submitted it: whatever header
    block or DATA is received on it later, no other operation is changed, completed or told. -/
theorem responses_go_to_their_own_call (o : Options) (c : Conf)
    (h : machine.Reach anyStep (fresh o) c) :
    Routed c.st c.frames ∧ ∃ owner : Nat → Op,
      (∀ op sid, HasStream c.st c.frames op sid → owner sid = op) ∧
        ∀ d, machine.Reach anyStep c d → ∀ sid < c.st.nextSid, ∀ e d',
          e.receivedOn sid = true → machine.step d (.event e) = some d' →
            Confined (owner sid) d.st d'.st := by
  obtain ⟨owner, -, hc⟩ := reach_kept nofun (kept_fresh False (fun _ => .call 0) o) h
  refine ⟨hc.filed.routed hc.sound.books.marked, owner, fun op sid hs => hs.owned hc.filed, ?_⟩
  intro d hd sid hsid e d' he hstep
  obtain ⟨owner', hext, hkept⟩ := reach_kept nofun hc hd
  rw [← hext sid hsid]
  exact received_confined hkept.filed he hstep

/-- DATA on the HTTP/2 stream of a call, beside a stream. -/
theorem response_of_call :
    ∃ c d d', machine.Reach anyStep (fresh demo) c ∧ HasStream c.st c.frames (.call 1) 1 ∧
      machine.Reach anyStep c d ∧ (d.st.streams 2).isSome = true ∧
      machine.step d (.event (.data 1 [0, 0, 0, 0, 0])) = some d' ∧
      Confined (.call 1) d.st d'.st := by
  obtain ⟨c, hc, ⟨f, hf, ho⟩, hlt, d, hd, hst, d', hstep⟩ : ∃ c,
      machine.run anyStep (fresh demo) (callAndStream.take 6) = some c ∧
      (∃ f ∈ c.frames, f.opens = some (1, .call 1, 0)) ∧ 1 < c.st.nextSid ∧
      ∃ d, machine.run anyStep c (callAndStream.drop 6) = some d ∧
      (d.st.streams 2).isSome = true ∧
      ∃ d', machine.step d (.event (.data 1 [0, 0, 0, 0, 0])) = some d' :=
    ⟨_, rfl, ⟨_, List.mem_cons_self, rfl⟩, by decide, _, rfl, rfl, _, rfl⟩
  have hreach := machine.reach_of_run _ _ _ hc
  have hreach' := machine.reach_of_run _ _ _ hd
  have hhas : HasStream c.st c.frames (.call 1) 1 := .opening hf ho
  obtain ⟨-, owner, howner, hdata⟩ := responses_go_to_their_own_call demo c hreach
  refine ⟨c, d, d', hreach, hhas, hreach', hst, hstep, ?_⟩
  rw [← howner _ _ hhas]
  exact hdata d hreach' 1 hlt _ _ rfl hstep

/-- While the timeout of a call resets its HTTP/2 stream, `by_stream` leads to a call that is
    marked as completed. -/
theorem completed_call_routed :
    ∃ c, machine.Reach anyStep (fresh demo) c ∧ c.st.byStream 1 = some 1 ∧
      (c.st.calls 1).map Call.completed = some true := by
  obtain ⟨c, hc, hby, hcall⟩ : ∃ c, machine.run anyStep (fresh demo)
      [.event (.call (str "/a") [] 50), .event (.task none), .event .connected, .resume, .resume,
        .resume, .resume, .event (.timer 1)] = some c ∧ c.st.byStream 1 = some 1 ∧
      (c.st.calls 1).map Call.completed = some true := ⟨_, rfl, rfl, rfl⟩
  exact ⟨c, machine.reach_of_run _ _ _ hc, hby, hcall⟩

end Urpc.Channel
