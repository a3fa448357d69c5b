/-
  What the decoders of a channel have been fed.

  `hear` records the DATA of every HTTP/2 stream along a run. As long as a call or a stream is
  registered for an HTTP/2 stream and not over, its decoder is the one that the bytes heard there
  make (`Fed`), and the messages that its user was told are those that the decoder gave.

  All steps but DATA are treated move by move (`fed_move`); DATA is one function (`fed_data`).

  Proved: `hears_fed`.
-/
import Urpc.Channel.Coming
import Urpc.Channel.Terminal
import Urpc.Codec.RoundTrip

namespace Urpc.Channel

open Cxx FrameDecoder

/-- The DATA heard so far, with that of one more step. -/
def hear (r : Nat → Bytes) : Label → Nat → Bytes
  | .event (.data sid chunk) => Function.update r sid (r sid ++ chunk)
  | _ => r

/-- The payloads given to `on_message` of one stream. -/
def messagesOf (id : Nat) (log : List Obs) : List Bytes :=
  log.filterMap fun
    | .message id' _ msg => if id' = id then some msg else none
    | _ => none

@[simp] theorem messagesOf_append (id : Nat) (log os : List Obs) :
    messagesOf id (log ++ os) = messagesOf id log ++ messagesOf id os := List.filterMap_append

@[simp] theorem messagesOf_done (id id' : Nat) (st : Status) (payload : Bytes) :
    messagesOf id [.done id' st payload] = [] := rfl

@[simp] theorem messagesOf_tellFlushed (id id' : Nat) (cb : Option CbId) (st : Status) :
    messagesOf id (tellFlushed id' cb st) = [] := by
  cases cb <;> rfl

@[simp] theorem messagesOf_tellComplete (id id' : Nat) (events : StreamEvents) (st : Status) :
    messagesOf id (tellComplete id' events st) = [] := by
  unfold tellComplete
  split <;> rfl

@[simp] theorem messagesOf_failQueue (id id' : Nat) (queue : List OutMsg) (st : Status) :
    messagesOf id (failQueue id' queue st) = [] := by
  induction queue with
  | nil => rfl
  | cons m queue ih =>
      rw [failQueue, List.flatMap_cons, messagesOf_append, messagesOf_tellFlushed]
      exact ih

@[simp] theorem messagesOf_tellFail (id id' : Nat) (queue : List OutMsg) (events : StreamEvents)
    (st : Status) : messagesOf id (tellFail id' queue events st) = [] := by
  rw [tellFail, messagesOf_append, messagesOf_failQueue, messagesOf_tellComplete]
  rfl

theorem messagesOf_flatMap {α : Type} (id : Nat) (l : List α) (f : α → List Obs)
    (h : ∀ a, messagesOf id (f a) = []) : messagesOf id (l.flatMap f) = [] := by
  induction l with
  | nil => rfl
  | cons a l ih => rw [List.flatMap_cons, messagesOf_append, h, ih]; rfl

theorem messagesOf_message (id : Nat) (msgs : List Bytes) :
    messagesOf id (msgs.map (.message id .okay)) = msgs := by
  simp [messagesOf]

theorem messagesOf_message_ne {id id' : Nat} (hne : id' ≠ id) (msgs : List Bytes) :
    messagesOf id (msgs.map (.message id' .okay)) = [] := by
  simp [messagesOf, hne]

/-! ## Decoders on their way -/

def taskDecoder : Task → Option FrameDecoder
  | .call _ _ _ _ call => some call.decoder
  | _ => none

def frameDecoder : Frame → Option FrameDecoder
  | .callNowRest _ _ call => some call.decoder
  | .openStreamRest _ _ decoder => some decoder
  | _ => none

/-- The HTTP/2 stream of an operation that waits for its submission. -/
def frameSid : Frame → Option Nat
  | .callNowRest sid .. | .openStreamRest sid .. => some sid
  | _ => none

namespace Desk

variable {v v' : Desk} {E : Env} {r : Nat → Bytes}

def arrivals (v : Desk) : List FrameDecoder :=
  v.posted.filterMap taskDecoder ++ v.pending.map (fun pc => pc.call.decoder) ++
    v.todo.filterMap frameDecoder

def submitting (v : Desk) : List Nat := v.todo.filterMap frameSid

structure Fed (r : Nat → Bytes) (v : Desk) : Prop where
  call : ∀ sid id call, v.byStream sid = some id → v.calls id = some call →
    call.completed = false → call.sid = sid ∧ ∃ max, Decoded max (r sid) [] call.decoder
  stream : ∀ sid id st, v.routes sid = some id → v.streams id = some st →
    st.completed = false → st.sid = sid ∧ ∃ max taken, Decoded max (r sid) taken st.decoder ∧
      (st.events.onMessage = true → taken = messagesOf id v.log)
  apart : ∀ sid id, v.byStream sid = some id → v.routes sid = none
  routed : ∀ sid id, v.routes sid = some id ∨ v.byStream sid = some id → v.Arrived id
  silent : ∀ id, ¬ v.Arrived id → messagesOf id v.log = []
  arriving : ∀ d ∈ v.arrivals, ∃ max, d = .new max
  once : v.submitting.Nodup
  below : ∀ sid ∈ v.submitting, sid < v.nextSid
  unused : ∀ sid, v.nextSid ≤ sid ∨ sid ∈ v.submitting →
    r sid = [] ∧ v.routes sid = none ∧ v.byStream sid = none

/-- A move that registers nothing and feeds nothing. -/
structure Leaves (v v' : Desk) : Prop where
  calls : ∀ id call', v'.calls id = some call' → call'.completed = false →
    ∃ call, v.calls id = some call ∧ call.completed = false ∧ call'.sid = call.sid ∧
      call'.decoder = call.decoder := by exact fun _ c h hc => ⟨c, h, hc, rfl, rfl⟩
  streams : ∀ id st', v'.streams id = some st' → st'.completed = false →
    ∃ st, v.streams id = some st ∧ st.completed = false ∧ st'.sid = st.sid ∧
      st'.decoder = st.decoder ∧ st'.events = st.events := by
        exact fun _ st h hc => ⟨st, h, hc, rfl, rfl, rfl⟩
  byStream : ∀ sid id, v'.byStream sid = some id → v.byStream sid = some id := by
    exact fun _ _ h => h
  routes : ∀ sid id, v'.routes sid = some id → v.routes sid = some id := by exact fun _ _ h => h
  log : ∀ id, messagesOf id v'.log = messagesOf id v.log := by exact fun _ => rfl
  arrivals : ∀ d ∈ v'.arrivals, d ∈ v.arrivals ∨ ∃ max, d = .new max := by exact fun _ h => .inl h
  submitting : v'.submitting.Sublist v.submitting := by exact List.Sublist.refl _
  nextSid : v.nextSid ≤ v'.nextSid := by exact Nat.le_refl _

theorem Fed.keep (h : Fed r v) (hm : Move E v v') (hl : Leaves v v') : Fed r v' where
  call sid id call' hby hcall' hc' := by
    obtain ⟨call, hcall, hc, hsid, hdec⟩ := hl.calls id call' hcall' hc'
    rw [hsid, hdec]
    exact h.call sid id call (hl.byStream sid id hby) hcall hc
  stream sid id st' hr hst' hc' := by
    obtain ⟨st, hst, hc, hsid, hdec, hev⟩ := hl.streams id st' hst' hc'
    rw [hsid, hdec, hev, hl.log id]
    exact h.stream sid id st (hl.routes sid id hr) hst hc
  apart sid id hby := by
    have hnone := h.apart sid id (hl.byStream sid id hby)
    by_contra hsome
    obtain ⟨id', hid'⟩ := Option.ne_none_iff_exists'.mp hsome
    rw [hl.routes sid id' hid'] at hnone
    cases hnone
  routed sid id hr :=
    arrived_move hm (h.routed sid id (hr.imp (hl.routes sid id) (hl.byStream sid id)))
  silent id hid := (hl.log id).trans (h.silent id fun ha => hid (arrived_move hm ha))
  arriving d hd := (hl.arrivals d hd).elim (h.arriving d) id
  once := h.once.sublist hl.submitting
  below sid hsid := Nat.lt_of_lt_of_le (h.below sid (hl.submitting.subset hsid)) hl.nextSid
  unused sid hsid := by
    obtain ⟨hr, hroute, hby⟩ := h.unused sid
      (hsid.imp (Nat.le_trans hl.nextSid) fun hs => hl.submitting.subset hs)
    refine ⟨hr, ?_, ?_⟩
    · by_contra hsome
      obtain ⟨id, hid⟩ := Option.ne_none_iff_exists'.mp hsome
      rw [hl.routes sid id hid] at hroute
      cases hroute
    · by_contra hsome
      obtain ⟨id, hid⟩ := Option.ne_none_iff_exists'.mp hsome
      rw [hl.byStream sid id hid] at hby
      cases hby

/-! ## Moves that register -/

/-- An operation is submitted: its HTTP/2 stream is new. -/
theorem Fed.submitted (h : Fed r v) (hm : Move E v v') (f : Frame)
    (hf : frameSid f = some v.nextSid) (htodo : v'.todo = f :: v.todo)
    (hnext : v'.nextSid = v.nextSid + 2) (hcalls : v'.calls = v.calls)
    (hstreams : v'.streams = v.streams) (hby : v'.byStream = v.byStream)
    (hroutes : v'.routes = v.routes) (hlog : v'.log = v.log)
    (harr : ∀ d ∈ v'.arrivals, d ∈ v.arrivals ∨ ∃ max, d = .new max) : Fed r v' := by
  have hsub : v'.submitting = v.nextSid :: v.submitting := by
    simp [submitting, htodo, hf]
  -- the same desk as far as `Fed` goes, but for the frame
  refine ⟨?_, ?_, ?_, ?_, ?_, fun d hd => (harr d hd).elim (h.arriving d) id, ?_, ?_, ?_⟩
  · rw [hby, hcalls]
    exact h.call
  · rw [hroutes, hstreams, hlog]
    exact h.stream
  · rw [hby, hroutes]
    exact h.apart
  · rw [hby, hroutes]
    exact fun sid id hr => arrived_move hm (h.routed sid id hr)
  · rw [hlog]
    exact fun id hid => h.silent id fun ha => hid (arrived_move hm ha)
  · rw [hsub]
    exact List.nodup_cons.mpr ⟨fun hmem => Nat.lt_irrefl _ (h.below _ hmem), h.once⟩
  · rw [hsub, hnext]
    intro sid hsid
    rcases List.mem_cons.mp hsid with rfl | hsid
    · omega
    · have := h.below sid hsid
      omega
  · rw [hsub, hnext, hby, hroutes]
    intro sid hsid
    refine h.unused sid ?_
    rcases hsid with hsid | hsid
    · exact .inl (by omega)
    · rcases List.mem_cons.mp hsid with rfl | hsid
      · exact .inl (Nat.le_refl _)
      · exact .inr hsid

/-- The frame on top of the stack is about to register `id` for `sid`. -/
structure Registers (v : Desk) (sid id : Nat) (fs : List Frame) : Prop where
  top : ∃ f, v.todo = f :: fs ∧ frameSid f = some sid ∧ f.brings id = true

theorem Registers.submitting {sid id : Nat} {fs : List Frame} (hr : Registers v sid id fs) :
    v.submitting = sid :: fs.filterMap frameSid := by
  obtain ⟨f, htodo, hf, -⟩ := hr.top
  simp [Desk.submitting, htodo, hf]

/-- It is the only place where the operation comes from. -/
theorem Registers.coming {sid id : Nat} {fs : List Frame} (hr : Registers v sid id fs)
    (hn : Numbered v) (hposted : v'.posted = v.posted) (hpending : v'.pending = v.pending)
    (hparked : v'.parked = v.parked) (htodo : v'.todo = fs) :
    id < v.nextCallId ∧ v'.coming id = 0 := by
  obtain ⟨f, hf, -, hb⟩ := hr.top
  exact hn.brought hf hb hposted hpending hparked htodo

/-- Neither the HTTP/2 stream nor the operation is registered yet. -/
theorem Registers.free {sid id : Nat} {fs : List Frame} (hr : Registers v sid id fs) (h : Fed r v) :
    (r sid = [] ∧ v.routes sid = none ∧ v.byStream sid = none) ∧
      ∀ sid', v.routes sid' ≠ some id ∧ v.byStream sid' ≠ some id := by
  refine ⟨h.unused sid (.inr (by simp [hr.submitting])), ?_⟩
  obtain ⟨f, hf, -, hb⟩ := hr.top
  have hpos : v.coming id ≠ 0 := by
    simp only [Desk.coming, hf, List.countP_cons, hb, if_true]
    omega
  exact fun sid' => ⟨fun hs => hpos (h.routed sid' id (.inl hs)).2,
    fun hs => hpos (h.routed sid' id (.inr hs)).2⟩

theorem Fed.registered {sid id : Nat} {fs : List Frame} (hn : Numbered v) (h : Fed r v)
    (hr : Registers v sid id fs) (hm : Move E v v') (hposted : v'.posted = v.posted)
    (hpending : v'.pending = v.pending) (hparked : v'.parked = v.parked) (htodo : v'.todo = fs)
    (hlog : v'.log = v.log) (hsid : v'.nextSid = v.nextSid)
    (hlines : ∀ sid' id', v'.routes sid' = some id' ∨ v'.byStream sid' = some id' →
      sid' = sid ∧ id' = id ∨ v.routes sid' = some id' ∨ v.byStream sid' = some id')
    (hcall : ∀ sid id call, v'.byStream sid = some id → v'.calls id = some call →
      call.completed = false → call.sid = sid ∧ ∃ max, Decoded max (r sid) [] call.decoder)
    (hstream : ∀ sid id st, v'.routes sid = some id → v'.streams id = some st →
      st.completed = false → st.sid = sid ∧ ∃ max taken, Decoded max (r sid) taken st.decoder ∧
        (st.events.onMessage = true → taken = messagesOf id v'.log))
    (hapart : ∀ sid id, v'.byStream sid = some id → v'.routes sid = none) : Fed r v' := by
  have hsub := hr.submitting
  have hsub' : v'.submitting = fs.filterMap frameSid := by rw [submitting, htodo]
  obtain ⟨hnot, hnodup⟩ := List.nodup_cons.mp (hsub ▸ h.once)
  refine ⟨hcall, hstream, hapart, ?_, ?_, ?_, hsub' ▸ hnodup, ?_, ?_⟩
  · intro sid' id' hs
    rcases hlines sid' id' hs with ⟨-, rfl⟩ | hs
    · obtain ⟨hlt, hzero⟩ := hr.coming hn hposted hpending hparked htodo
      exact ⟨Nat.lt_of_lt_of_le hlt (nextCallId_move hm), hzero⟩
    · exact arrived_move hm (h.routed sid' id' hs)
  · rw [hlog]
    exact fun id' hid' => h.silent id' fun ha => hid' (arrived_move hm ha)
  · intro d hd
    refine h.arriving d ?_
    obtain ⟨f, hf, -, -⟩ := hr.top
    simp only [arrivals, hposted, hpending, htodo, hf, List.mem_append, List.filterMap_cons]
      at hd ⊢
    refine hd.imp_right fun hd => ?_
    split
    · exact hd
    · exact List.mem_cons_of_mem _ hd
  · rw [hsub', hsid]
    exact fun sid' hs => h.below sid' (hsub ▸ List.mem_cons_of_mem _ hs)
  · rw [hsub', hsid]
    intro sid' hs
    have hne : sid' ≠ sid := by
      rintro rfl
      rcases hs with hge | hmem
      · have := h.below sid' (hsub ▸ List.mem_cons_self)
        omega
      · exact hnot hmem
    obtain ⟨h1, h2, h3⟩ := h.unused sid' (hs.imp_right fun hs => hsub ▸ List.mem_cons_of_mem _ hs)
    have hnone : ∀ id', ¬ (v'.routes sid' = some id' ∨ v'.byStream sid' = some id') := by
      intro id' hs'
      rcases hlines sid' id' hs' with ⟨rfl, -⟩ | hs' | hs'
      · exact hne rfl
      · rw [h2] at hs'
        cases hs'
      · rw [h3] at hs'
        cases hs'
    exact ⟨h1, Option.eq_none_iff_forall_ne_some.mpr fun id' hs' => hnone id' (.inl hs'),
      Option.eq_none_iff_forall_ne_some.mpr fun id' hs' => hnone id' (.inr hs')⟩

theorem Fed.callRegistered {sid id : Nat} {call : NewCall} {fs : List Frame} (hn : Numbered v)
    (h : Fed r v) (htodo : v.todo = .callNowRest sid id call :: fs)
    (hm : Move E v ({ v with
      todo := fs
      byStream := Function.update v.byStream sid (some id) }.setCall id { call with sid })) :
    Fed r ({ v with
      todo := fs
      byStream := Function.update v.byStream sid (some id) }.setCall id { call with sid }) := by
  have hr : Registers v sid id fs := ⟨_, htodo, rfl, by simp [Frame.brings]⟩
  obtain ⟨⟨hempty, hroute, hby⟩, hfree⟩ := hr.free h
  refine h.registered hn hr hm rfl rfl rfl rfl rfl rfl ?_ ?_ h.stream ?_
  · intro sid' id' hs
    simp only [setCall, Function.update_apply] at hs
    rcases hs with hs | hs
    · exact .inr (.inl hs)
    · split at hs
      · next heq => exact .inl ⟨heq, (Option.some.inj hs).symm⟩
      · exact .inr (.inr hs)
  · intro sid' id' call' hby' hcall' hc'
    simp only [setCall, Function.update_apply] at hby' hcall'
    split at hby'
    · next heq =>
        cases hby'
        rw [if_pos rfl] at hcall'
        cases hcall'
        obtain ⟨max, hmax⟩ := h.arriving call.decoder (by simp [arrivals, htodo, frameDecoder])
        rw [heq, hempty, hmax]
        exact ⟨rfl, max, decoded_new max⟩
    · have hne : id' ≠ id := by
        rintro rfl
        exact (hfree sid').2 hby'
      rw [if_neg hne] at hcall'
      exact h.call sid' id' call' hby' hcall' hc'
  · intro sid' id' hby'
    simp only [setCall, Function.update_apply] at hby'
    split at hby'
    · next heq => exact heq ▸ hroute
    · exact h.apart sid' id' hby'

theorem Fed.streamRegistered {sid : Nat} {ps : PendingStream} {decoder : FrameDecoder} {timer : Nat}
    {fs : List Frame} (hn : Numbered v) (h : Fed r v)
    (htodo : v.todo = .openStreamRest sid ps decoder :: fs)
    (hm : Move E v ({ v with
      todo := fs, routes := Function.update v.routes sid (some ps.id) }.setStream
        ps.id (ps.toStream sid decoder timer))) :
    Fed r ({ v with
      todo := fs, routes := Function.update v.routes sid (some ps.id) }.setStream
        ps.id (ps.toStream sid decoder timer)) := by
  have hr : Registers v sid ps.id fs := ⟨_, htodo, rfl, by simp [Frame.brings]⟩
  obtain ⟨⟨hempty, hroute, hby⟩, hfree⟩ := hr.free h
  refine h.registered hn hr hm rfl rfl rfl rfl rfl rfl ?_ h.call ?_ ?_
  · intro sid' id' hs
    simp only [setStream, Function.update_apply] at hs
    rcases hs with hs | hs
    · split at hs
      · next heq => exact .inl ⟨heq, (Option.some.inj hs).symm⟩
      · exact .inr (.inl hs)
    · exact .inr (.inr hs)
  · intro sid' id' st' hr' hst' hc'
    simp only [setStream, Function.update_apply] at hr' hst'
    split at hr'
    · next heq =>
        cases hr'
        rw [if_pos rfl] at hst'
        cases hst'
        obtain ⟨max, rfl⟩ := h.arriving decoder (by simp [arrivals, htodo, frameDecoder])
        have hcoming : ¬ v.Arrived ps.id := by
          rintro ⟨-, hzero⟩
          simp only [coming, htodo, List.countP_cons, Frame.brings, decide_true, if_true] at hzero
          omega
        rw [heq, hempty]
        exact ⟨rfl, max, [], decoded_new max, fun _ => (h.silent ps.id hcoming).symm⟩
    · have hne : id' ≠ ps.id := by
        rintro rfl
        exact (hfree sid').1 hr'
      rw [if_neg hne] at hst'
      exact h.stream sid' id' st' hr' hst' hc'
  · intro sid' id' hby'
    have hby' : v.byStream sid' = some id' := hby'
    simp only [setStream, Function.update_apply]
    split
    · next heq =>
        rw [heq, hby] at hby'
        cases hby'
    · exact h.apart sid' id' hby'

/-! ## All moves but DATA -/

theorem NextCall.arrivals {id : Nat} {call : NewCall} (h : NextCall v id call v') :
    call.decoder ∈ v.arrivals ∧ ∀ d ∈ v'.arrivals, d ∈ v.arrivals := by
  cases h with
  | posted timer hp =>
      refine ⟨by simp [Desk.arrivals, hp, taskDecoder], fun d hd => ?_⟩
      simp only [Desk.arrivals, hp, List.filterMap_cons, taskDecoder, List.mem_append,
        List.mem_cons] at hd ⊢
      exact hd.imp_left fun hd => hd.imp_left .inr
  | pending hp =>
      refine ⟨by simp [Desk.arrivals, hp], fun d hd => ?_⟩
      simp only [Desk.arrivals, hp, List.map_cons, List.mem_append, List.mem_cons] at hd ⊢
      exact hd.imp_left fun hd => hd.imp_right .inr

theorem NextStream.arrivals {ps : PendingStream} (h : NextStream v ps v') :
    ∀ d ∈ v'.arrivals, d ∈ v.arrivals := by
  cases h with
  | posted hp hq =>
      intro d hd
      simpa [Desk.arrivals, hp, taskDecoder] using hd
  | parked hp => exact fun d hd => hd

/-- Fewer frames wait. -/
theorem arrivals_pop {f : Frame} {fs : List Frame} (htodo : v.todo = f :: fs) {d : FrameDecoder}
    (hd : d ∈ ({ v with todo := fs } : Desk).arrivals) : d ∈ v.arrivals := by
  simp only [arrivals, htodo, List.mem_append, List.filterMap_cons] at hd ⊢
  refine hd.imp_right fun hd => ?_
  split
  · exact hd
  · exact List.mem_cons_of_mem _ hd

/-- One frame more waits. -/
theorem arrivals_push {f : Frame} {d : FrameDecoder}
    (hd : d ∈ ({ v with todo := f :: v.todo } : Desk).arrivals) :
    d ∈ v.arrivals ∨ frameDecoder f = some d := by
  simp only [arrivals, List.mem_append, List.filterMap_cons] at hd ⊢
  rcases hd with hd | hd
  · exact .inl (.inl hd)
  · split at hd
    · exact .inl (.inr hd)
    · next d' hd' =>
        rcases List.mem_cons.mp hd with rfl | hd
        · exact .inr hd'
        · exact .inl (.inr hd)

theorem submitting_pop {f : Frame} {fs : List Frame} (htodo : v.todo = f :: fs) :
    (fs.filterMap frameSid).Sublist v.submitting := by
  rw [submitting, htodo]
  exact (List.sublist_cons_self f fs).filterMap _

/-- Fewer tasks wait. -/
theorem arrivals_run {t : Task} {ts : List Task} (hp : v.posted = t :: ts) {d : FrameDecoder}
    (hd : d ∈ ({ v with posted := ts } : Desk).arrivals) : d ∈ v.arrivals := by
  simp only [arrivals, hp, List.mem_append, List.filterMap_cons] at hd ⊢
  refine hd.imp_left fun hd => hd.imp_left fun hd => ?_
  split
  · exact hd
  · exact List.mem_cons_of_mem _ hd

/-- A task that carries no decoder is posted. -/
theorem arrivals_post {t : Task} (ht : taskDecoder t = none) {d : FrameDecoder}
    (hd : d ∈ ({ v with posted := v.posted ++ [t] } : Desk).arrivals) : d ∈ v.arrivals := by
  simpa [arrivals, ht] using hd

theorem plain_decoder {t : Task} (ht : t.plain = true) : taskDecoder t = none := by
  cases t <;> first | rfl | cases ht

/-- A stream that only sends, or is over. -/
theorem streams_set {id : Nat} {st st' : Stream} (hst : v.streams id = some st)
    (h : st'.completed = false → st.completed = false ∧ st'.sid = st.sid ∧
      st'.decoder = st.decoder ∧ st'.events = st.events) :
    ∀ id' s', Function.update v.streams id (some st') id' = some s' → s'.completed = false →
      ∃ s, v.streams id' = some s ∧ s.completed = false ∧ s'.sid = s.sid ∧
        s'.decoder = s.decoder ∧ s'.events = s.events := by
  intro id' s' hs' hc'
  rw [Function.update_apply] at hs'
  split at hs'
  · next heq =>
      cases hs'
      exact ⟨st, heq ▸ hst, h hc'⟩
  · exact ⟨s', hs', hc', rfl, rfl, rfl⟩

theorem calls_erase (id : Nat) : ∀ id' c', Function.update v.calls id none id' = some c' →
    c'.completed = false → ∃ c, v.calls id' = some c ∧ c.completed = false ∧ c'.sid = c.sid ∧
      c'.decoder = c.decoder := by
  intro id' c' hc' hd'
  rw [Function.update_apply] at hc'
  split at hc'
  · cases hc'
  · exact ⟨c', hc', hd', rfl, rfl⟩

theorem calls_over {id : Nat} {call : Call} (hcall : call.completed = true) :
    ∀ id' c', Function.update v.calls id (some call) id' = some c' →
      c'.completed = false → ∃ c, v.calls id' = some c ∧ c.completed = false ∧ c'.sid = c.sid ∧
        c'.decoder = c.decoder := by
  intro id' c' hc' hd'
  rw [Function.update_apply] at hc'
  split at hc'
  · cases hc'
    rw [hcall] at hd'
    cases hd'
  · exact ⟨c', hc', hd', rfl, rfl⟩

theorem lines_erase {table : Nat → Option Nat} (sid : Nat) :
    ∀ sid' id, Function.update table sid none sid' = some id → table sid' = some id := by
  intro sid' id h
  rw [Function.update_apply] at h
  split at h
  · cases h
  · exact h

theorem messagesOf_note (v : Desk) {os : List Obs} (h : ∀ id, messagesOf id os = []) (id : Nat) :
    messagesOf id (v.log ++ os) = messagesOf id v.log := by
  rw [messagesOf_append, h, List.append_nil]

theorem messagesOf_lose (v : Desk) (id : Nat) : messagesOf id v.lose.log = messagesOf id v.log := by
  have hstreams : ∀ l, messagesOf id (lostStreams l) = [] := fun l =>
    messagesOf_flatMap id l _ fun e => by
      dsimp only
      split
      · rfl
      · exact messagesOf_tellFail id _ _ _ _
  have hparked : ∀ l, messagesOf id (lostParked l) = [] := fun l =>
    messagesOf_flatMap id l _ fun e => by simp
  have hcalls : ∀ l, messagesOf id (lostCalls l) = [] := fun l =>
    messagesOf_flatMap id l _ fun e => by
      dsimp only
      split
      · rfl
      · split <;> rfl
  simp [lose, hstreams, hparked, hcalls]

theorem fed_move (hfeed : ∀ sid chunk, ¬ E.feed sid chunk) (hn : Numbered v) (h : Fed r v)
    (hm : Move E v v') : Fed r v' := by
  have hrule := hm
  cases hrule with
  | limit | credit | close | reset | connect | connectFailed | closeParked => exact h.keep hm {}
  | call path framed timeoutMs =>
      refine h.keep hm { arrivals := fun d hd => ?_ }
      simp only [arrivals, List.filterMap_append, List.filterMap_cons, List.filterMap_nil,
        taskDecoder, List.mem_append, List.mem_singleton] at hd ⊢
      rcases hd with ((hd | hd) | hd) | hd
      · exact .inl (.inl (.inl hd))
      · exact .inr ⟨_, hd⟩
      · exact .inl (.inl (.inr hd))
      · exact .inl (.inr hd)
  | openStream | streamSend =>
      exact h.keep hm { arrivals := fun d hd => .inl (arrivals_post rfl hd) }
  | post ht =>
      exact h.keep hm { arrivals := fun d hd => .inl (arrivals_post (plain_decoder ht) hd) }
  | unrouted sid => exact h.keep hm { routes := lines_erase sid }
  | unregistered sid => exact h.keep hm { byStream := lines_erase sid }
  | consumed hnotes hst =>
      exact h.keep hm {
        streams := streams_set hst fun hc => ⟨hc, rfl, rfl, rfl⟩
        log := messagesOf_note v fun id => messagesOf_tellFlushed id _ _ _
        arrivals := fun d hd => .inl (arrivals_post rfl hd) }
  | consumedLate =>
      exact h.keep hm { log := messagesOf_note v fun id => messagesOf_tellFlushed id _ _ _ }
  | connected hphase htodo =>
      refine h.keep hm { arrivals := fun d hd => .inl ?_, submitting := List.nil_sublist _ }
      simpa [arrivals, htodo, frameDecoder] using hd
  | started htodo | startedStreams htodo | callGone htodo | streamGone htodo =>
      exact h.keep hm {
        arrivals := fun d hd => .inl (arrivals_pop htodo hd), submitting := submitting_pop htodo }
  | lost =>
      exact h.keep hm { calls := by simp [lose], streams := by simp [lose],
                        byStream := by simp [lose], routes := by simp [lose],
                        log := messagesOf_lose v }
  | skip hp => exact h.keep hm { arrivals := fun d hd => .inl (arrivals_run hp hd) }
  | callParked timer hp =>
      refine h.keep hm { arrivals := fun d hd => .inl ?_ }
      simp only [arrivals, hp, List.filterMap_cons, taskDecoder, List.map_append, List.map_cons,
        List.map_nil, List.mem_append, List.mem_cons, List.not_mem_nil, or_false] at hd ⊢
      tauto
  | callSubmitted fields body hnext =>
      obtain ⟨hmem, harr⟩ := hnext.arrivals
      cases hnext with
      | posted | pending =>
          refine h.submitted hm _ rfl rfl rfl rfl rfl rfl rfl rfl fun d hd => .inl ?_
          rcases arrivals_push hd with hd | hd
          · exact harr d hd
          · cases hd
            exact hmem
  | callFailed status hnext =>
      cases hnext with
      | posted timer hp =>
          exact h.keep hm {
            calls := calls_erase _
            log := messagesOf_note v fun id => messagesOf_done id _ _ _
            arrivals := fun d hd => .inl (arrivals_run hp hd) }
      | pending hp =>
          refine h.keep hm {
            calls := calls_erase _
            log := messagesOf_note v fun id => messagesOf_done id _ _ _
            arrivals := fun d hd => .inl ((NextCall.pending hp).arrivals.2 d hd) }
  | callRegistered htodo => exact h.callRegistered hn htodo hm
  | callOver status payload hcall hc =>
      refine h.keep hm {
        calls := calls_erase _
        byStream := fun sid id hs => ?_
        log := messagesOf_note v fun id => messagesOf_done id _ _ _ }
      simp only [note] at hs
      split at hs
      · exact lines_erase _ sid id hs
      · exact hs
  | callFed decoder hf => exact absurd hf (hfeed _ _)
  | callTimeout hcall hc => exact h.keep hm { calls := calls_over rfl }
  | callTimedOut htodo hcall =>
      refine h.keep hm {
        calls := calls_erase _
        log := messagesOf_note v fun id => by split <;> rfl
        arrivals := fun d hd => .inl (arrivals_pop htodo hd)
        submitting := submitting_pop htodo }
  | cancel hcall hc => exact h.keep hm { calls := calls_over rfl }
  | cancelled htodo =>
      exact h.keep hm {
        calls := calls_erase _
        log := messagesOf_note v fun id => messagesOf_done id _ _ _
        arrivals := fun d hd => .inl (arrivals_pop htodo hd)
        submitting := submitting_pop htodo }
  | streamParked hp => exact h.keep hm { arrivals := fun d hd => .inl (arrivals_run hp hd) }
  | streamOpened hnext =>
      have harr := hnext.arrivals
      cases hnext with
      | posted | parked =>
          refine h.submitted hm _ rfl rfl rfl rfl rfl rfl rfl rfl fun d hd => ?_
          rcases arrivals_push hd with hd | hd
          · exact .inl (harr d hd)
          · exact .inr ⟨_, (Option.some.inj hd).symm⟩
  | streamFailed status hnext =>
      cases hnext with
      | posted hp =>
          exact h.keep hm {
            log := messagesOf_note v fun id => messagesOf_tellFail id _ _ _ _
            arrivals := fun d hd => .inl (arrivals_run hp hd) }
      | parked hp =>
          exact h.keep hm { log := messagesOf_note v fun id => messagesOf_tellFail id _ _ _ _ }
  | streamRegistered timer htodo => exact h.streamRegistered hn htodo hm
  | streamFed hf => exact absurd hf (hfeed _ _)
  | streamOver decoder status hst hc =>
      refine h.keep hm {
        streams := streams_set hst (by simp)
        routes := fun sid id hs => ?_
        log := messagesOf_note v fun id => messagesOf_tellFail id _ _ _ _ }
      simp only [note] at hs
      split at hs
      · exact lines_erase _ sid id hs
      · exact hs
  | streamTimeout hst hc =>
      exact h.keep hm { streams := streams_set hst fun hc => ⟨hc, rfl, rfl, rfl⟩ }
  | streamErased htodo hst =>
      refine h.keep hm {
        streams := fun id st hs hc => ?_
        arrivals := fun d hd => .inl (arrivals_pop htodo hd)
        submitting := submitting_pop htodo }
      simp only [Function.update_apply] at hs
      split at hs
      · cases hs
      · exact ⟨st, hs, hc, rfl, rfl, rfl⟩
  | sendParked hp => exact h.keep hm { arrivals := fun d hd => .inl (arrivals_run hp hd) }
  | sendQueued hp hst =>
      exact h.keep hm {
        streams := streams_set hst fun hc => ⟨hc, rfl, rfl, rfl⟩
        arrivals := fun d hd => .inl (arrivals_run hp hd) }
  | sendRefused status hp =>
      exact h.keep hm {
        log := messagesOf_note v fun id => messagesOf_tellFlushed id _ _ _
        arrivals := fun d hd => .inl (arrivals_run hp hd) }
  | closeQueued hst | closeMarked hst | closeSent hst | pumped hst =>
      exact h.keep hm { streams := streams_set hst fun hc => ⟨hc, rfl, rfl, rfl⟩ }

/-! ## DATA -/

/-- DATA for an HTTP/2 stream that nobody listens to. -/
theorem Fed.dropped {sid : Nat} (b : Bytes) (h : Fed r v) (htodo : v.todo = [])
    (hsid : sid < v.nextSid)
    (hs : ∀ id st, v.routes sid = some id → v.streams id = some st → st.completed = true)
    (hc : ∀ id call, v.byStream sid = some id → v.calls id = some call → call.completed = true) :
    Fed (Function.update r sid b) v := by
  refine ⟨?_, ?_, h.apart, h.routed, h.silent, h.arriving, h.once, h.below, ?_⟩
  · intro sid' id call hby hcall hlive
    have hne : sid' ≠ sid := by
      rintro rfl
      rw [hc id call hby hcall] at hlive
      cases hlive
    rw [Function.update_of_ne hne]
    exact h.call sid' id call hby hcall hlive
  · intro sid' id st hr hst hlive
    have hne : sid' ≠ sid := by
      rintro rfl
      rw [hs id st hr hst] at hlive
      cases hlive
    rw [Function.update_of_ne hne]
    exact h.stream sid' id st hr hst hlive
  · intro sid' hsid'
    have hge : v.nextSid ≤ sid' := hsid'.resolve_right (by simp [submitting, htodo])
    rw [Function.update_of_ne (by omega)]
    exact h.unused sid' (.inl hge)

/-- A decoder whose messages have all been taken. -/
theorem decoded_takeMessages {max : Nat} {w : Bytes} {taken : List Bytes} {d : FrameDecoder}
    (h : Decoded max w taken d) : Decoded max w (taken ++ d.messages) (takeMessages d).2 := by
  refine ⟨h.ok, ?_, ?_⟩
  · rw [← h.state]
    simp [untake, takeMessages]
  · simp [takeMessages, h.count]

/-- DATA for a live stream. -/
theorem Fed.streamFed {sid id : Nat} {st : Stream} {chunk : Bytes} (h : Fed r v)
    (htodo : v.todo = []) (hsid : sid < v.nextSid) (hr : v.routes sid = some id)
    (hst : v.streams id = some st) (hlive : st.completed = false)
    (hok : (st.decoder.consume chunk).1.ok = true) :
    Fed (Function.update r sid (r sid ++ chunk)) ((v.setStream id
        { st with decoder := (takeMessages (st.decoder.consume chunk).2).2 }).note
      (if st.events.onMessage then
        (takeMessages (st.decoder.consume chunk).2).1.map (.message id .okay) else [])) := by
  obtain ⟨hsame, max, taken, hdec, htaken⟩ := h.stream sid id st hr hst hlive
  have hother : ∀ id', id' ≠ id → messagesOf id' (if st.events.onMessage then
      (takeMessages (st.decoder.consume chunk).2).1.map (.message id .okay) else []) = [] := by
    intro id' hne
    split
    · exact messagesOf_message_ne hne.symm _
    · rfl
  refine ⟨?_, ?_, h.apart, h.routed, ?_, h.arriving, h.once, h.below, ?_⟩
  · intro sid' id' call hby hcall hlive'
    have hne : sid' ≠ sid := by
      rintro rfl
      rw [h.apart sid' id' hby] at hr
      cases hr
    rw [Function.update_of_ne hne]
    exact h.call sid' id' call hby hcall hlive'
  · intro sid' id' st' hr' hst' hlive'
    simp only [setStream, note, Function.update_apply] at hst'
    split at hst'
    · next heq =>
        cases hst'
        obtain rfl : sid' = sid := by
          rw [← (h.stream sid' id' st hr' (heq ▸ hst) hlive).1, hsame]
        have hconsumed := hdec.consume (b := chunk) (by rw [← hdec.consume_fst]; exact hok)
        rw [Function.update_self]
        refine ⟨hsame, max, _, decoded_takeMessages hconsumed, fun hon => ?_⟩
        subst heq
        simp only [note, setStream, messagesOf_append, if_pos hon, messagesOf_message, ← htaken hon]
        rfl
    · next hne =>
        have hsid' : sid' ≠ sid := by
          rintro rfl
          exact hne (Option.some.inj (hr'.symm.trans hr))
        rw [Function.update_of_ne hsid']
        simp only [note, setStream, messagesOf_append, hother id' hne, List.append_nil]
        exact h.stream sid' id' st' hr' hst' hlive'
  · intro id' hid'
    have hne : id' ≠ id := by
      rintro rfl
      exact hid' (h.routed sid id' (.inl hr))
    simp only [note, setStream, messagesOf_append, hother id' hne, List.append_nil]
    exact h.silent id' hid'
  · intro sid' hsid'
    have hge : v.nextSid ≤ sid' :=
      hsid'.resolve_right (by simp [submitting, note, setStream, htodo])
    rw [Function.update_of_ne (by omega)]
    exact h.unused sid' (.inl hge)

/-- DATA for a live call. -/
theorem Fed.callFed {sid id : Nat} {call : Call} {chunk : Bytes} (h : Fed r v)
    (htodo : v.todo = []) (hsid : sid < v.nextSid) (hby : v.byStream sid = some id)
    (hcall : v.calls id = some call) (hlive : call.completed = false)
    (hok : (call.decoder.consume chunk).1.ok = true) :
    Fed (Function.update r sid (r sid ++ chunk))
      (v.setCall id { call with decoder := (call.decoder.consume chunk).2 }) := by
  obtain ⟨hsame, max, hdec⟩ := h.call sid id call hby hcall hlive
  refine ⟨?_, ?_, h.apart, h.routed, h.silent, h.arriving, h.once, h.below, ?_⟩
  · intro sid' id' call' hby' hcall' hlive'
    simp only [setCall, Function.update_apply] at hcall'
    split at hcall'
    · next heq =>
        cases hcall'
        obtain rfl : sid' = sid := by
          rw [← (h.call sid' id' call hby' (heq ▸ hcall) hlive).1, hsame]
        rw [Function.update_self]
        exact ⟨hsame, max, hdec.consume (by rw [← hdec.consume_fst]; exact hok)⟩
    · next hne =>
        have hsid' : sid' ≠ sid := by
          rintro rfl
          exact hne (Option.some.inj (hby'.symm.trans hby))
        rw [Function.update_of_ne hsid']
        exact h.call sid' id' call' hby' hcall' hlive'
  · intro sid' id' st hr hst hlive'
    have hne : sid' ≠ sid := by
      rintro rfl
      have hr : v.routes sid' = some id' := hr
      rw [h.apart sid' id hby] at hr
      cases hr
    rw [Function.update_of_ne hne]
    exact h.stream sid' id' st hr hst hlive'
  · intro sid' hsid'
    have hge : v.nextSid ≤ sid' := hsid'.resolve_right (by simp [submitting, setCall, htodo])
    rw [Function.update_of_ne (by omega)]
    exact h.unused sid' (.inl hge)

end Desk

section Data

variable {s : State} {r : Nat → Bytes} {sid : Nat} {chunk : Bytes}

open Desk

/-- The environment of the steps that bring no DATA. -/
def Env.deaf : Env := { Env.any with feed := fun _ _ => False }

theorem Env.deaf_allows (c : Conf) {l : Label} (hl : ∀ sid chunk, l ≠ .event (.data sid chunk)) :
    Env.deaf.Allows c l :=
  { feed := hl }

theorem fed_streamData {id : Nat} {st : Stream} (hn : Numbered (desk s [])) (h : Fed r (desk s []))
    (hsid : sid < s.nextSid) (hr : s.streamBySid sid = some id) (hst : s.streams id = some st) :
    Fed (Function.update r sid (r sid ++ chunk)) (desk (onStreamData s id st chunk) []) := by
  have hcalls : ∀ id', s.byStream sid ≠ some id' := by
    intro id' hby
    have hnone : s.streamBySid sid = none := h.apart sid id' hby
    rw [hr] at hnone
    cases hnone
  unfold onStreamData
  split
  · next hgo =>
      rcases Bool.or_eq_true .. ▸ hgo with hc | he
      · refine h.dropped _ rfl hsid (fun id' st' hr' hst' => ?_)
          fun id' _ hby => absurd hby (hcalls id')
        obtain rfl : id = id' := Option.some.inj (hr.symm.trans hr')
        obtain rfl : st = st' := Option.some.inj (hst.symm.trans hst')
        exact hc
      · rw [List.isEmpty_iff.mp he, List.append_nil, Function.update_eq_self]
        exact h
  · next hgo =>
      obtain ⟨hc, -⟩ : st.completed = false ∧ chunk.isEmpty = false := by simpa using hgo
      dsimp only
      split
      · -- the stream is over before the bytes are added to those heard
        have hmove := Move.streamOver (E := Env.deaf) (v := desk s [])
          (st.decoder.consume chunk).2 (st.decoder.consume chunk).1 hst hc False.elim False.elim
          False.elim False.elim
        rw [desk_completeStream s [] id { st with decoder := (st.decoder.consume chunk).2 } _ hc]
        refine (fed_move (fun _ _ => False.elim) hn h hmove).dropped _ rfl hsid
          (fun id' st' hr' hst' => ?_) fun id' _ hby => absurd hby (hcalls id')
        simp only [Desk.note, Desk.setStream, desk, Function.update_apply] at hr' hst'
        have hroute : s.streamBySid sid = some id' := by
          split at hr'
          · simp only [Function.update_apply] at hr'
            split at hr'
            · cases hr'
            · exact hr'
          · exact hr'
        rw [if_pos (Option.some.inj (hroute.symm.trans hr))] at hst'
        cases hst'
        rfl
      · next hok => exact h.streamFed rfl hsid hr hst hc (by simpa using hok)

theorem fed_callData {id : Nat} {call : Call} (hn : Numbered (desk s [])) (h : Fed r (desk s []))
    (hsid : sid < s.nextSid) (hr : s.streamBySid sid = none) (hby : s.byStream sid = some id)
    (hcall : s.calls id = some call) :
    Fed (Function.update r sid (r sid ++ chunk)) (desk (onCallData s id call chunk) []) := by
  have hstreams : ∀ id', s.streamBySid sid ≠ some id' := fun id' => by simp [hr]
  unfold onCallData
  split
  · next hgo =>
      rcases Bool.or_eq_true .. ▸ hgo with hc | he
      · refine h.dropped _ rfl hsid (fun id' _ hr' => absurd hr' (hstreams id'))
          fun id' call' hby' hcall' => ?_
        obtain rfl : id = id' := Option.some.inj (hby.symm.trans hby')
        obtain rfl : call = call' := Option.some.inj (hcall.symm.trans hcall')
        exact hc
      · rw [List.isEmpty_iff.mp he, List.append_nil, Function.update_eq_self]
        exact h
  · next hgo =>
      obtain ⟨hc, -⟩ : call.completed = false ∧ chunk.isEmpty = false := by simpa using hgo
      dsimp only
      split
      · have hmove := Move.callOver (E := Env.deaf) (v := desk s []) (call.decoder.consume chunk).1
          [] hcall hc False.elim
        rw [desk_complete s [] id { call with decoder := (call.decoder.consume chunk).2 } _ _
          hc]
        refine (fed_move (fun _ _ => False.elim) hn h hmove).dropped _ rfl hsid
          (fun id' _ hr' => absurd hr' (hstreams id')) fun id' call' hby' hcall' => ?_
        simp only [Desk.note, desk, Function.update_apply] at hby' hcall'
        have hroute : s.byStream sid = some id' := by
          split at hby'
          · simp only [Function.update_apply] at hby'
            split at hby'
            · cases hby'
            · exact hby'
          · exact hby'
        rw [if_pos (Option.some.inj (hroute.symm.trans hby))] at hcall'
        cases hcall'
      · next hok => exact h.callFed rfl hsid hby hcall hc (by simpa using hok)

/-- **DATA.** The bytes join those heard, and the decoder of whoever listens has them. -/
theorem fed_data (hn : Numbered (desk s [])) (h : Fed r (desk s [])) (hsid : sid < s.nextSid) :
    Fed (Function.update r sid (r sid ++ chunk)) (desk (onData s sid chunk) []) := by
  unfold onData
  split
  · next id hr =>
      split
      · next hst =>
          refine h.dropped _ rfl hsid (fun id' st hr' hst' => ?_) fun id' _ hby => ?_
          · obtain rfl : id = id' := Option.some.inj (hr.symm.trans hr')
            cases hst.symm.trans hst'
          · cases (h.apart sid id' hby).symm.trans hr
      · next st hst => exact fed_streamData hn h hsid hr hst
  · next hr =>
      have hstreams : ∀ id' (st : Stream), s.streamBySid sid = some id' → s.streams id' = some st →
          st.completed = true := fun id' _ hr' => by cases hr.symm.trans hr'
      split
      · next hby =>
          exact h.dropped _ rfl hsid hstreams fun id' _ hby' => by cases hby.symm.trans hby'
      · next id hby =>
          split
          · next hcall =>
              refine h.dropped _ rfl hsid hstreams fun id' _ hby' hcall' => ?_
              obtain rfl : id = id' := Option.some.inj (hby.symm.trans hby')
              cases hcall.symm.trans hcall'
          · next call hcall => exact fed_callData hn h hsid hr hby hcall

end Data

theorem Desk.fed_fresh (o : Options) :
    Desk.Fed (fun _ => []) (desk (fresh o).st (fresh o).frames) where
  call _ _ _ h := by cases h
  stream _ _ _ h := by cases h
  apart _ _ _ := rfl
  routed _ _ h := by cases h <;> contradiction
  silent _ _ := rfl
  arriving _ h := by cases h
  once := .nil
  below _ h := by cases h
  unused _ _ := ⟨rfl, rfl, rfl⟩

/-- **The decoders have what was heard.** -/
theorem hears_fed {o : Options} {c : Conf} {r : Nat → Bytes}
    (h : machine.Hist hear anyStep (fresh o) (fun _ => []) c r) :
    Desk.Rest Env.deaf (desk c.st c.frames) ∧ Desk.Numbered (desk c.st c.frames) ∧
      Desk.Fed r (desk c.st c.frames) := by
  refine h.inv (I := fun c r => Desk.Rest Env.deaf (desk c.st c.frames) ∧
      Desk.Numbered (desk c.st c.frames) ∧ Desk.Fed r (desk c.st c.frames))
    ⟨Desk.rest_fresh _ o, Desk.numbered_fresh o, Desk.fed_fresh o⟩ ?_
  intro c l d r ⟨hrest, hn, hfed⟩ _ hs
  by_cases hl : ∃ sid chunk, l = .event (.data sid chunk)
  · obtain ⟨sid, chunk, rfl⟩ := hl
    have hrest : Desk.Rest Env.any (desk c.st c.frames) := { hrest with clear := False.elim }
    have hmoved := step_desk (fun _ _ _ => Desk.numbered_move) hrest hn (Env.any_allows c _) hs
    refine ⟨{ hmoved.1 with clear := False.elim }, hmoved.2, ?_⟩
    obtain ⟨hen, s', gs, hfire, rfl⟩ := machine.step_event hs
    obtain ⟨hframes, -⟩ := machine.enabled_base rfl hen
    change fire (.data sid chunk) c.st = some (s', gs) at hfire
    simp only [fire] at hfire
    split at hfire
    · next hopen =>
        cases hfire
        rw [hframes] at hn hfed ⊢
        have hsid : sid < c.st.nextSid := by
          simp only [State.open, Bool.and_eq_true, decide_eq_true_eq] at hopen
          exact hopen.1.2
        exact fed_data hn hfed hsid
    · cases hfire
  · push Not at hl
    have hquiet : hear r l = r := by
      unfold hear
      split
      · exact absurd rfl (hl _ _)
      · rfl
    rw [hquiet]
    exact step_desk (I := fun v => Desk.Numbered v ∧ Desk.Fed r v) (fun _ _ _ hi hm =>
      ⟨Desk.numbered_move hi.1 hm, Desk.fed_move (fun _ _ => id) hi.1 hi.2 hm⟩) hrest ⟨hn, hfed⟩
      (Env.deaf_allows c hl) hs

end Urpc.Channel
