/-
  Half-close: does a handler that keeps reading get every request message and the end?

  At END_STREAM `FinishRequest` calls `DeliverRead(eos)`, which sets `read_finished` also when
  no read is armed. From then on `ReadMessage` answers UNAVAILABLE: messages still queued and
  the end of the stream are lost (`half_close_loses_message`). With a read armed nothing is
  queued, and the end goes to that read.

  Proved: `asking_step`, `over_step`, `request_complete_iff`.
-/
import Urpc.Server.Reads

namespace Urpc.Server

open Cxx FrameDecoder

/-- A message, read. -/
def ReadEvent.message (msg : Bytes) : ReadEvent := ⟨.okay, false, msg⟩

/-- The end of the request, read. -/
def ReadEvent.eof : ReadEvent := ⟨.okay, true, []⟩

theorem delivered_message (msg : Bytes) : delivered [.message msg] = [msg] := rfl

/-- The forms whose request is a stream. -/
def Routing.streams (k : Routing) : Prop := k.form = .clientStreaming ∨ k.form = .bidi

namespace Reader

/-- The handler reads one message at a time and does not finish; nothing else ends the call. -/
structure Attentive (t : Trigger) (v : Reader) : Prop where
  overrun : t ≠ .overrun
  finishes : t.finishes = false
  close : t ≠ .event .streamClose
  lost : t ≠ .event .connectionLost
  alone : ∀ cb k, t = .event (.op (.readMessage cb)) → v.call = some k → k.readCb = none

/-- Before END_STREAM: every event is a message, and reading goes on. -/
structure Asking (v : Reader) : Prop where
  fresh : v.opened = false → v.events = []
  reads : ∀ k, v.call = some k → k.streams → k.requestDone = false →
    k.readFinished = false ∧ k.requestHalfClosed = false ∧ stash v.ctx = [] ∧
      v.events = (delivered v.events).map ReadEvent.message

section Steps

variable {max : Nat} {t : Trigger} {v w : Reader} {taken : List Bytes} {k : Asked}

theorem messages_append {events : List ReadEvent} (msg : Bytes)
    (h : events = (delivered events).map ReadEvent.message) :
    events ++ [.message msg] =
      (delivered (events ++ [.message msg])).map ReadEvent.message := by
  rw [delivered_append, delivered_message, List.map_append, ← h]
  rfl

theorem asking_step (ha : Asking v) (hr : Received max v taken) (hat : Attentive t v)
    (hviol : ∀ chunk, t ≠ .violation chunk) (hdead : t ≠ .frame .onDeadlineRest)
    (h : Step max t v w) : Asking w := by
  cases h with
  | quiet => exact ha
  | badHeaders => exact ⟨by simp, ha.reads⟩
  | created _ _ _ hf =>
      refine ⟨by simp, ?_⟩
      rintro _ ⟨⟩ hs
      rcases hf with rfl | rfl <;> simp [Routing.streams] at hs
  | createdStream ho =>
      refine ⟨by simp, ?_⟩
      rintro _ ⟨⟩ _ _
      refine ⟨rfl, rfl, rfl, ?_⟩
      rw [ha.fresh ho]
      rfl
  | fed hc | stored hc | dropped hc | readArm hc | respondedUnary hc =>
      refine ⟨fun ho => absurd ho (hr.opened hc), ?_⟩
      rintro _ ⟨⟩ hs hd
      have hk := ha.reads _ hc hs hd
      exact hk
  | rejected => exact absurd rfl (hviol _)
  | first hc _ hf =>
      refine ⟨fun ho => absurd ho (hr.opened hc), ?_⟩
      rintro _ ⟨⟩ hs
      simp [Routing.streams, Asked.take, hf] at hs
  | handed hc | readPending hc =>
      refine ⟨fun ho => absurd ho (hr.opened hc), ?_⟩
      rintro _ ⟨⟩ hs hd
      obtain ⟨h1, h2, h3, h4⟩ := ha.reads _ hc hs hd
      exact ⟨h1, h2, h3, messages_append _ h4⟩
  | overrun | overrunLate => exact absurd rfl hat.overrun
  | calledUnary hc _ hf =>
      refine ⟨fun ho => absurd ho (hr.opened hc), ?_⟩
      rintro _ ⟨⟩ hs
      simp [Routing.streams, Asked.take, hf] at hs
  | ended hc | eosArmed hc | eosUnarmed hc =>
      refine ⟨fun ho => absurd ho (hr.opened hc), ?_⟩
      rintro _ ⟨⟩ _ hd
      cases hd
  | readClosed hx hfin =>
      refine ⟨fun ho => ?_, fun k hc hs hd => ?_⟩
      · rw [(hr.fresh ho).2.1] at hx
        cases hx
      · have h1 := (ha.reads k hc hs hd).1
        rw [hfin k hc] at h1
        cases h1
  | readFirst hc hx =>
      refine ⟨fun ho => absurd ho (hr.opened hc), fun k hc' hs hd => ?_⟩
      obtain ⟨-, -, h3, -⟩ := ha.reads k hc' hs hd
      simp [hx, stash] at h3
  | readEos hc _ _ _ hh =>
      refine ⟨fun ho => absurd ho (hr.opened hc), ?_⟩
      rintro _ ⟨⟩ hs hd
      cases hh.symm.trans (ha.reads _ hc hs hd).2.1
  | readConcurrent hc hcb =>
      rw [hat.alone _ _ rfl hc] at hcb
      cases hcb
  | finished _ _ hfin =>
      rw [hat.finishes] at hfin
      cases hfin
  | deadline => exact absurd rfl hdead
  | cancelArmed ht | cancelled ht =>
      rcases ht with rfl | rfl
      · exact absurd rfl hat.close
      · exact absurd rfl hat.lost
  | erase => exact ⟨ha.fresh, by simp⟩

/-- After END_STREAM: only refusals. -/
structure Over (base : List ReadEvent) (v : Reader) : Prop where
  opened : v.opened = true
  finished : ∀ k, v.call = some k → k.readFinished = true
  late : ∃ late, v.events = base ++ late ∧ ∀ e ∈ late, e.st = streamClosed

theorem over_step {base : List ReadEvent} (ho : Over base v) (hat : Attentive t v)
    (h : Step max t v w) : Over base w := by
  have hrf : ∀ {k}, v.call = some k → k.readFinished = false → False := by
    intro k hc hf
    rw [ho.finished k hc] at hf
    cases hf
  obtain ⟨h1, h2, h3⟩ := ho
  cases h with
  | quiet => exact ⟨h1, h2, h3⟩
  | badHeaders ho | created ho | createdStream ho =>
      rw [h1] at ho
      cases ho
  | handed hc _ _ hf | stored hc _ _ _ hf | eosArmed hc _ _ hf | readFirst hc _ _ hf
  | readPending hc _ _ hf | readEos hc _ hf | readArm hc _ hf => exact (hrf hc hf).elim
  | fed hc | rejected hc | first hc | dropped hc | overrunLate hc | calledUnary hc | ended hc
  | respondedUnary hc | deadline hc =>
      have hk := h2 _ hc
      refine ⟨h1, ?_, h3⟩
      rintro _ ⟨⟩
      exact hk
  | overrun hc | eosUnarmed hc | finished hc =>
      refine ⟨h1, ?_, h3⟩
      rintro _ ⟨⟩
      rfl
  | readClosed =>
      obtain ⟨late, he, hl⟩ := h3
      refine ⟨h1, h2, late ++ [_], by rw [he, List.append_assoc], ?_⟩
      intro e hmem
      rcases List.mem_append.mp hmem with hmem | hmem
      · exact hl e hmem
      · rw [List.mem_singleton.mp hmem]
  | readConcurrent hc hcb =>
      rw [hat.alone _ _ rfl hc] at hcb
      cases hcb
  | cancelArmed ht | cancelled ht =>
      rcases ht with rfl | rfl
      · exact absurd rfl hat.close
      · exact absurd rfl hat.lost
  | erase => exact ⟨h1, by simp, h3⟩

end Steps

end Reader

/-! ## Runs -/

/-- The request is a prefix of the frames of `ms`; the handler does not finish, reads only
    when no read is armed and leaves at most 64 messages unread; no deadline, no close. -/
def receives (ms : List Bytes) (c : Conf) : Label → Bool
  | .event (.headers ..) => !c.st.opened
  | .event (.data chunk _) => (c.st.recv ++ chunk).isPrefixOf (encodeFrames ms)
  | .event (.deadline _) | .event .streamClose | .event .connectionLost
  | .event (.op (.finish _)) | .event (.op (.respond ..)) => false
  | .event (.op (.readMessage _)) => c.st.call.all fun k => k.readCb.isNone
  | .resume =>
      match c.frames with
      | .onDataRest _ :: _ => !overruns c.st
      | _ => true
  | _ => true

theorem receives_oneBlock {ms : List Bytes} {c : Conf} {l : Label} (h : receives ms c l) :
    oneBlock c l := by
  cases l with
  | resume => trivial
  | event e =>
      cases e with
      | headers => simpa [receives, oneBlock] using h
      | _ => trivial

theorem receives_attentive {ms : List Bytes} {c : Conf} {l : Label} {t : Trigger}
    (h : receives ms c l) (ht : trigger c l = some t) : (reader c.st).Attentive t := by
  cases triggers_of_trigger ht with
  | frame | violation => exact ⟨by simp, rfl, by simp, by simp, by simp⟩
  | overrun hf hov => simp [receives, hf, hov] at h
  | event =>
      refine ⟨by simp, ?_, ?_, ?_, ?_⟩
      · unfold Trigger.finishes
        split
        · next heq =>
            cases heq
            cases h
        · next heq =>
            cases heq
            cases h
        · rfl
      · rintro ⟨⟩
        cases h
      · rintro ⟨⟩
        cases h
      · rintro cb k ⟨⟩ hk
        obtain ⟨k', hk', rfl⟩ := Option.map_eq_some_iff.mp hk
        have hcb : k'.readCb = none := by
          simpa [receives, show c.st.call = some k' from hk'] using h
        exact hcb

/-- The next step is `FinishRequest`, after the last request message was taken. -/
def Ending (c : Conf) (k : Call) : Prop :=
  c.st.call = some k ∧ k.streams ∧ k.requestDone = false ∧ k.decoder.hasMessage = false ∧
    ∃ fs, c.frames = .onDataRest true :: fs ∨ c.frames = .onHeadersRest true :: fs

/-- The handler got every message in order, then the end, then refusals only. -/
def Complete (ms : List Bytes) (e : Conf) : Prop :=
  ∃ late, reads e.st.log = ms.map ReadEvent.message ++ .eof :: late ∧
    ∀ x ∈ late, x.st = streamClosed

/-- `FinishRequest` on a call whose handler reads a stream. -/
theorem finishRequest_stream {s : State} {k : Call} (hc : s.call = some k)
    (hh : k.hasHandler = true) (hf : k.form ≠ .unary) (hdisp : k.dispatched = true)
    (hdone : k.requestDone = false) :
    finishRequest s = deliverRead (s.setCall { k with
      requestDone := true, requestHalfClosed := true }) .okay true [] := by
  cases h : k.form with
  | unary => exact absurd h hf
  | _ => simp [finishRequest, hc, hdone, hh, h, hdisp, State.setCall]

theorem Routing.streams.form_ne {k : Routing} (h : k.streams) : k.form ≠ .unary := by
  rcases h with h | h <;> simp [h]

/-- What `FinishRequest` does to the reads of a call that is still reading. -/
theorem reader_finishRequest {s : State} {fs : List Frame} {k : Call}
    (hd : Writer.Dispatched (writer s fs)) (hc : s.call = some k) (hs : k.streams)
    (hdone : k.requestDone = false) (hrf : k.readFinished = false) :
    (finishRequest s).opened = s.opened ∧
      (∀ k', (finishRequest s).call = some k' → k'.readFinished = true) ∧
      reads (finishRequest s).log = reads s.log ++ if k.readCb.isSome then [.eof] else [] := by
  have hw : (writer s fs).call = some k.toWriteSide := congrArg (Option.map _) hc
  rw [Writer.Dispatched, hw] at hd
  have hdisp : k.dispatched = true := hd.early _ rfl hs
  have hh : k.hasHandler = true := by
    by_contra hne
    exact hs.form_ne (hd.unrouted _ rfl (by simpa using hne)).2
  rw [finishRequest_stream hc hh hs.form_ne hdisp hdone]
  cases hcb : k.readCb with
  | none =>
      simp only [deliverRead, State.setCall, hrf, Bool.or_true, if_true, Bool.false_eq_true,
        if_false, Option.isSome_none, List.append_nil]
      refine ⟨trivial, ?_, trivial⟩
      rintro _ ⟨⟩
      rfl
  | some cb =>
      simp only [deliverRead, State.setCall, hrf, Bool.or_true, if_true, Bool.false_eq_true,
        if_false, Option.isSome_some, State.note]
      refine ⟨trivial, ?_, ?_⟩
      · rintro _ ⟨⟩
        rfl
      · simp [reads, Obs.readEvent, ReadEvent.eof]

section

variable {cfg : Config} {ms : List Bytes} {c d : Conf}

theorem receives_step {l : Label} {taken : List Bytes} (hfit : Fits cfg.maxReceiveSize ms)
    (h : Reading cfg c taken) (hok : receives ms c l) (hstep : (machine cfg).step c l = some d) :
    (∃ taken', Reading cfg d taken') ∧ ∃ t, (reader c.st).Attentive t ∧
      t ≠ .frame .onDeadlineRest ∧ (∀ chunk, t ≠ .violation chunk) ∧
      Reader.Step cfg.maxReceiveSize t (reader c.st) (reader d.st) := by
  have hbytes : ∀ chunk e, l = .event (.data chunk e) →
      ((new cfg.maxReceiveSize).consume (c.st.recv ++ chunk)).1.ok = true := by
    rintro chunk e rfl
    exact (consume_of_isPrefix hfit (List.isPrefixOf_iff_prefix.mp hok)).1
  have hdl : ∀ timer, l ≠ .event (.deadline timer) := by
    rintro timer rfl
    cases hok
  obtain ⟨hread, t, ht, hdead, hviol, hst⟩ :=
    reading_step h (receives_oneBlock hok) hdl hbytes hstep
  exact ⟨hread, t, receives_attentive hok ht, hdead, hviol, hst⟩

theorem reach_asking (hfit : Fits cfg.maxReceiveSize ms)
    (h : (machine cfg).Reach (fun c l => receives ms c l) fresh c) :
    (∃ taken, Reading cfg c taken) ∧ (reader c.st).Asking := by
  refine h.inv (I := fun c => (∃ taken, Reading cfg c taken) ∧ (reader c.st).Asking) ?_ ?_
  · refine ⟨⟨[], reading_fresh cfg⟩, ?_⟩
    constructor <;> simp [reader, fresh, reads]
  · rintro c l d ⟨⟨taken, hread⟩, hask⟩ hok hstep
    obtain ⟨hread', t, hat, hdead, hviol, hst⟩ := receives_step hfit hread hok hstep
    exact ⟨hread', Reader.asking_step hask hread.received hat hviol hdead hst⟩

theorem reach_over {base : List ReadEvent} (hfit : Fits cfg.maxReceiveSize ms)
    (hread : ∃ taken, Reading cfg c taken) (hover : (reader c.st).Over base)
    (h : (machine cfg).Reach (fun c l => receives ms c l) c d) : (reader d.st).Over base := by
  refine (h.inv (I := fun c => (∃ taken, Reading cfg c taken) ∧ (reader c.st).Over base)
    ⟨hread, hover⟩ ?_).2
  rintro c l d ⟨⟨taken, hread⟩, hover⟩ hok hstep
  obtain ⟨hread', t, hat, -, -, hst⟩ := receives_step hfit hread hok hstep
  exact ⟨hread', Reader.over_step hover hat hst⟩

end

/-- **Half-close.** A client-streaming or bidi call receives the frames of `ms`, cut any way,
    and reads at any moments, one read at a time, never with more than 64 messages unread.
    Whatever follows END_STREAM, the handler has got every message and then exactly one OK
    event with `eos` if, and only if, a read was armed when END_STREAM was processed. -/
theorem request_complete_iff (cfg : Config) (ms : List Bytes) (c d e : Conf) (k : Call)
    (hfit : Fits cfg.maxReceiveSize ms) (hc : (machine cfg).Reach (fun c l => receives ms c l) fresh c)
    (hall : c.st.recv = encodeFrames ms) (hend : Ending c k)
    (hstep : (machine cfg).step c .resume = some d)
    (he : (machine cfg).Reach (fun c l => receives ms c l) d e) :
    Complete ms e ↔ k.readCb.isSome = true := by
  obtain ⟨hk, hs, hdone, hm, fs, hfs⟩ := hend
  obtain ⟨⟨taken, hread⟩, hask⟩ := reach_asking hfit hc
  have hcall := Reader.reader_call hk
  obtain ⟨hrf, -, hstash, hevents⟩ := hask.reads _ hcall hs hdone
  have hhold := hread.received.call _ hcall
  -- the decoder has given all of `ms`
  obtain rfl : taken = ms := by
    have hmsgs : taken ++ k.decoder.messages = _ := hhold.decoded.messages_eq
    have hnil : k.decoder.messages = [] := by simpa [hasMessage] using hm
    have hrecv : (reader c.st).recv = encodeFrames ms := hall
    rw [hrecv, consume_encodeFrames _ _ hfit, hnil, List.append_nil] at hmsgs
    exact hmsgs
  have hform : k.form ≠ .unary := by
    rcases hs with h | h <;> simp [h]
  have hlive : delivered (reads c.st.log) ++ stash c.st.ctx ++ k.pendingMsgs = taken :=
    hhold.live hform hrf
  -- the step is `FinishRequest`
  have hnext : d.st = finishRequest c.st := by
    obtain ⟨f, rest, hf, rfl⟩ := Resume.System.step_resume hstep
    rcases hfs with h | h
    · cases hf.symm.trans h
      simp [machine, exec, onDataRest, hk, hm]
    · cases hf.symm.trans h
      rfl
  obtain ⟨hopened, hfin, hreads⟩ := reader_finishRequest hread.sound.dispatched hk hs hdone hrf
  rw [← hnext] at hopened hfin hreads
  have hover : (reader d.st).Over (reads d.st.log) := by
    refine ⟨?_, ?_, [], by simp [reader], by simp⟩
    · have := hread.received.opened hcall
      have hop : c.st.opened = true := by simpa [reader] using this
      exact hopened.trans hop
    · intro k' hk'
      obtain ⟨k'', hk'', rfl⟩ := Option.map_eq_some_iff.mp hk'
      exact hfin k'' hk''
  have hok : receives taken c .resume := by
    have hov : overruns c.st = false := by simp [overruns, hk, hm]
    rcases hfs with hf | hf <;> simp [receives, hf, hov]
  obtain ⟨hread', -⟩ := receives_step hfit hread hok hstep
  obtain ⟨-, -, late, hlog, hlate⟩ := reach_over hfit hread' hover he
  have hlog' : reads e.st.log = reads d.st.log ++ late := hlog
  have hevents' : reads c.st.log = (delivered (reads c.st.log)).map ReadEvent.message := hevents
  constructor
  · rintro ⟨late', hcomp, -⟩
    by_contra harm
    -- no event so far is the end, and no later one can be
    have hmem : ReadEvent.eof ∈ reads d.st.log ++ late := by
      rw [← hlog', hcomp]
      simp
    rw [hreads, if_neg harm, List.append_nil] at hmem
    rcases List.mem_append.mp hmem with hmem | hmem
    · rw [hevents'] at hmem
      obtain ⟨m, -, hm⟩ := List.mem_map.mp hmem
      cases hm
    · cases hlate _ hmem
  · intro harm
    have hne : k.readCb ≠ none := by
      rintro hnone
      simp [hnone] at harm
    obtain ⟨-, hpend⟩ := hhold.armed hne
    have hpend' : k.pendingMsgs = [] := hpend
    have hst : stash c.st.ctx = [] := hstash
    rw [hst, hpend', List.append_nil, List.append_nil] at hlive
    refine ⟨late, ?_, hlate⟩
    rw [hlog', hreads, if_pos harm, hevents', hlive]
    simp

/-- One message and END_STREAM in one chunk, with a read armed, or with the first read after
    the fact. -/
def halfClose (early : Bool) : List Label :=
  openBidi ++ (if early then [.event (.op (.readMessage 1))] else []) ++
    [.event (.data (encodeFrame [5]) true), .resume] ++
    if early then [.event (.op (.readMessage 2))] else []

/-- With no read armed the message and the end are lost, however often the handler reads. -/
theorem half_close_loses_message :
    ((machine demo).run (fun c l => receives [[5]] c l) fresh (halfClose false ++ [.resume,
      .event (.op (.readMessage 1)), .event (.op (.readMessage 2))])).map
        (fun d => reads d.st.log) =
      some [⟨streamClosed, true, []⟩, ⟨streamClosed, true, []⟩] := by
  decide

/-- A read armed before the message and another before the end. -/
theorem request_complete_bidi :
    ∃ c d k, Ending c k ∧ (machine demo).step c .resume = some d ∧ Complete [[5]] d := by
  obtain ⟨c, hc, hd⟩ := Option.bind_eq_some_iff.mp (show
    ((machine demo).run (fun c l => receives [[5]] c l) fresh (halfClose true)).bind (fun c =>
      c.st.call.bind fun k => ((machine demo).step c .resume).map fun _ =>
        decide (k.form = .bidi ∧ k.requestDone = false ∧ k.decoder.hasMessage = false ∧
          c.frames = [.onDataRest true] ∧ c.st.recv = encodeFrame [5] ∧
          k.readCb.isSome = true)) = some true by decide)
  obtain ⟨k, hk, hd⟩ := Option.bind_eq_some_iff.mp hd
  obtain ⟨d, hd, hfacts⟩ := Option.map_eq_some_iff.mp hd
  obtain ⟨hform, hdone, hm, hframes, hrecv, harm⟩ := of_decide_eq_true hfacts
  have hend : Ending c k := ⟨hk, .inr hform, hdone, hm, [], .inl hframes⟩
  exact ⟨c, d, k, hend, hd, (request_complete_iff demo [[5]] c d d k (by simp [Fits, demo,
    defaultMaxMessageSize]) (Resume.System.reach_of_run _ _ _ hc) hrecv hend hd .refl).mpr harm⟩

end Urpc.Server
