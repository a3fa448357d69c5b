/-
  What a unary handler is called with.

  Until the end of its request a unary call only gathers bytes: `OnData` feeds the decoder and takes
  nothing out, nothing is submitted, and `responded` is set exactly if the decoder has complained
  (`Gathering`). `FinishRequest` then looks at the first message of the decoder and at nothing else:
  it does not see further messages, the bytes left over, or that the decoder has complained, and
  after a complaint it cannot answer any more.

  So a request is treated as the contract says if and only if its bytes are one frame, the beginning
  of one, or less than a prefix.

  Proved: `unary_request_exact_iff`.
-/
import Urpc.Codec.Accept
import Urpc.Server.Framing
import Urpc.Server.Log
import Urpc.Server.Reads

namespace Urpc.Server

open Cxx FrameDecoder

/-- A deadline. -/
def fires : Label → Bool
  | .event (.deadline _) => true
  | _ => false

/-- One header block, and no deadline. -/
def noDeadline (c : Conf) (l : Label) : Prop := oneBlock c l ∧ fires l = false

instance (c : Conf) (l : Label) : Decidable (noDeadline c l) := inferInstanceAs (Decidable (_ ∧ _))

/-- The block with END_STREAM; the session reports the end of a DATA frame without bytes. -/
def Event.endsRequest : Event → Bool
  | .headers _ endStream => endStream
  | .data chunk endStream => chunk.isEmpty && endStream
  | _ => false

/-- What the contract asks of the request bytes `w`, in the state after their end: the handler is
    called once, for good, with the message whose frame they are, or one error block is submitted. -/
structure Exact (cfg : Config) (w : Bytes) (e : Conf) : Prop where
  accepted : ∀ m, m.length ≤ cfg.maxReceiveSize → w = encodeFrame m →
    ∀ f, (machine cfg).Reach oneBlock e f → requests f.st.log = [m]
  refused : (∀ m, m.length ≤ cfg.maxReceiveSize → w ≠ encodeFrame m) →
    (∀ f, (machine cfg).Reach oneBlock e f → requests f.st.log = []) ∧
      ∃ st : Status, st.ok = false ∧ Answered st e.st.h2.subs

/-! ## The response side -/

namespace Writer

variable {t : Trigger} {v w : Writer}

/-- The request of a unary call, if there is one at all yet, has not ended. -/
def Waiting (v : Writer) : Prop :=
  v.opened = false ∨ ∃ k, v.call = some k ∧ k.form = .unary ∧ k.requestDone = false

/-- Nothing was submitted and nothing is about to be. -/
structure Blank (v : Writer) : Prop where
  subs : v.h2.subs = []
  todo : ∀ f ∈ v.todo, f = .cancelOut ∨ f = .closeErase ∨ f = .consumedRest
  call : ∀ k, v.call = some k → k.outQueue = [] ∧ k.hasFinishPending = false

/-- A request that has ended does not begin again. -/
theorem waiting_of_step (h : Step t v w) (hw : w.Waiting) : v.Waiting := by
  rcases hw with ho | ⟨k', hk', hform, hdone⟩
  · cases h with
    | badHeaders | created | unrouted | createdStream => cases ho
    | written _ _ _ _ _ _ hp | pumped _ _ _ _ _ hp => cases hp <;> exact .inl ho
    | _ => exact .inl ho
  · cases h with
    | created ho | unrouted ho | createdStream ho => exact .inl ho
    | badHeaders _ hc =>
        change v.call = some k' at hk'
        rw [hc] at hk'
        cases hk'
    | requestEnded | answered | dispatchedUnary =>
        cases hk'
        cases hdone
    | dispatchedStream _ _ hss =>
        cases hk'
        rw [hss] at hform
        cases hform
    | written hc _ _ _ _ _ hp | pumped hc _ _ _ _ hp =>
        cases hp <;> cases hk' <;> exact .inr ⟨_, hc, hform, hdone⟩
    | consumed =>
        obtain ⟨k, hk, rfl⟩ := Option.map_eq_some_iff.mp hk'
        exact .inr ⟨k, hk, hform, hdone⟩
    | rejected hc | respondOk hc | respondErr hc | deadlineTrailers _ hc | deadlineOnly _ hc
    | queued hc | writeDone hc | deferredFinish _ hc | finishDeferred hc | finishOnly hc
    | finishTrailers hc | cancelOut _ hc =>
        cases hk'
        exact .inr ⟨_, hc, hform, hdone⟩
    | erase => cases hk'
    | _ => exact .inr ⟨k', hk', hform, hdone⟩

theorem Dispatched.waiting_stream (hd : Dispatched v) (hw : v.Waiting) : v.stream = none := by
  rcases hw with ho | ⟨k, hk, hform, hdone⟩
  · exact hd.noCall (hd.fresh ho)
  · rcases (hd.unary k.toRouting (by rw [hk]; rfl) hform).2 with hs | ⟨-, hdone'⟩
    · exact hs
    · rw [hdone] at hdone'
      cases hdone'

theorem blank_step (hd : Dispatched v) (hb : v.Blank) (hv : v.Waiting)
    (ht : ∀ timer, t ≠ .event (.deadline timer)) (hw : w.Waiting) (h : Step t v w) :
    w.Blank := by
  have hstream := hd.waiting_stream hv
  have hhead : ∀ {f rest}, v.todo = f :: rest →
      f = .cancelOut ∨ f = .closeErase ∨ f = .consumedRest := fun hto =>
    hb.todo _ (by rw [hto]; exact .head _)
  have htail : ∀ {f rest}, v.todo = f :: rest → ∀ g ∈ rest,
      g = .cancelOut ∨ g = .closeErase ∨ g = .consumedRest := fun hto g hg =>
    hb.todo g (by rw [hto]; exact .tail _ hg)
  cases h with
  | quiet => exact hb
  | badHeaders _ hc =>
      rcases hw with ho | ⟨k, hk, -⟩
      · cases ho
      · change v.call = some k at hk
        rw [hc] at hk
        cases hk
  | created | unrouted | createdStream =>
      refine ⟨hb.subs, hb.todo, ?_⟩
      rintro _ ⟨⟩
      exact ⟨rfl, rfl⟩
  | requestEnded hc | rejected hc | dispatchedStream hc | writeDone hc | dispatchedUnary hc =>
      refine ⟨hb.subs, hb.todo, ?_⟩
      rintro _ ⟨⟩
      exact (hb.call _ hc :)
  | answered hc =>
      -- the call is there, so that the header block was seen, and its request has ended
      rcases hw with ho | ⟨k, hk, -, hdone⟩
      · have hnone := hd.fresh ho
        rw [hc] at hnone
        cases hnone
      · cases hk
        cases hdone
  | respondOk _ hs | respondErr _ hs | queued _ hs | written _ hs | finishDeferred _ hs
  | finishOnly _ hs | finishTrailers _ hs =>
      rw [hstream] at hs
      cases hs
  | respondData hto | respondTrailers hto | deadlineLate hto | deadlineTrailers hto
  | deadlineOnly hto | pumpOutData hto =>
      rcases hhead hto with hf | hf | hf <;> cases hf
  | deadlineFired => exact absurd rfl (ht _)
  | pumped hc hq =>
      rw [(hb.call _ hc).1] at hq
      cases hq
  | deferredFinish _ hc hpend =>
      rw [(hb.call _ hc).2] at hpend
      cases hpend
  | cancelOut _ hc hq =>
      rw [(hb.call _ hc).1] at hq
      cases hq
  | consumed =>
      refine ⟨hb.subs, ?_, ?_⟩
      · intro g hg
        rcases List.mem_cons.mp hg with rfl | hg
        · exact .inr (.inr rfl)
        · exact hb.todo g hg
      · intro k' hk'
        obtain ⟨k, hk, rfl⟩ := Option.map_eq_some_iff.mp hk'
        exact (hb.call k hk :)
  | consumedRest hto | cancelEnd hto => exact ⟨hb.subs, htail hto, hb.call⟩
  | finishIgnored | closeIdle => exact ⟨hb.subs, hb.todo, hb.call⟩
  | credit => exact ⟨(Sender.credit_subs _ _).trans hb.subs, hb.todo, hb.call⟩
  | close =>
      refine ⟨hb.subs, ?_, hb.call⟩
      intro g hg
      rcases List.mem_cons.mp hg with rfl | hg
      · exact .inl rfl
      · rcases List.mem_cons.mp hg with rfl | hg
        · exact .inr (.inl rfl)
        · exact hb.todo g hg
  | connectionLost =>
      refine ⟨hb.subs, ?_, hb.call⟩
      intro g hg
      exact .inl (List.mem_singleton.mp hg)
  | erase hto => exact ⟨hb.subs, htail hto, fun _ hk => by cases hk⟩

end Writer

/-! ## The request side -/

namespace Reader

variable {max : Nat} {t : Trigger} {v w : Reader}

/-- Until the end of a unary request its decoder has been fed all the bytes, and none of its
    messages was taken. -/
structure Gathered (max : Nat) (v : Reader) : Prop where
  fresh : v.opened = false → v.call = none ∧ v.recv = []
  call : ∀ k, v.call = some k → k.form = .unary → k.requestDone = false →
    Replay max v.recv [] k.decoder ∧ k.decoder.messageCount = 0 ∧
      k.responded = !((new max).consume v.recv).1.ok

theorem gathered_step (hg : v.Gathered max)
    (hctx : ∀ k, v.call = some k → k.form = .unary → k.requestDone = false → v.ctx = none)
    (ht : t ≠ .frame .onDeadlineRest) (h : Step max t v w) : w.Gathered max := by
  have hopen : ∀ {k}, v.call = some k → v.opened ≠ false := fun hc ho => by
    rw [(hg.fresh ho).1] at hc
    cases hc
  cases h with
  | quiet => exact hg
  | badHeaders ho =>
      refine ⟨nofun, fun k hk => ?_⟩
      change v.call = some k at hk
      rw [(hg.fresh ho).1] at hk
      cases hk
  | created ho | createdStream ho =>
      refine ⟨nofun, ?_⟩
      rintro _ ⟨⟩ - -
      rw [(hg.fresh ho).2]
      exact ⟨.fresh max, rfl, by rw [new_consume_nil]; rfl⟩
  | fed hc hnd hok =>
      refine ⟨fun ho => absurd ho (hopen hc), ?_⟩
      rintro _ ⟨⟩ hform -
      obtain ⟨hrep, hcount, hresp⟩ := hg.call _ hc hform hnd
      obtain ⟨hst, hrep'⟩ := hrep.consume _
      refine ⟨hrep', (drained_messageCount _).trans hcount, ?_⟩
      -- had an earlier chunk been rejected, so would this one be
      rw [← hst, hok, hresp]
      cases hbefore : ((new max).consume v.recv).1.ok with
      | true => rfl
      | false =>
          rw [hst, consume_append_of_err hbefore] at hok
          rw [hbefore] at hok
          cases hok
  | rejected hc hnd hbad =>
      refine ⟨fun ho => absurd ho (hopen hc), ?_⟩
      rintro _ ⟨⟩ hform -
      obtain ⟨hrep, hcount, -⟩ := hg.call _ hc hform hnd
      obtain ⟨hst, hrep'⟩ := hrep.consume _
      refine ⟨hrep', (drained_messageCount _).trans hcount, ?_⟩
      rw [← hst, hbad]
      rfl
  | first hc _ hss =>
      refine ⟨fun ho => absurd ho (hopen hc), ?_⟩
      rintro _ ⟨⟩ hform
      cases hss.symm.trans hform
  | handed hc hns | stored hc _ hns | eosArmed hc hns | eosUnarmed hc hns | readPending hc _ hns =>
      refine ⟨fun ho => absurd ho (hopen hc), ?_⟩
      rintro _ ⟨⟩ hform
      exact absurd hform hns
  | dropped hc hs | overrun hc hs | overrunLate hc hs | finished hc hs | respondedUnary hc hs
  | readEos hc hs | readArm hc hs =>
      refine ⟨fun ho => absurd ho (hopen hc), ?_⟩
      rintro _ ⟨⟩ hform hnd
      cases hs.symm.trans (hctx _ hc hform hnd)
  | calledUnary hc | ended hc =>
      refine ⟨fun ho => absurd ho (hopen hc), ?_⟩
      rintro _ ⟨⟩ - hnd
      cases hnd
  | readClosed | readFirst | readConcurrent => exact ⟨hg.fresh, hg.call⟩
  | deadline => exact absurd rfl ht
  | cancelArmed _ hc | cancelled _ hc =>
      refine ⟨fun ho => absurd ho (hopen hc), ?_⟩
      rintro _ ⟨⟩ hform hnd
      exact (hg.call _ hc hform hnd :)
  | erase => exact ⟨fun ho => ⟨rfl, (hg.fresh ho).2⟩, fun _ hk => by cases hk⟩

end Reader

/-! ## Runs -/

section Runs

variable {cfg : Config} {c d : Conf} {l : Label} {k : Call}

theorem waiting_of_call (hc : c.st.call = some k) (hform : k.form = .unary)
    (hopen : k.requestDone = false) : (Writer.of c).Waiting :=
  .inr ⟨_, congrArg (Option.map _) hc, hform, hopen⟩

/-- Only the end of a unary request that has not ended calls the handler. -/
theorem asks_eq_nil (h : ¬ (Writer.of c).Waiting) : asks c l = [] := by
  have hnone : callsUnary c.st = [] := by
    cases hc : c.st.call with
    | none => simp only [callsUnary, hc]
    | some k =>
        simp only [callsUnary, hc]
        refine if_neg fun hk => h (waiting_of_call hc hk.2.2.1 hk.1)
  cases l with
  | event e => rfl
  | resume =>
      simp only [asks]
      split
      · rw [hnone, ite_self]
      · rfl

/-- No request of a unary call after its end. -/
theorem requests_reach (hs : Writer.Sound (.of c)) (hc : ¬ (Writer.of c).Waiting)
    (h : (machine cfg).Reach oneBlock c d) : requests d.st.log = requests c.st.log := by
  refine (h.inv (I := fun e => Writer.Sound (.of e) ∧ ¬ (Writer.of e).Waiting ∧
    requests e.st.log = requests c.st.log) ⟨hs, hc, rfl⟩ ?_).2.2
  rintro e f l ⟨hse, hwe, hre⟩ hl hstep
  obtain ⟨t, -, hw⟩ := writer_step hse.dispatched hl hstep
  refine ⟨Writer.sound_step hse hw, fun hf => hwe (Writer.waiting_of_step hw hf), ?_⟩
  rw [requests_step hstep, asks_eq_nil hwe, List.append_nil, hre]

/-- `FinishRequest` on a unary call. -/
theorem finishRequest_unary {s : State} (hc : s.call = some k) (hreg : k.hasHandler = true)
    (hform : k.form = .unary) (hopen : k.requestDone = false)
    (hcount : k.decoder.messageCount = 0) :
    finishRequest s =
      if k.decoder.hasMessage then
        { s.setCall { k with requestDone := true, decoder := k.decoder.takeMessage.2 } with
          ctx := some .unary }.note (.unary k.decoder.takeMessage.1)
      else trailersOnly (s.setCall { k with requestDone := true }) missingRequest := by
  cases hm : k.decoder.hasMessage <;>
    simp [finishRequest, hc, hopen, hreg, hform, hcount, hm, State.setCall]

theorem exec_endsRequest {s : State} {f : Frame} (hf : f.endsRequest = true)
    (hc : s.call = some k) (hform : k.form = .unary) : exec f s = (finishRequest s, []) := by
  cases f with
  | onHeadersRest e =>
      cases hf
      rfl
  | onDataRest e =>
      cases hf
      simp [exec, onDataRest, hc, hform]
  | _ => cases hf

/-- The step that calls a unary handler ends the request. -/
theorem not_waiting_of_asks (hd : Writer.Dispatched (.of c)) (hne : asks c l ≠ [])
    (h : (machine cfg).step c l = some d) : ¬ (Writer.of d).Waiting := by
  cases l with
  | event e => exact absurd rfl hne
  | resume =>
      obtain ⟨f, fs, hf, rfl⟩ := Resume.System.step_resume h
      simp only [asks, hf] at hne
      obtain ⟨hends, hne⟩ := ite_ne_right_iff.mp hne
      cases hc : c.st.call with
      | none => simp [callsUnary, hc] at hne
      | some k =>
          simp only [callsUnary, hc] at hne
          obtain ⟨⟨hopen, hreg, hform, hcount, hm⟩, -⟩ := ite_ne_right_iff.mp hne
          change ¬ (writer (exec f c.st).1 ((exec f c.st).2 ++ fs)).Waiting
          rw [exec_endsRequest hends hc hform, finishRequest_unary hc hreg hform hopen hcount,
            if_pos hm]
          rintro (ho | ⟨_, ⟨⟩, -, hdone⟩)
          · have hnone := hd.fresh ho
            simp [Writer.of, writer, hc] at hnone
          · cases hdone

/-- A stream without a deadline: until the end of a unary request nothing is answered, and the
    handler is not called. -/
structure Gathering (cfg : Config) (c : Conf) : Prop where
  sound : Writer.Sound (.of c)
  calm : .onDeadlineRest ∉ (Writer.of c).todo
  gathered : (reader c.st).Gathered cfg.maxReceiveSize
  blank : (Writer.of c).Waiting → (Writer.of c).Blank
  uncalled : (Writer.of c).Waiting → requests c.st.log = []

theorem gathering_fresh (cfg : Config) : Gathering cfg fresh where
  sound := sound_fresh
  calm := by simp [Writer.of, writer, fresh]
  gathered := ⟨fun _ => ⟨rfl, rfl⟩, fun _ hk => by cases hk⟩
  blank _ := ⟨rfl, nofun, fun _ hk => by cases hk⟩
  uncalled _ := rfl

theorem gathering_step (h : Gathering cfg c) (hl : noDeadline c l)
    (hstep : (machine cfg).step c l = some d) : Gathering cfg d := by
  obtain ⟨hone, hfire⟩ := hl
  obtain ⟨t, ht, hw⟩ := writer_step h.sound.dispatched hone hstep
  obtain ⟨t', ht', hr⟩ := reader_step h.sound.dispatched hone hstep
  obtain rfl : t = t' := Option.some.inj (ht.symm.trans ht')
  have hdead : t ≠ .frame .onDeadlineRest := by
    rintro rfl
    cases triggers_of_trigger ht with
    | frame hf => exact h.calm (by simp [Writer.of, writer, hf, Frame.writes])
  have hev : ∀ timer, t ≠ .event (.deadline timer) := by
    rintro timer rfl
    cases triggers_of_trigger ht with
    | event => cases hfire
  refine ⟨Writer.sound_step h.sound hw, no_deadline_step h.calm hev hw, ?_, ?_, ?_⟩
  · refine Reader.gathered_step h.gathered ?_ hdead hr
    intro k hk hform hopen
    obtain ⟨call, hc, rfl⟩ := Option.map_eq_some_iff.mp hk
    have hnone := h.sound.dispatched.waiting_stream (waiting_of_call hc hform hopen)
    exact Option.map_eq_none_iff.mp hnone
  · intro hwait
    have hbefore := Writer.waiting_of_step hw hwait
    exact Writer.blank_step h.sound.dispatched (h.blank hbefore) hbefore hev hwait hw
  · intro hwait
    have hbefore := Writer.waiting_of_step hw hwait
    have hasks : asks c l = [] :=
      not_not.mp fun hne => not_waiting_of_asks h.sound.dispatched hne hstep hwait
    rw [requests_step hstep, h.uncalled hbefore, hasks]
    rfl

theorem reach_gathering (h : (machine cfg).Reach noDeadline fresh c) : Gathering cfg c :=
  h.inv (gathering_fresh cfg) fun _ _ _ => gathering_step

/-! ## The end of the request -/

/-- The end of a request leaves `FinishRequest` to do. -/
theorem frames_of_endsRequest {ev : Event} (hs : Writer.Sound (.of c))
    (hl : oneBlock c (.event ev)) (hev : ev.endsRequest = true)
    (hstep : (machine cfg).step c (.event ev) = some d) (hc : d.st.call = some k)
    (hopen : k.requestDone = false) : ∃ f, d.frames = [f] ∧ f.endsRequest = true := by
  obtain ⟨hen, s, gs, hfire, rfl⟩ := Resume.System.step_event hstep
  cases ev with
  | headers fields e =>
      obtain ⟨hfr, -⟩ := Resume.System.enabled_base rfl hen
      have hnone : c.st.call = none := by simpa [Writer.of, writer] using hs.dispatched.fresh hl
      simp only [machine, fire] at hfire
      split at hfire
      · cases hfire
      · -- a block that is refused registers no call
        have hbad : ∀ st, (trailersOnly { c.st with opened := true } st).call ≠ some k := by
          simp [trailersOnly, hnone, sendTrailersOnly, State.sendHeaders]
        simp only [onHeadersComplete] at hfire
        split at hfire
        · split at hfire <;> cases hfire
          · exact absurd hc (hbad _)
          · exact ⟨.onHeadersRest e, by rw [hfr]; rfl, hev⟩
        · cases hfire
          exact absurd hc (hbad _)
  | data chunk e =>
      obtain ⟨hfr, -⟩ := Resume.System.enabled_base rfl hen
      obtain ⟨hemp, he⟩ := Bool.and_eq_true_iff.mp hev
      simp only [machine, fire] at hfire
      split at hfire
      · simp only [onData, hemp, if_true] at hfire
        split at hfire
        · next hnone =>
            cases hfire
            exact absurd hc (by simp [hnone])
        · next k₀ hk₀ =>
            split at hfire
            · next hdone =>
                cases hfire
                cases hk₀.symm.trans hc
                simp [hdone] at hopen
            · cases hfire
              exact ⟨.onDataRest e, by rw [hfr]; rfl, he⟩
      · cases hfire
  | _ => cases hev

theorem finishRequest_unary_call {s : State} (hc : s.call = some k) (hreg : k.hasHandler = true)
    (hform : k.form = .unary) (hopen : k.requestDone = false)
    (hcount : k.decoder.messageCount = 0) :
    ∃ k', (finishRequest s).call = some k' ∧ k'.requestDone = true := by
  rw [finishRequest_unary hc hreg hform hopen hcount]
  split
  · exact ⟨_, rfl, rfl⟩
  · simp only [trailersOnly, State.setCall]
    split
    · exact ⟨_, rfl, rfl⟩
    · exact ⟨_, rfl, rfl⟩

/-- What `FinishRequest` makes of a unary request: the first message of the decoder goes to the
    handler; without one the call is answered, if it has not been marked. -/
theorem unary_request_end {e : Conf} {f : Frame} (h : Gathering cfg d) (hf : d.frames = [f])
    (hends : f.endsRequest = true) (hc : d.st.call = some k) (hreg : k.hasHandler = true)
    (hform : k.form = .unary) (hopen : k.requestDone = false)
    (hstep : (machine cfg).step d .resume = some e) :
    (∀ g, (machine cfg).Reach oneBlock e g → requests g.st.log =
      ((new cfg.maxReceiveSize).consume d.st.recv).2.messages.take 1) ∧
    (((new cfg.maxReceiveSize).consume d.st.recv).2.messages = [] → e.st.h2.subs =
      if ((new cfg.maxReceiveSize).consume d.st.recv).1.ok then
        [.headers (trailersOnlyFields missingRequest) true] else []) := by
  have hwait := waiting_of_call hc hform hopen
  obtain ⟨hrep, hcount, hresp⟩ :=
    h.gathered.call k.asked (Reader.reader_call hc) hform hopen
  have hmsgs : k.decoder.messages = ((new cfg.maxReceiveSize).consume d.st.recv).2.messages :=
    hrep.messages_eq
  have hone : oneBlock d .resume := trivial
  obtain ⟨t, -, hw⟩ := writer_step h.sound.dispatched hone hstep
  have hsound := Writer.sound_step h.sound hw
  have hrequests : requests e.st.log =
      ((new cfg.maxReceiveSize).consume d.st.recv).2.messages.take 1 := by
    rw [requests_step hstep, h.uncalled hwait]
    simp only [asks, hf, hends, if_true, List.nil_append]
    rw [callsUnary_eq hc hopen hreg hform hcount, ← hmsgs]
    cases hms : k.decoder.messages <;> simp [hasMessage, FrameDecoder.takeMessage, hms]
  obtain ⟨f', fs, hf', rfl⟩ := Resume.System.step_resume hstep
  rw [hf] at hf'
  cases hf'
  have hexec : (machine cfg).exec f d.st = (finishRequest d.st, []) :=
    exec_endsRequest hends hc hform
  simp only [hexec] at hsound hrequests ⊢
  refine ⟨fun g hg => ?_, fun hnil => ?_⟩
  · rw [requests_reach hsound ?_ hg, hrequests]
    obtain ⟨k', hk', hdone⟩ := finishRequest_unary_call hc hreg hform hopen hcount
    rintro (ho | ⟨r, hr, -, hnd⟩)
    · have hnone := hsound.dispatched.fresh ho
      simp [Writer.of, writer, hk'] at hnone
    · simp only [Writer.of, writer, hk', Option.map_some, Option.some.injEq] at hr
      subst hr
      cases hdone.symm.trans hnd
  · have hempty : k.decoder.hasMessage = false := by
      rw [hasMessage, show k.decoder.messages = [] from hmsgs.trans hnil]
      rfl
    have hsubs : d.st.h2.subs = [] := (h.blank hwait).subs
    have hresp : k.responded = !((new cfg.maxReceiveSize).consume d.st.recv).1.ok := hresp
    rw [finishRequest_unary hc hreg hform hopen hcount, hempty]
    cases hok : ((new cfg.maxReceiveSize).consume d.st.recv).1.ok <;>
      simp [trailersOnly, State.setCall, sendTrailersOnly, State.sendHeaders, stopDeadline,
        hresp, hok, hsubs]

end Runs

/-- **A unary request is accepted exactly if it is one frame, or less.** Take the end of the
    request of a registered unary method in any run without a deadline. What `FinishRequest` does
    then is what the contract says if and only if the bytes received are less than a prefix, or the
    beginning or all of the frame of one message within the limit. Otherwise the handler is called
    in spite of a second frame, of bytes left over or of a complaint of the decoder, or there is no
    answer at all. -/
theorem unary_request_exact_iff (cfg : Config) (c d e : Conf) (k : Call) (ev : Event)
    (hreach : (machine cfg).Reach noDeadline fresh c) (hl : noDeadline c (.event ev))
    (hev : ev.endsRequest = true) (hend : (machine cfg).step c (.event ev) = some d)
    (hc : d.st.call = some k) (hreg : k.hasHandler = true) (hform : k.form = .unary)
    (hopen : k.requestDone = false) (hstep : (machine cfg).step d .resume = some e) :
    Exact cfg d.st.recv e ↔ Acceptable cfg.maxReceiveSize d.st.recv := by
  have hbefore := reach_gathering hreach
  obtain ⟨f, hf, hends⟩ := frames_of_endsRequest hbefore.sound hl.1 hev hend hc hopen
  obtain ⟨hcalls, hanswer⟩ := unary_request_end (gathering_step hbefore hl hend) hf hends hc hreg
    hform hopen hstep
  have hnow := hcalls e .refl
  constructor
  · intro hex
    by_cases hframe : ∃ m : Bytes, m.length ≤ cfg.maxReceiveSize ∧ d.st.recv = encodeFrame m
    · obtain ⟨m, hmax, hw⟩ := hframe
      have hm := hex.accepted m hmax hw e .refl
      -- the handler was called with a message of the decoder, whose length fits 32 bits
      have hmem : m ∈ ((new cfg.maxReceiveSize).consume d.st.recv).2.messages :=
        List.mem_of_mem_take (by rw [← hnow, hm]; exact .head _)
      exact .inr ⟨m, hmax, (sized_consume _ _).messages m hmem, [], by rw [List.append_nil, hw]⟩
    · obtain ⟨hnone, st, -, block, hblock, -⟩ :=
        hex.refused fun m hmax hw => hframe ⟨m, hmax, hw⟩
      rw [hnone e .refl] at hnow
      have hempty : ((new cfg.maxReceiveSize).consume d.st.recv).2.messages = [] := by
        cases hms : ((new cfg.maxReceiveSize).consume d.st.recv).2.messages with
        | nil => rfl
        | cons => simp [hms] at hnow
      have hsubs := hanswer hempty
      split at hsubs
      · next hok => exact acceptable_of_empty hok hempty
      · rw [hsubs] at hblock
        cases hblock
  · intro hacc
    obtain ⟨hok, hempty | ⟨m, hmax, hw, hm⟩⟩ := acceptable_cases hacc
    · rw [hempty] at hcalls
      refine ⟨fun m hmax hw => ?_, fun _ => ⟨hcalls, missingRequest, rfl, ?_⟩⟩
      · rw [hw] at hacc hempty
        rw [messages_encodeFrame hmax hacc.length] at hempty
        cases hempty
      · rw [hanswer hempty, if_pos hok]
        exact ⟨_, rfl, rfl⟩
    · rw [hm] at hcalls
      refine ⟨fun m' _ hw' => ?_, fun hno => absurd hw (hno m hmax)⟩
      rw [← encodeFrame_inj (hw.symm.trans hw')]
      exact hcalls

/-- A unary call with the request bytes `w`, before its end. -/
def unaryRequest (w : Bytes) : List Label :=
  [.event (.headers (demoHeaders "/t/U") false), .resume, .event (.data w false), .resume]

/-- One frame: the handler is called with its message. -/
theorem unary_request_exact_one :
    ∃ e, (machine demo).run noDeadline fresh (unaryRequest (encodeFrame [1]) ++
        [.event (.data [] true), .resume]) = some e ∧
      requests e.st.log = [[1]] ∧ Exact demo (encodeFrame [1]) e := by
  obtain ⟨c, d, e, k, hc, hl, hend, hk, hreg, hform, hopen, hw, hstep, he, hcalled⟩ :
      ∃ c d e k, (machine demo).run noDeadline fresh (unaryRequest (encodeFrame [1])) = some c ∧
        noDeadline c (.event (.data [] true)) ∧
        (machine demo).step c (.event (.data [] true)) = some d ∧ d.st.call = some k ∧
        k.hasHandler = true ∧ k.form = .unary ∧ k.requestDone = false ∧
        d.st.recv = encodeFrame [1] ∧ (machine demo).step d .resume = some e ∧
        (machine demo).run noDeadline fresh (unaryRequest (encodeFrame [1]) ++
          [.event (.data [] true), .resume]) = some e ∧ requests e.st.log = [[1]] :=
    ⟨_, _, _, _, rfl, by decide, rfl, rfl, rfl, rfl, rfl, rfl, rfl, rfl, rfl⟩
  refine ⟨e, he, hcalled, ?_⟩
  rw [← hw]
  refine (unary_request_exact_iff demo c d e k _ (Resume.System.reach_of_run _ _ _ hc) hl rfl hend hk
    hreg hform hopen hstep).mpr ?_
  rw [hw]
  exact .inr ⟨[1], by decide, by decide, List.prefix_rfl⟩

/-- Two frames, and one frame with two more bytes: the handler is called with the first message. A
    bad flag byte: no call, but no answer either. -/
theorem unary_request_not_exact :
    (∀ w ∈ [encodeFrame [1] ++ encodeFrame [2], encodeFrame [1] ++ [7, 7]],
      ∃ e, (machine demo).run noDeadline fresh (unaryRequest w ++
          [.event (.data [] true), .resume]) = some e ∧
        requests e.st.log = [[1]] ∧ e.st.h2.subs = [] ∧ ¬ Exact demo w e) ∧
    ∃ e, (machine demo).run noDeadline fresh
        [.event (.headers (demoHeaders "/t/U") false), .resume,
         .event (.data [1, 0, 0, 0, 0] false), .event (.data [] true), .resume] = some e ∧
      requests e.st.log = [] ∧ e.st.h2.subs = [] ∧ ¬ Exact demo [1, 0, 0, 0, 0] e := by
  have htwo : ∀ m : Bytes, m.length ≤ demo.maxReceiveSize →
      encodeFrame [1] ++ encodeFrame [2] ≠ encodeFrame m := fun m hm =>
    ne_encodeFrame (by decide) hm (by decide)
  have hleft : ∀ m : Bytes, m.length ≤ demo.maxReceiveSize →
      encodeFrame [1] ++ [7, 7] ≠ encodeFrame m := by
    intro m hm h
    have hlen : 8 = kPrefixLen + m.length := by rw [← encodeFrame_length, ← h]; rfl
    have hmsgs := messages_encodeFrame hm (by omega)
    rw [← h, show ((new demo.maxReceiveSize).consume (encodeFrame [1] ++ [7, 7])).2.messages =
      [[1]] by decide] at hmsgs
    cases hmsgs
    exact absurd hlen (by decide)
  have hflag : ∀ m : Bytes, m.length ≤ demo.maxReceiveSize →
      [1, 0, 0, 0, 0] ≠ encodeFrame m := fun m hm => ne_encodeFrame (by decide) hm (by decide)
  refine ⟨?_, ?_⟩
  · intro w hw
    rcases List.mem_pair.mp hw with rfl | rfl
    · refine ⟨_, rfl, rfl, rfl, fun hex => ?_⟩
      cases (hex.refused htwo).1 _ .refl
    · refine ⟨_, rfl, rfl, rfl, fun hex => ?_⟩
      cases (hex.refused hleft).1 _ .refl
  · refine ⟨_, rfl, rfl, rfl, fun hex => ?_⟩
    obtain ⟨-, st, -, block, hblock, -⟩ := hex.refused hflag
    cases hblock

end Urpc.Server
