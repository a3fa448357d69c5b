/-
  Does a clean end of the request mean complete frames?

  `FinishRequest` answers an armed read with OK and `eos` and does not look at the decoder. What is
  left in the decoder then, the beginning of a prefix or of a payload, or a frame that was rejected
  before, is silently dropped (`truncated_request_ends_ok`). Nothing else tells a client-streaming
  or bidi handler a clean end: `ReadMessage` finds `request_half_closed` only together with
  `read_finished`.

  Proved: `honest_step`, `clean_end_whole`.
-/
import Urpc.Codec.Accept
import Urpc.Server.Final
import Urpc.Server.HalfClose

namespace Urpc.Server

open Cxx FrameDecoder

/-- `FinishRequest` is about to answer an armed read. -/
def tellsEnd (c : Conf) (l : Label) (k : Call) : Bool :=
  (k.form == .clientStreaming || k.form == .bidi) && !k.requestDone && !k.readFinished &&
    k.readCb.isSome && (trigger c l).any fun t => t.finishesRequest k.decoder.hasMessage

/-- One header block, and the decoder is empty when a read is told the end. -/
def endsWhole (c : Conf) (l : Label) : Prop :=
  oneBlock c l ∧ (c.st.call.all fun k => !tellsEnd c l k || k.decoder.whole) = true

instance (c : Conf) (l : Label) : Decidable (endsWhole c l) := inferInstanceAs (Decidable (_ ∧ _))

/-- A clean end was told only of complete frames. -/
def Clean (max : Nat) (recv : Bytes) (events : List ReadEvent) : Prop :=
  ∀ ev ∈ events, ev.st.ok = true → ev.eos = true → Frames max recv

theorem Clean.append {max : Nat} {recv : Bytes} {events : List ReadEvent} {ev : ReadEvent}
    (h : Clean max recv events) (hev : ev.st.ok = false ∨ ev.eos = false) :
    Clean max recv (events ++ [ev]) := by
  intro x hx hok heos
  rcases List.mem_append.mp hx with hx | hx
  · exact h x hx hok heos
  · rw [List.mem_singleton.mp hx] at hok heos
    rcases hev with h | h
    · cases h.symm.trans hok
    · cases h.symm.trans heos

namespace Reader

variable {max : Nat} {t : Trigger} {v w : Reader}

/-- Whatever was taken, the decoder has seen all the bytes; a clean end was told once, at the end
    of the request, of complete frames. -/
structure Sincere (max : Nat) (recv : Bytes) (events : List ReadEvent) (k : Asked) : Prop where
  replay : ∃ taken, Replay max recv taken k.decoder
  half : k.requestHalfClosed = true → k.readFinished = true
  untold : k.requestDone = false → ∀ ev ∈ events, ev.st.ok = true → ev.eos = false
  clean : Clean max recv events

structure Honest (max : Nat) (v : Reader) : Prop where
  fresh : v.opened = false → v.call = none ∧ v.recv = [] ∧ v.events = []
  call : ∀ k, v.call = some k → k.streams → Sincere max v.recv v.events k

namespace Sincere

variable {recv : Bytes} {events : List ReadEvent} {k : Asked}

theorem take (h : Sincere max recv events k) (hm : k.decoder.hasMessage = true) :
    Sincere max recv events k.take := by
  obtain ⟨taken, hrep⟩ := h.replay
  exact ⟨⟨_, hrep.takeMessage hm⟩, h.half, h.untold, h.clean⟩

theorem told (h : Sincere max recv events k) {ev : ReadEvent}
    (hev : ev.st.ok = false ∨ ev.eos = false) : Sincere max recv (events ++ [ev]) k := by
  refine ⟨h.replay, h.half, fun hd x hx hok => ?_, h.clean.append hev⟩
  rcases List.mem_append.mp hx with hx | hx
  · exact h.untold hd x hx hok
  · rw [List.mem_singleton.mp hx] at hok ⊢
    rcases hev with hbad | heos
    · cases hbad.symm.trans hok
    · exact heos

/-- More bytes: the request has not ended, so no end was told. -/
theorem feed (h : Sincere max recv events k) (hopen : k.requestDone = false) (chunk : Bytes)
    (responded : Bool) : Sincere max (recv ++ chunk) events
      { k with decoder := (k.decoder.consume chunk).2, responded } := by
  obtain ⟨taken, hrep⟩ := h.replay
  refine ⟨⟨taken, (hrep.consume chunk).2⟩, h.half, h.untold, fun ev hev hok heos => ?_⟩
  cases (h.untold hopen ev hev hok).symm.trans heos

end Sincere

theorem honest_step (hf : v.Fits) (hv : v.Honest max)
    (hwhole : ∀ k cb, v.call = some k → k.streams → k.requestDone = false →
      k.readFinished = false → k.readCb = some cb →
      t.finishesRequest k.decoder.hasMessage = true → k.decoder.whole = true)
    (h : Step max t v w) : w.Honest max := by
  have hopen : ∀ {k}, v.call = some k → v.opened ≠ false := fun hc ho => by
    rw [(hv.fresh ho).1] at hc
    cases hc
  cases h with
  | quiet => exact hv
  | badHeaders ho =>
      refine ⟨(by simp), fun k hk => ?_⟩
      change v.call = some k at hk
      rw [(hv.fresh ho).1] at hk
      cases hk
  | created _ _ _ hform =>
      refine ⟨(by simp), ?_⟩
      rintro _ ⟨⟩ hs
      rcases hform with rfl | rfl <;> simp [Routing.streams] at hs
  | createdStream ho =>
      obtain ⟨-, hrecv, hev⟩ := hv.fresh ho
      refine ⟨(by simp), ?_⟩
      rintro _ ⟨⟩ -
      rw [hrecv, hev]
      exact ⟨⟨[], .fresh max⟩, (by simp), (by simp), fun _ h => by cases h⟩
  | fed hc hnd =>
      refine ⟨fun ho => absurd ho (hopen hc), ?_⟩
      rintro _ ⟨⟩ hs
      exact (hv.call _ hc hs).feed hnd _ _
  | rejected hc hnd =>
      refine ⟨fun ho => absurd ho (hopen hc), ?_⟩
      rintro _ ⟨⟩ hs
      exact (hv.call _ hc hs).feed hnd _ _
  | first hc _ hform | calledUnary hc _ hform =>
      refine ⟨fun ho => absurd ho (hopen hc), ?_⟩
      rintro _ ⟨⟩ hs
      simp [Routing.streams, Asked.take, hform] at hs
  | handed hc _ hm =>
      refine ⟨fun ho => absurd ho (hopen hc), ?_⟩
      rintro _ ⟨⟩ hs
      have hk := (hv.call _ hc hs).take hm
      refine Sincere.told ?_ ?_
      · exact ⟨hk.replay, hk.half, hk.untold, hk.clean⟩
      · exact .inr rfl
  | stored hc _ _ hm | dropped hc _ hm | overrunLate hc _ hm =>
      refine ⟨fun ho => absurd ho (hopen hc), ?_⟩
      rintro _ ⟨⟩ hs
      have hk := (hv.call _ hc hs).take hm
      exact ⟨hk.replay, hk.half, hk.untold, hk.clean⟩
  | overrun hc _ hm =>
      refine ⟨fun ho => absurd ho (hopen hc), ?_⟩
      rintro _ ⟨⟩ hs
      have hk := (hv.call _ hc hs).take hm
      exact ⟨hk.replay, fun _ => rfl, hk.untold, hk.clean⟩
  | ended hc hctx =>
      refine ⟨fun ho => absurd ho (hopen hc), ?_⟩
      rintro _ ⟨⟩ hs
      rcases hf.waiting hctx _ hc with hform | hform <;> simp [Routing.streams, hform] at hs
  | eosArmed hc _ _ hrf hcb hnd ht =>
      refine ⟨fun ho => absurd ho (hopen hc), ?_⟩
      rintro _ ⟨⟩ hs
      have hk := hv.call _ hc hs
      obtain ⟨taken, hrep⟩ := hk.replay
      have hframes := hrep.whole_iff.mp (hwhole _ _ hc hs hnd hrf hcb ht)
      exact ⟨hk.replay, fun _ => rfl, (by simp), fun _ _ _ _ => hframes⟩
  | eosUnarmed hc =>
      refine ⟨fun ho => absurd ho (hopen hc), ?_⟩
      rintro _ ⟨⟩ hs
      have hk := hv.call _ hc hs
      exact ⟨hk.replay, fun _ => rfl, (by simp), hk.clean⟩
  | readClosed hctx =>
      refine ⟨fun ho => ?_, fun k hk hs => (hv.call k hk hs).told (.inl rfl)⟩
      cases hctx.symm.trans (hf.gone (hv.fresh ho).1)
  | readFirst hc =>
      refine ⟨fun ho => absurd ho (hopen hc), fun k hk hs => (hv.call k hk hs).told (.inr rfl)⟩
  | readConcurrent hc =>
      refine ⟨fun ho => absurd ho (hopen hc), fun k hk hs => (hv.call k hk hs).told (.inl rfl)⟩
  | readPending hc =>
      refine ⟨fun ho => absurd ho (hopen hc), ?_⟩
      rintro _ ⟨⟩ hs
      have hk := hv.call _ hc hs
      refine Sincere.told ?_ ?_
      · exact ⟨hk.replay, hk.half, hk.untold, hk.clean⟩
      · exact .inr rfl
  | readEos hc _ hrf _ hhalf =>
      refine ⟨fun ho => absurd ho (hopen hc), ?_⟩
      rintro _ ⟨⟩ hs
      cases hrf.symm.trans ((hv.call _ hc hs).half hhalf)
  | readArm hc | respondedUnary hc | deadline hc =>
      refine ⟨fun ho => absurd ho (hopen hc), ?_⟩
      rintro _ ⟨⟩ hs
      have hk := hv.call _ hc hs
      exact ⟨hk.replay, hk.half, hk.untold, hk.clean⟩
  | finished hc | cancelled _ hc =>
      refine ⟨fun ho => absurd ho (hopen hc), ?_⟩
      rintro _ ⟨⟩ hs
      have hk := hv.call _ hc hs
      exact ⟨hk.replay, fun _ => rfl, hk.untold, hk.clean⟩
  | cancelArmed _ hc =>
      refine ⟨fun ho => absurd ho (hopen hc), ?_⟩
      rintro _ ⟨⟩ hs
      have hk := hv.call _ hc hs
      refine Sincere.told ?_ ?_
      · exact ⟨hk.replay, fun _ => rfl, hk.untold, hk.clean⟩
      · exact .inl rfl
  | erase => exact ⟨fun ho => ⟨rfl, (hv.fresh ho).2⟩, fun _ hk => by cases hk⟩

theorem recv_of_frame {f : Frame} (h : Step max (.frame f) v w) : w.recv = v.recv := by
  cases h <;> rfl

/-- The call was of a form whose request is a stream, and may be gone. -/
structure Streamed (max : Nat) (v : Reader) : Prop where
  opened : v.opened = true
  form : ∀ k, v.call = some k → k.streams
  clean : Clean max v.recv v.events

theorem streamed_step (hs : v.Streamed max) (hw : w.Honest max)
    (h : Step max t v w) : w.Streamed max := by
  obtain ⟨hopen, hform, hclean⟩ := hs
  -- while the call is there `Honest` says it all
  have hkeep : ∀ {k k' : Asked}, v.call = some k → w.call = some k' → w.opened = v.opened →
      k'.form = k.form → w.Streamed max := by
    intro k k' hc hc' ho hk
    have hs : k'.streams := by
      have := hform k hc
      rwa [Routing.streams, ← hk] at this
    refine ⟨ho.trans hopen, ?_, (hw.call k' hc' hs).clean⟩
    intro k'' hk''
    cases hc'.symm.trans hk''
    exact hs
  cases h with
  | quiet => exact ⟨hopen, hform, hclean⟩
  | badHeaders ho | created ho | createdStream ho => cases ho.symm.trans hopen
  | readClosed => exact ⟨hopen, hform, hclean.append (.inl rfl)⟩
  | erase => exact ⟨hopen, fun _ hk => (by cases hk), hclean⟩
  | cancelArmed _ hc | cancelled _ hc => exact hkeep hc rfl rfl rfl
  | readFirst hc | readConcurrent hc => exact hkeep hc hc rfl rfl
  | fed hc | rejected hc | first hc | handed hc | stored hc | dropped hc | overrun hc
  | overrunLate hc | calledUnary hc | ended hc | eosArmed hc | eosUnarmed hc | readPending hc
  | readEos hc | readArm hc | finished hc | respondedUnary hc | deadline hc =>
      exact hkeep hc rfl rfl rfl

end Reader

/-! ## Runs -/

section Runs

variable {cfg : Config} {c d : Conf} {l : Label} {k : Call} {t : Trigger}

theorem tellsEnd_eq_true : tellsEnd c l k = true ↔ k.streams ∧ k.requestDone = false ∧
    k.readFinished = false ∧ k.readCb.isSome = true ∧
      ∃ t, trigger c l = some t ∧ t.finishesRequest k.decoder.hasMessage = true := by
  simp [tellsEnd, Routing.streams, Option.any_eq_true, and_assoc]

theorem honest_of_endsWhole (hd : Writer.Dispatched (.of c))
    (hv : (reader c.st).Honest cfg.maxReceiveSize) (hl : endsWhole c l)
    (hstep : (machine cfg).step c l = some d) : (reader d.st).Honest cfg.maxReceiveSize := by
  obtain ⟨t, ht, hr⟩ := reader_step hd hl.1 hstep
  refine Reader.honest_step (Reader.fits_of_dispatched hd) hv ?_ hr
  intro k cb hk hs hnd hrf hcb hfin
  obtain ⟨call, hc, rfl⟩ := Option.map_eq_some_iff.mp hk
  have htells : tellsEnd c l call = true :=
    tellsEnd_eq_true.mpr ⟨hs, hnd, hrf, Option.isSome_iff_exists.mpr ⟨cb, hcb⟩, t, ht, hfin⟩
  have hwhole := hl.2
  rw [show c.st.call = some call from hc] at hwhole
  have hdone : call.decoder.whole = true := by simpa [htells] using hwhole
  exact hdone

/-- The step that tells the end. -/
theorem reads_of_tellsEnd (hd : Writer.Dispatched (.of c)) (hc : c.st.call = some k)
    (ht : tellsEnd c l k = true) (hstep : (machine cfg).step c l = some d) :
    d.st.recv = c.st.recv ∧ reads d.st.log = reads c.st.log ++ [.eof] := by
  obtain ⟨hs, hnd, hrf, hcb, t, ht, hfin⟩ := tellsEnd_eq_true.mp ht
  cases triggers_of_trigger ht with
  | overrun | event | violation => cases hfin
  | @frame f fs hf =>
      have hone : oneBlock c .resume := trivial
      obtain ⟨t, ht', hr⟩ := reader_step hd hone hstep
      cases ht.symm.trans ht'
      refine ⟨Reader.recv_of_frame hr, ?_⟩
      obtain ⟨f', fs', hf', rfl⟩ := Resume.System.step_resume hstep
      cases hf.symm.trans hf'
      have hexec : exec f c.st = (finishRequest c.st, []) := by
        cases f with
        | onHeadersRest e =>
            obtain rfl : e = true := hfin
            rfl
        | onDataRest e =>
            obtain ⟨rfl, hm⟩ : e = true ∧ k.decoder.hasMessage = false := by
              simpa [Trigger.finishesRequest] using hfin
            simp [exec, onDataRest, hc, hm]
        | _ => cases hfin
      have hreads := (reader_finishRequest hd hc hs hnd hrf).2.2
      rw [hcb, if_pos rfl] at hreads
      change reads (exec f c.st).1.log = _
      rw [hexec]
      exact hreads

theorem sound_of_endsWhole (hs : Writer.Sound (.of c)) (hl : endsWhole c l)
    (hstep : (machine cfg).step c l = some d) : Writer.Sound (.of d) := by
  obtain ⟨t, -, hw⟩ := writer_step hs.dispatched hl.1 hstep
  exact Writer.sound_step hs hw

theorem reach_honest (h : (machine cfg).Reach endsWhole fresh c) :
    Writer.Sound (.of c) ∧ (reader c.st).Honest cfg.maxReceiveSize :=
  h.inv (I := fun e => Writer.Sound (.of e) ∧ (reader e.st).Honest cfg.maxReceiveSize)
    ⟨sound_fresh, fun _ => ⟨rfl, rfl, rfl⟩, fun _ hk => by cases hk⟩
    fun _ _ _ he hl hstep =>
      ⟨sound_of_endsWhole he.1 hl hstep, honest_of_endsWhole he.1.dispatched he.2 hl hstep⟩

theorem streamed_of_endsWhole (hd : Writer.Dispatched (.of c))
    (hv : (reader c.st).Honest cfg.maxReceiveSize)
    (hs : (reader c.st).Streamed cfg.maxReceiveSize) (hl : endsWhole c l)
    (hstep : (machine cfg).step c l = some d) : (reader d.st).Streamed cfg.maxReceiveSize := by
  obtain ⟨t, -, hr⟩ := reader_step hd hl.1 hstep
  exact Reader.streamed_step hs (honest_of_endsWhole hd hv hl hstep) hr

theorem streamed_of_call
    (hv : (reader c.st).Honest cfg.maxReceiveSize) (hc : c.st.call = some k)
    (hk : k.streams) : (reader c.st).Streamed cfg.maxReceiveSize := by
  have hcall := Reader.reader_call hc
  refine ⟨?_, fun k' hk' => ?_, (hv.call _ hcall hk).clean⟩
  · by_contra ho
    have hnone := (hv.fresh (by simpa using ho)).1
    rw [hcall] at hnone
    cases hnone
  · cases hcall.symm.trans hk'
    exact hk

end Runs

/-- **A clean end means complete frames, as long as the decoder is empty.** Take a client-streaming
    or bidi call in a run in which the decoder has nothing left over whenever `FinishRequest`
    answers an armed read. In every later state a read was answered with OK and `eos` only if the
    bytes received are the frames of messages within the limit, one after the other. And the
    condition is exact: a next step keeps this if and only if it meets the condition. -/
theorem clean_end_whole (cfg : Config) (c d : Conf) (k : Call)
    (hreach : (machine cfg).Reach endsWhole fresh c) (hc : c.st.call = some k) (hs : k.streams)
    (hlater : (machine cfg).Reach endsWhole c d) :
    Clean cfg.maxReceiveSize d.st.recv (reads d.st.log) ∧
      ∀ l e, oneBlock d l → (machine cfg).step d l = some e →
        (Clean cfg.maxReceiveSize e.st.recv (reads e.st.log) ↔ endsWhole d l) := by
  obtain ⟨hsound, hhonest⟩ := reach_honest hreach
  obtain ⟨hsd, hhd, hstr⟩ := hlater.inv (I := fun e => Writer.Sound (.of e) ∧
    (reader e.st).Honest cfg.maxReceiveSize ∧ (reader e.st).Streamed cfg.maxReceiveSize)
    ⟨hsound, hhonest, streamed_of_call hhonest hc hs⟩ fun _ _ _ he hl hstep =>
      ⟨sound_of_endsWhole he.1 hl hstep, honest_of_endsWhole he.1.dispatched he.2.1 hl hstep,
        streamed_of_endsWhole he.1.dispatched he.2.1 he.2.2 hl hstep⟩
  refine ⟨hstr.clean, fun l e hone hstep => ⟨fun hclean => ⟨hone, ?_⟩, fun hl => ?_⟩⟩
  · refine Option.all_eq_true .. |>.mpr fun k' hk' => ?_
    cases htells : tellsEnd d l k' with
    | false => rfl
    | true =>
        -- the end is told now, so the bytes are complete frames and nothing is left over
        obtain ⟨hrecv, hreads⟩ := reads_of_tellsEnd hsd.dispatched hk' htells hstep
        have hframes := hclean .eof (by rw [hreads]; simp) rfl rfl
        rw [hrecv] at hframes
        have hk := hhd.call _ (Reader.reader_call hk') (tellsEnd_eq_true.mp htells).1
        obtain ⟨taken, hrep⟩ := hk.replay
        exact hrep.whole_iff.mpr hframes
  · exact (streamed_of_endsWhole hsd.dispatched hhd hstr hl hstep).clean

/-- A bidi call; the client half-closes after the frame of one message. -/
theorem clean_end_one :
    ∃ d, (machine demo).run endsWhole fresh (openBidi ++
        [.event (.data (encodeFrame [1]) false), .resume, .resume,
         .event (.op (.readMessage 1)), .event (.op (.readMessage 2)),
         .event (.data [] true), .resume]) = some d ∧
      .eof ∈ reads d.st.log ∧ Frames demo.maxReceiveSize d.st.recv := by
  obtain ⟨c, d, k, hc, hk, hs, hd, hrun, hmem⟩ : ∃ c d k,
      (machine demo).run endsWhole fresh openBidi = some c ∧ c.st.call = some k ∧ k.streams ∧
      (machine demo).run endsWhole c
        [.event (.data (encodeFrame [1]) false), .resume, .resume,
         .event (.op (.readMessage 1)), .event (.op (.readMessage 2)),
         .event (.data [] true), .resume] = some d ∧
      (machine demo).run endsWhole fresh (openBidi ++
        [.event (.data (encodeFrame [1]) false), .resume, .resume,
         .event (.op (.readMessage 1)), .event (.op (.readMessage 2)),
         .event (.data [] true), .resume]) = some d ∧ .eof ∈ reads d.st.log :=
    ⟨_, _, _, rfl, rfl, .inr rfl, rfl, rfl, by decide⟩
  refine ⟨d, hrun, hmem, ?_⟩
  exact (clean_end_whole demo c d k (Resume.System.reach_of_run _ _ _ hc) hk hs
    (Resume.System.reach_of_run _ _ _ hd)).1 _ hmem rfl rfl

/-- A read is armed and the client half-closes in the middle of a prefix, in the middle of a
    payload, and after a frame that was rejected: the handler is told a clean end. -/
theorem truncated_request_ends_ok :
    (∀ w ∈ [[0, 0], [0, 0, 0, 0, 2, 7]], ¬ Frames demo.maxReceiveSize w ∧
      ((machine demo).run oneBlock fresh (openBidi ++ [.event (.op (.readMessage 1)),
        .event (.data w false), .resume, .event (.data [] true), .resume])).map
          (fun d => (d.st.recv, reads d.st.log)) = some (w, [.eof])) ∧
    ¬ Frames demo.maxReceiveSize [1, 0, 0, 0, 0] ∧
      ((machine demo).run oneBlock fresh (openBidi ++ [.event (.op (.readMessage 1)),
        .event (.data [1, 0, 0, 0, 0] false), .event (.data [] true), .resume])).map
          (fun d => (d.st.recv, reads d.st.log)) = some ([1, 0, 0, 0, 0], [.eof]) := by
  simp only [← whole_consume_iff]
  decide

end Urpc.Server
