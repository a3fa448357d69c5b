/-
  After the terminal status of a streaming call.

  `Finish`, an overrun of the read queue and a second request message go through
  `FinishStream`, which also ends the reads. The deadline, a framing violation and a header
  block in the place of request trailers only set `responded`: what the request has queued, or
  still brings, is handed to the handler as before. `closesReads` are the steps in which those
  three find the reads already ended.

  Proved: `terminal_is_final` (nothing is read or written after the terminal status, as long as
  the steps are such), `deadline_keeps_reading` (without it a message is read after the
  deadline's trailers).
-/
import Urpc.Server.Callbacks
import Urpc.Server.Closing
import Urpc.Server.Log

namespace Urpc.Server

open Cxx

/-- Steps that can answer a streaming call and leave its reads as they are: the end of
    `OnDeadline`, `RespondError` and `OnHeadersComplete` on a stream that is open already. -/
def answersAside (c : Conf) : Label → Bool
  | .resume => c.frames.head? == some .onDeadlineRest
  | .event (.data chunk _) => rejects c.st chunk
  | .event (.headers ..) => c.st.opened
  | _ => false

/-- An unanswered streaming call that has not ended its reads. -/
def stillReading (s : State) : Bool :=
  s.call.any fun k => k.form != .unary && !k.responded && !k.readFinished

/-- Request trailers have no `:path`, and such a step finds no call that still reads. -/
def closesReads (c : Conf) (l : Label) : Prop :=
  trailersPlain c l ∧ (answersAside c l = true → stillReading c.st = false)

instance (c : Conf) (l : Label) : Decidable (closesReads c l) :=
  inferInstanceAs (Decidable (_ ∧ _))

namespace Reader

variable {max : Nat} {t : Trigger} {v w : Reader}

/-- The reads of a call have ended: by the flag, or because it was refused for want of a request
    message and has no handler. -/
def Ended (v : Reader) (k : Asked) : Prop :=
  k.readFinished = true ∨ v.ctx = none ∧ k.requestDone = true ∧ k.decoder.hasMessage = false

/-- An answered streaming call has ended its reads. -/
def Decided (v : Reader) : Prop :=
  ∀ k, v.call = some k → k.form ≠ .unary → k.responded = true → v.Ended k

/-- A streaming call whose reads have ended, or that has been erased. -/
structure Shut (v : Reader) : Prop where
  opened : v.opened = true
  kept : ∀ k, v.call = some k → k.form ≠ .unary ∧ v.Ended k
  gone : v.call = none → v.ctx = none

/-- The form of a call and its context belong together. -/
structure Fits (v : Reader) : Prop where
  waiting : v.ctx = none → ∀ k, v.call = some k → k.form = .unary ∨ k.form = .serverStreaming
  unary : v.ctx = some .unary → ∀ k, v.call = some k → k.form = .unary
  running : ∀ k, v.call = some k → k.form ≠ .unary → k.dispatched = true → v.ctx ≠ none
  gone : v.call = none → v.ctx = none

theorem fits_of_dispatched {c : Conf} (hd : Writer.Dispatched (.of c)) : (reader c.st).Fits := by
  have hcall : ∀ k, (reader c.st).call = some k →
      ∃ r, ((Writer.of c).call.map WriteSide.toRouting) = some r ∧ r = k.toRouting := by
    intro k hk
    obtain ⟨call, hc, rfl⟩ := Option.map_eq_some_iff.mp hk
    refine ⟨call.toRouting, ?_, rfl⟩
    simp [Writer.of, writer, hc]
  have hctx : (Writer.of c).stream = (reader c.st).ctx.map Ctx.isStream := rfl
  have hruns : ∀ k, (reader c.st).call = some k → k.form ≠ .unary → k.dispatched = true →
      (reader c.st).ctx ≠ none := by
    intro k hk hform hdisp hn
    obtain ⟨r, hr, rfl⟩ := hcall k hk
    have hs := hd.streaming _ hr hform
    simp [hctx, hn, hdisp] at hs
  refine ⟨?_, ?_, hruns, ?_⟩
  · intro hn k hk
    obtain ⟨r, hr, rfl⟩ := hcall k hk
    by_contra hform
    have hearly : k.form = .clientStreaming ∨ k.form = .bidi := by
      cases hf : k.form <;> simp_all
    refine hruns k hk ?_ (hd.early _ hr hearly) hn
    rcases hearly with h | h <;> rw [h] <;> simp
  · intro hu k hk
    obtain ⟨r, hr, rfl⟩ := hcall k hk
    by_contra hform
    have hs := hd.streaming _ hr hform
    rw [hctx, hu] at hs
    split at hs <;> cases hs
  · intro hn
    have hnone : (Writer.of c).call.map WriteSide.toRouting = none := by
      have : c.st.call = none := by simpa [reader] using hn
      simp [Writer.of, writer, this]
    have hs := hd.noCall hnone
    simpa [hctx] using hs

theorem decided_step (hv : v.Fits) (h : v.Decided)
    (hanswer : t = .frame .onDeadlineRest ∨ (∃ chunk, t = .violation chunk) →
      ∀ k, v.call = some k → k.form ≠ .unary → k.responded = false → k.readFinished = true)
    (hs : Step max t v w) : w.Decided := by
  have hended : ∀ {k}, v.call = some k → k.responded = true → k.form ≠ .unary → v.Ended k :=
    fun hc hr hf => h _ hc hf hr
  cases hs with
  | quiet | badHeaders | readClosed | readConcurrent => exact h
  | created _ _ _ hf | createdStream _ _ _ hf =>
      rintro _ ⟨⟩ - hr
      cases hr
  | fed hc hdone =>
      rintro _ ⟨⟩ hf hr
      rcases hended hc hr hf with hfin | ⟨-, hdone', -⟩
      · exact .inl hfin
      · rw [hdone] at hdone'
        cases hdone'
  | @rejected _ k _ hc hdone =>
      rintro _ ⟨⟩ hf -
      left
      by_cases hr : k.responded = true
      · rcases hended hc hr hf with hfin | ⟨-, hdone', -⟩
        · exact hfin
        · rw [hdone] at hdone'
          cases hdone'
      · exact hanswer (.inr ⟨_, rfl⟩) k hc hf (by simpa using hr)
  | first hc _ _ hm | handed hc _ hm | stored hc _ _ hm | overrunLate hc _ hm =>
      rintro _ ⟨⟩ hf hr
      rcases hended hc hr hf with hfin | ⟨-, -, hm'⟩
      · exact .inl hfin
      · rw [hm] at hm'
        cases hm'
  | dropped _ _ _ hfin =>
      rintro _ ⟨⟩ - -
      exact .inl hfin
  | overrun | eosArmed | eosUnarmed | readEos | finished | cancelArmed | cancelled =>
      rintro _ hk - -
      obtain rfl := Option.some.inj hk
      exact .inl rfl
  | calledUnary _ _ hu =>
      rintro _ ⟨⟩ hf -
      exact absurd hu hf
  | ended hc hctx hm =>
      rintro _ ⟨⟩ hf -
      rcases hv.waiting hctx _ hc with hu | hss
      · exact absurd hu hf
      · exact .inr ⟨hctx, rfl, hm hss⟩
  | readFirst _ hctx =>
      intro k hk hf hr
      rcases hended hk hr hf with hfin | ⟨hn, -⟩
      · exact .inl hfin
      · rw [hctx] at hn
        cases hn
  | readPending hc hctx | readArm hc hctx =>
      rintro _ ⟨⟩ hf hr
      rcases hended hc hr hf with hfin | ⟨hn, -⟩
      · exact .inl hfin
      · rw [hctx] at hn
        cases hn
  | respondedUnary hc hctx =>
      rintro _ ⟨⟩ hf -
      exact absurd (hv.unary hctx _ hc) hf
  | @deadline _ k hc =>
      rintro _ ⟨⟩ hf -
      by_cases hr : k.responded = true
      · have hk := hended hc hr hf
        exact hk
      · exact .inl (hanswer (.inl rfl) k hc hf (by simpa using hr))
  | erase =>
      intro k hk
      cases hk

theorem decided_again (h : v.Decided)
    (hanswer : ∀ k, v.call = some k → k.form ≠ .unary → k.responded = false →
      k.readFinished = true) (ha : Again v w) : w.Decided := by
  cases ha with
  | same => exact h
  | @refused k hc hr =>
      rintro _ ⟨⟩ hf -
      exact .inl (hanswer k hc hf hr)

/-- From then on every read that is answered is refused. -/
theorem shut_step (hv : v.Fits) (h : v.Shut) (hs : Step max t v w) :
    w.Shut ∧ ∃ late, w.events = v.events ++ late ∧ ∀ ev ∈ late, ev.st.ok = false := by
  have hsame : ∃ late, v.events = v.events ++ late ∧ ∀ ev ∈ late, ev.st.ok = false :=
    ⟨[], by simp, by simp⟩
  -- a rule that needs reads to go on does not apply
  have hgoes : ∀ {k first}, v.call = some k → v.ctx = some (.stream first) →
      k.readFinished ≠ false := by
    intro k first hc hctx hfin
    rcases (h.kept k hc).2 with hfin' | ⟨hn, -⟩
    · rw [hfin] at hfin'
      cases hfin'
    · rw [hctx] at hn
      cases hn
  have htakes : ∀ {k}, v.call = some k → k.decoder.hasMessage = true → k.readFinished = true := by
    intro k hc hm
    rcases (h.kept k hc).2 with hfin | ⟨-, -, hm'⟩
    · exact hfin
    · rw [hm] at hm'
      cases hm'
  cases hs with
  | quiet => exact ⟨h, hsame⟩
  | badHeaders ho | created ho | createdStream ho =>
      rw [h.opened] at ho
      cases ho
  | fed hc hdone | rejected hc hdone =>
      refine ⟨⟨h.opened, ?_, nofun⟩, hsame⟩
      rintro _ ⟨⟩
      obtain ⟨hf, hfin | ⟨-, hdone', -⟩⟩ := h.kept _ hc
      · exact ⟨hf, .inl hfin⟩
      · rw [hdone] at hdone'
        cases hdone'
  | first hc _ _ hm | dropped hc _ hm | overrunLate hc _ hm =>
      have hfin := htakes hc hm
      refine ⟨⟨h.opened, ?_, nofun⟩, hsame⟩
      rintro _ ⟨⟩
      exact ⟨(h.kept _ hc).1, .inl hfin⟩
  | handed hc _ hm hr =>
      rw [htakes hc hm] at hr
      cases hr
  | stored hc _ _ hm hr =>
      rw [htakes hc hm] at hr
      cases hr
  | overrun hc | eosUnarmed hc | finished hc | cancelled _ hc =>
      refine ⟨⟨h.opened, ?_, nofun⟩, hsame⟩
      rintro _ ⟨⟩
      exact ⟨(h.kept _ hc).1, .inl rfl⟩
  | calledUnary hc _ hu => exact absurd hu (h.kept _ hc).1
  | ended hc hctx hm =>
      refine ⟨⟨h.opened, ?_, nofun⟩, hsame⟩
      rintro _ ⟨⟩
      obtain ⟨hf, hfin | ⟨hn, -, hm'⟩⟩ := h.kept _ hc
      · exact ⟨hf, .inl hfin⟩
      · exact ⟨hf, .inr ⟨hn, rfl, hm'⟩⟩
  | eosArmed hc hf hdisp hr =>
      rcases (h.kept _ hc).2 with hfin | ⟨hn, -⟩
      · rw [hfin] at hr
        cases hr
      · exact absurd hn (hv.running _ hc hf hdisp)
  | readClosed => exact ⟨⟨h.opened, h.kept, h.gone⟩, _, rfl, by simp [streamClosed, Status.ok]⟩
  | readFirst hc hctx _ hr => exact absurd hr (hgoes hc hctx)
  | readPending hc hctx _ hr => exact absurd hr (hgoes hc hctx)
  | readEos hc hctx hr => exact absurd hr (hgoes hc hctx)
  | readArm hc hctx hr => exact absurd hr (hgoes hc hctx)
  | readConcurrent => exact ⟨⟨h.opened, h.kept, h.gone⟩, _, rfl, by simp [Status.ok]⟩
  | respondedUnary hc | deadline hc =>
      have hk := h.kept _ hc
      refine ⟨⟨h.opened, ?_, nofun⟩, hsame⟩
      rintro _ ⟨⟩
      exact hk
  | cancelArmed _ hc =>
      refine ⟨⟨h.opened, ?_, nofun⟩, _, rfl, by simp [streamCancelled, Status.ok]⟩
      rintro _ ⟨⟩
      exact ⟨(h.kept _ hc).1, .inl rfl⟩
  | erase => exact ⟨⟨h.opened, fun _ hk => (by cases hk), fun _ => rfl⟩, hsame⟩

theorem shut_again (h : v.Shut) (ha : Again v w) : w.Shut ∧ w.events = v.events := by
  cases ha with
  | same => exact ⟨h, rfl⟩
  | refused hc =>
      have hk := h.kept _ hc
      refine ⟨⟨h.opened, ?_, nofun⟩, rfl⟩
      rintro _ ⟨⟩
      exact hk

end Reader

/-! ## Runs -/

theorem stillReading_eq_false {s : State} (h : stillReading s = false) (k : Asked)
    (hk : (reader s).call = some k) (hf : k.form ≠ .unary) (hr : k.responded = false) :
    k.readFinished = true := by
  obtain ⟨call, hc, rfl⟩ := Option.map_eq_some_iff.mp hk
  have hf : call.form ≠ .unary := hf
  have hr : call.responded = false := hr
  have h : call.readFinished = true := by simpa [stillReading, hc, hf, hr] using h
  exact h

theorem closing_reach {cfg : Config} {ok : Conf → Label → Prop} {c : Conf}
    (hplain : ∀ c l, ok c l → trailersPlain c l) (h : (machine cfg).Reach ok fresh c) :
    Closing c :=
  h.inv (I := Closing) closing_fresh fun _ _ _ hc hok hs => closing_step hc (hplain _ _ hok) hs

theorem decided_reach {cfg : Config} {c : Conf} (h : (machine cfg).Reach closesReads fresh c) :
    (reader c.st).Decided := by
  refine (h.inv (I := fun c => Closing c ∧ (reader c.st).Decided)
    ⟨closing_fresh, by simp [Reader.Decided, reader, fresh]⟩ ?_).2
  rintro c l d ⟨hc, hdec⟩ ⟨hplain, hreads⟩ hs
  refine ⟨closing_step hc hplain hs, ?_⟩
  have hfits := Reader.fits_of_dispatched hc.dispatched
  rcases views_step_or_again hc.dispatched hplain hs with
    ⟨t, ht, -, hr⟩ | ⟨⟨fields, e, rfl, ho, -⟩, -, hr⟩
  · refine Reader.decided_step hfits hdec (fun hanswer => ?_) hr
    refine stillReading_eq_false (hreads ?_)
    rcases hanswer with rfl | ⟨chunk, rfl⟩
    · cases triggers_of_trigger ht with
      | frame hf => simp [answersAside, hf]
    · cases triggers_of_trigger ht with
      | violation hrej => exact hrej
  · exact Reader.decided_again hdec (stillReading_eq_false (hreads ho)) hr

/-- What is kept after the terminal status: the reads have ended, the call is answered, and the
    reads answered since `c` were refused. -/
structure After (c d : Conf) : Prop where
  closing : Closing d
  shut : (reader d.st).Shut
  answered : (Writer.of d).Answered
  late : ∃ late, reads d.st.log = reads c.st.log ++ late ∧ ∀ ev ∈ late, ev.st.ok = false
  accepted : d.st.accepted = c.st.accepted
  balance : ∀ cb, balance (.read cb) c.st c.frames ≤ balance (.read cb) d.st d.frames

/-- An erased call has no read armed. -/
theorem Closing.held_read {s : State} {fs : List Frame} {cb : CbId}
    (h : Closing ⟨s, .closeErase :: fs⟩) :
    (s.call.toList.flatMap Call.held).count (.read cb) = 0 := by
  have hsealed := h.shut (h.closed List.mem_cons_self)
  cases hc : s.call with
  | none => rfl
  | some k =>
      have hk : k.readCb = none := (hsealed.shut k.asked (Reader.reader_call hc)).2
      simp [Call.held, hk, count_read_queueTokens]

theorem after_step {cfg : Config} {c d e : Conf} {l : Label} (h : After c d)
    (hl : trailersPlain d l) (hs : (machine cfg).step d l = some e) : After c e := by
  have hbal : ∀ cb, balance (.read cb) c.st c.frames ≤ balance (.read cb) e.st e.frames := by
    intro cb
    have := balance_step (t := .read cb) hs fun fs _ hf => by
      have hclosing : Closing ⟨d.st, .closeErase :: fs⟩ := hf ▸ h.closing
      exact hclosing.held_read
    have := h.balance cb
    omega
  obtain ⟨late, hlate, hrefused⟩ := h.late
  rcases views_step_or_again h.closing.dispatched hl hs with ⟨t, -, hw, hr⟩ | ⟨-, hw, hr⟩
  · obtain ⟨hshut, new, hnew, hok⟩ :=
      Reader.shut_step (Reader.fits_of_dispatched h.closing.dispatched) h.shut hr
    refine ⟨closing_step h.closing hl hs, hshut, Writer.answered_step h.answered hw,
      ⟨late ++ new, ?_, ?_⟩, (h.answered.accepted hw).trans h.accepted, hbal⟩
    · have hnew : reads e.st.log = reads d.st.log ++ new := hnew
      rw [hnew, hlate, List.append_assoc]
    · intro ev hev
      rcases List.mem_append.mp hev with hev | hev
      · exact hrefused ev hev
      · exact hok ev hev
  · obtain ⟨hshut, hnew⟩ := Reader.shut_again h.shut hr
    exact ⟨closing_step h.closing hl hs, hshut, Writer.answered_again h.answered hw,
      ⟨late, hnew.trans hlate, hrefused⟩, (Writer.accepted_again hw).trans h.accepted, hbal⟩

/-! ## The result -/

/-- `ReadMessage` of a call whose reads have ended is refused at once. -/
theorem readMessage_refused {cfg : Config} {d e : Conf} {cb : CbId} (h : (reader d.st).Shut)
    (hs : (machine cfg).step d (.event (.op (.readMessage cb))) = some e) :
    ∃ st eos, st.ok = false ∧ e.st.log = d.st.log ++ [.read cb st eos []] := by
  obtain ⟨-, s, gs, hfire, rfl⟩ := Resume.System.step_event hs
  have hfire : applyOp d.st (.readMessage cb) = some (s, gs) := hfire
  simp only [applyOp] at hfire
  split at hfire
  · next first hctx =>
      cases hfire
      cases hc : d.st.call with
      | none =>
          have hnone : d.st.ctx = none := h.gone (by simp [reader, hc])
          rw [hctx] at hnone
          cases hnone
      | some k =>
          have hfin : k.readFinished = true := by
            rcases (h.kept k.asked (Reader.reader_call hc)).2 with hfin | ⟨hnone, -⟩
            · exact hfin
            · have hnone : d.st.ctx = none := hnone
              rw [hctx] at hnone
              cases hnone
          refine ⟨streamClosed, k.requestHalfClosed, rfl, ?_⟩
          simp [readMessage, hc, hfin, State.note]
  · cases hfire

/-- `WriteMessage` of an answered call is refused at once. -/
theorem writeMessage_refused {cfg : Config} {d e : Conf} {msg : Bytes} {cb : Option CbId}
    (h : (Writer.of d).Answered)
    (hs : (machine cfg).step d (.event (.op (.writeMessage msg cb))) = some e) :
    e.st.h2 = d.st.h2 ∧ e.st.accepted = d.st.accepted ∧
      ∀ id, cb = some id → ∃ st, st.ok = false ∧ e.st.log = d.st.log ++ [.wrote id st] := by
  obtain ⟨-, s, gs, hfire, rfl⟩ := Resume.System.step_event hs
  have hfire : applyOp d.st (.writeMessage msg cb) = some (s, gs) := hfire
  have htell : ∀ st : Status, st.ok = false → (tellWriter d.st cb st).h2 = d.st.h2 ∧
      (tellWriter d.st cb st).accepted = d.st.accepted ∧
      ∀ id, cb = some id → ∃ told, told.ok = false ∧
        (tellWriter d.st cb st).log = d.st.log ++ [.wrote id told] := by
    intro st hst
    cases cb with
    | none => exact ⟨rfl, rfl, nofun⟩
    | some cb =>
        refine ⟨rfl, rfl, ?_⟩
        rintro _ ⟨⟩
        exact ⟨st, hst, rfl⟩
  simp only [applyOp] at hfire
  split at hfire
  · cases hc : d.st.call with
    | none =>
        simp only [writeMessage, hc, Option.some.injEq] at hfire
        cases hfire
        exact htell streamClosed rfl
    | some k =>
        have hr : k.responded = true :=
          h.ended k.toWriteSide (congrArg (Option.map Call.toWriteSide) hc)
        simp only [writeMessage, hc, hr, Bool.true_or, if_true, Option.some.injEq] at hfire
        cases hfire
        exact htell ⟨.internal, str "stream finished"⟩ rfl
  · cases hfire

/-- The callback of a read is called no other way than by an entry of the log. -/
theorem mem_told_read {log : List Obs} {cb : CbId} (h : .read cb ∈ told log) :
    ∃ st eos msg, .read cb st eos msg ∈ log := by
  obtain ⟨o, ho, htok⟩ := List.mem_filterMap.mp h
  cases o with
  | read cb' st eos msg =>
      cases htok
      exact ⟨st, eos, msg, ho⟩
  | unary | stream | wrote | cancelled => cases htok

theorem balance_read (cb : CbId) (s : State) (fs : List Frame) :
    balance (.read cb) s fs = (told s.log).count (.read cb) +
      (s.call.toList.flatMap Call.held).count (.read cb) := by
  have hframes : (fs.flatMap Frame.held).count (.read cb) = 0 := by
    rw [List.count_eq_zero]
    simp only [List.mem_flatMap, not_exists, not_and]
    intro f _
    cases f <;> simp [Frame.held, writeToken]
  have hweight : noteWeight (.read cb) = fun _ => 0 := by
    funext n
    cases n <;> rfl
  have hsession : s.h2.carried (noteWeight (.read cb)) = 0 := by
    rw [hweight, Sender.carried_zero]
  simp only [balance, hframes, hsession, Nat.add_zero]

/-- **Terminal means terminal.** A streaming call has been answered in `c`. In every run on from
    there, whose steps answer no call that still reads: every read answered since is refused; an
    armed read still waits or has been refused; `ReadMessage` and `WriteMessage` are refused at
    once; no message has been accepted. -/
theorem terminal_is_final (cfg : Config) (c d : Conf) (k : Call)
    (hc : (machine cfg).Reach closesReads fresh c) (hk : c.st.call = some k)
    (hform : k.form ≠ .unary) (hdecided : k.responded = true)
    (hd : (machine cfg).Reach closesReads c d) :
    ∃ late, d.st.log = c.st.log ++ late ∧
      (∀ cb st eos msg, .read cb st eos msg ∈ late → st.ok = false) ∧
      (∀ cb, k.readCb = some cb → (∃ k', d.st.call = some k' ∧ k'.readCb = some cb) ∨
        ∃ st eos msg, .read cb st eos msg ∈ late) ∧
      (∀ cb e, (machine cfg).step d (.event (.op (.readMessage cb))) = some e →
        ∃ st eos, st.ok = false ∧ e.st.log = d.st.log ++ [.read cb st eos []]) ∧
      (∀ msg cb e, (machine cfg).step d (.event (.op (.writeMessage msg cb))) = some e →
        e.st.h2 = d.st.h2 ∧ e.st.accepted = d.st.accepted ∧
        ∀ id, cb = some id → ∃ st, st.ok = false ∧ e.st.log = d.st.log ++ [.wrote id st]) ∧
      d.st.accepted = c.st.accepted := by
  have hclosing := closing_reach (fun _ _ h => h.1) hc
  have hopen : c.st.opened = true := by
    have hnot := Writer.Dispatched.opened hclosing.dispatched
      (k := k.toWriteSide) (congrArg (Option.map Call.toWriteSide) hk)
    simpa [Writer.of, writer] using hnot
  have hstart : After c c := by
    refine ⟨hclosing, ⟨hopen, ?_, ?_⟩, ⟨hopen, ?_⟩, ⟨[], by simp, by simp⟩, rfl,
      fun _ => Nat.le_refl _⟩
    · intro k' hk'
      rw [Reader.reader_call hk] at hk'
      cases hk'
      exact ⟨hform, decided_reach hc k.asked (Reader.reader_call hk) hform hdecided⟩
    · simp [reader, hk]
    · intro k' hk'
      have hk' : c.st.call.map Call.toWriteSide = some k' := hk'
      rw [hk] at hk'
      cases hk'
      exact hdecided
  have hafter : After c d :=
    hd.inv (I := After c) hstart fun _ _ _ h hok hs => after_step h hok.1 hs
  obtain ⟨late, hlate⟩ := log_reach hd
  obtain ⟨refused, hreads, hrefused⟩ := hafter.late
  have hlatereads : reads late = refused := by
    rw [← hlate] at hreads
    simpa [reads] using hreads
  refine ⟨late, hlate.symm, ?_, ?_, fun cb e => readMessage_refused hafter.shut,
    fun msg cb e => writeMessage_refused hafter.answered, hafter.accepted⟩
  · intro cb st eos msg hmem
    refine hrefused ⟨st, eos, msg⟩ ?_
    rw [← hlatereads]
    exact List.mem_filterMap.mpr ⟨_, hmem, rfl⟩
  · intro cb hcb
    have hbal := hafter.balance cb
    rw [balance_read, balance_read, ← hlate, hk] at hbal
    have htold : told (c.st.log ++ late) = told c.st.log ++ told late := by
      simp [told]
    rw [htold, List.count_append] at hbal
    have harmed : 0 < ([k].flatMap Call.held).count (.read cb) := by
      simp [Call.held, hcb]
    simp only [Option.toList_some] at hbal
    by_cases hzero : (told late).count (.read cb) = 0
    · left
      have hpos : 0 < (d.st.call.toList.flatMap Call.held).count (.read cb) := by omega
      obtain ⟨k', hk', hmem⟩ := List.mem_flatMap.mp (List.count_pos_iff.mp hpos)
      refine ⟨k', by simpa using hk', ?_⟩
      simpa [Call.held, queueTokens, writeToken] using hmem
    · right
      exact mem_told_read (List.count_pos_iff.mp (by omega))

/-- A handler that waits for a message finishes; then a message arrives and the stream closes. -/
theorem terminal_is_final_finish :
    ∃ c d k, (machine demo).Reach closesReads fresh c ∧ c.st.call = some k ∧
      k.readCb = some 1 ∧ k.responded = true ∧ (machine demo).Reach closesReads c d ∧
      d.st.recv = encodeFrame [7] ∧ d.st.call = none ∧
      ∃ late, d.st.log = c.st.log ++ late ∧
        ∃ st eos msg, .read 1 st eos msg ∈ late ∧ st.ok = false := by
  obtain ⟨c, hc, d, hd, hfacts⟩ : ∃ c, (machine demo).run closesReads fresh
      (openBidi ++ [.event (.op (.readMessage 1)), .event (.op (.finish .okay))]) = some c ∧
      ∃ d, (machine demo).run closesReads c [.event (.data (encodeFrame [7]) false), .resume,
        .resume, .event .streamClose, .resume, .resume, .resume] = some d ∧
      (∃ k, c.st.call = some k ∧ k.readCb = some 1 ∧ k.form = .bidi ∧ k.responded = true) ∧
      d.st.recv = encodeFrame [7] ∧ d.st.call = none :=
    ⟨_, rfl, _, rfl, ⟨_, rfl, rfl, rfl, rfl⟩, rfl, rfl⟩
  obtain ⟨⟨k, hk, hcb, hform, hdecided⟩, hrecv, hgone⟩ := hfacts
  have hrc := Resume.System.reach_of_run _ _ _ hc
  have hrd := Resume.System.reach_of_run _ _ _ hd
  obtain ⟨late, hlate, hrefused, harmed, -⟩ :=
    terminal_is_final demo c d k hrc hk (by rw [hform]; simp) hdecided hrd
  refine ⟨c, d, k, hrc, hk, hcb, hdecided, hrd, hrecv, hgone, late, hlate, ?_⟩
  rcases harmed 1 hcb with ⟨k', hk', -⟩ | ⟨st, eos, msg, hmem⟩
  · rw [hgone] at hk'
    cases hk'
  · exact ⟨st, eos, msg, hmem, hrefused 1 st eos msg hmem⟩

/-- A message is queued when the deadline answers the call; a later `ReadMessage` gets it with
    status OK. -/
theorem deadline_keeps_reading :
    ∃ c d k, (machine demo).Reach trailersPlain fresh c ∧ c.st.call = some k ∧
      k.form = .bidi ∧ k.responded = true ∧
      terminals c.st.h2.subs = [.headers (trailersOnlyFields deadlineExceeded) true] ∧
      (machine demo).Reach trailersPlain c d ∧
      d.st.log = c.st.log ++ [.read 1 .okay false [7]] := by
  obtain ⟨c, hc, d, hd, hfacts⟩ : ∃ c, (machine demo).run trailersPlain fresh
      [.event (.headers (("grpc-timeout", str "1S") :: demoHeaders "/t/B") false), .resume,
        .event (.data (encodeFrame [7]) false), .resume, .resume,
        .event (.deadline 1), .resume] = some c ∧
      ∃ d, (machine demo).run trailersPlain c [.event (.op (.readMessage 1))] = some d ∧
      (∃ k, c.st.call = some k ∧ k.form = .bidi ∧ k.responded = true) ∧
      terminals c.st.h2.subs = [.headers (trailersOnlyFields deadlineExceeded) true] ∧
      d.st.log = c.st.log ++ [.read 1 .okay false [7]] :=
    ⟨_, rfl, _, rfl, ⟨_, rfl, rfl, rfl⟩, rfl, rfl⟩
  obtain ⟨⟨k, hk, hform, hdecided⟩, hterm, hlog⟩ := hfacts
  exact ⟨c, d, k, Resume.System.reach_of_run _ _ _ hc, hk, hform, hdecided, hterm,
    Resume.System.reach_of_run _ _ _ hd, hlog⟩

end Urpc.Server
