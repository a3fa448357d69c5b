/-
  Do request trailers only end the request?

  The session reports a trailing HEADERS block as it reports the first one, and `OnHeadersComplete`
  does not ask whether the stream is known. A block without `:path` is answered `bad request
  headers`: with a second terminal block if there is no call, with a first one if the call has not
  been answered, and else with nothing. `FinishRequest` is never called. A block without fields is
  not reported at all.

  Proved: `unended_step`, `request_trailers_only_end_iff`.
-/
import Urpc.Server.Blocks
import Urpc.Server.HalfClose
import Urpc.Server.UnaryRequest
import Urpc.Server.Unread

namespace Urpc.Server

open Cxx FrameDecoder

/-- One header block, and no END_STREAM so far. -/
def requestOpen (c : Conf) : Label → Prop
  | .event (.headers _ endStream) => c.st.opened = false ∧ endStream = false
  | .event (.data _ endStream) => endStream = false
  | _ => True

instance (c : Conf) : (l : Label) → Decidable (requestOpen c l)
  | .event (.headers ..) => inferInstanceAs (Decidable (_ ∧ _))
  | .event (.data _ endStream) => inferInstanceAs (Decidable (endStream = false))
  | .event (.deadline _) | .event .pump | .event .connectionLost | .event .streamClose
  | .event (.credit _) | .event .consumed | .event (.op _) | .resume => .isTrue trivial

theorem requestOpen.one {c : Conf} {l : Label} (h : requestOpen c l) : oneBlock c l := by
  cases l with
  | resume => trivial
  | event e =>
      cases e with
      | headers => exact h.1
      | _ => trivial

/-- A trailing HEADERS block with END_STREAM. The session has nothing to report if it has no
    fields (`pending_headers`). -/
def endByTrailers (cfg : Config) (c : Conf) (fields : HeaderMap) : Option Conf :=
  if fields.isEmpty then some c else (machine cfg).step c (.event (.headers fields true))

/-- What the handler has been told and what was submitted. -/
def shown (c : Conf) : List Obs × List Submission := (c.st.log, c.st.h2.subs)

/-- The trailers have led to `d₁`, an empty DATA frame would have led to `d₂`: nobody can tell
    whatever comes later, and a stream without a call has got no further terminal block. -/
structure OnlyEnds (cfg : Config) (c d₁ d₂ : Conf) : Prop where
  same : ∀ ls, ((machine cfg).run requestOver d₁ ls).map shown =
    ((machine cfg).run requestOver d₂ ls).map shown
  once : c.st.call = none → terminals d₁.st.h2.subs = terminals c.st.h2.subs

/-- The call has been answered and END_STREAM finds nothing to do: the method is unknown, or no
    handler runs and there is no message, or a second message stops `OnData`. -/
def Call.idle (k : Call) : Bool :=
  k.responded && (!k.hasHandler || !k.dispatched && !k.decoder.hasMessage ||
    k.form == .serverStreaming && k.dispatched && k.decoder.hasMessage)

/-- Without a call the block must be empty. -/
def nothingToEnd (s : State) (fields : HeaderMap) : Bool :=
  match s.call with
  | none => fields.isEmpty
  | some k => k.idle

/-! ## Before the end -/

namespace Reader

variable {max : Nat} {t : Trigger} {v w : Reader}

/-- The request has not ended, and no message of a unary call was taken. -/
def Asked.Open (k : Asked) : Prop :=
  k.requestDone = false ∧ k.requestHalfClosed = false ∧
    (k.form = .unary → k.decoder.messageCount = 0)

theorem open_step (hctx : ∀ first k, v.ctx = some (.stream first) → v.call = some k →
      k.form ≠ .unary) (hv : ∀ k, v.call = some k → Asked.Open k) (ht : t.endsRequest = false)
    (h : Step max t v w) : ∀ k, w.call = some k → Asked.Open k := by
  cases h with
  | quiet | badHeaders | readClosed | readFirst | readConcurrent => exact hv
  | created | createdStream =>
      rintro _ ⟨⟩
      exact ⟨rfl, rfl, fun _ => rfl⟩
  | fed hc | rejected hc =>
      obtain ⟨hdone, hhalf, hcount⟩ := hv _ hc
      rintro _ ⟨⟩
      exact ⟨hdone, hhalf, fun hf => (drained_messageCount _).trans (hcount hf)⟩
  | first hc _ hf _ hkeep =>
      obtain ⟨hdone, hhalf, -⟩ := hv _ hc
      rcases hkeep with hends | ⟨rfl, rfl⟩
      · cases ht.symm.trans hends
      · rintro _ ⟨⟩
        exact ⟨hdone, hhalf, fun hu => by cases hf.symm.trans hu⟩
  | handed hc hf | stored hc _ hf =>
      obtain ⟨hdone, hhalf, -⟩ := hv _ hc
      rintro _ ⟨⟩
      exact ⟨hdone, hhalf, fun hu => absurd hu hf⟩
  | dropped hc hx | overrun hc hx | overrunLate hc hx =>
      obtain ⟨hdone, hhalf, -⟩ := hv _ hc
      have hf := hctx _ _ hx hc
      rintro _ ⟨⟩
      exact ⟨hdone, hhalf, fun hu => absurd hu hf⟩
  | calledUnary _ _ _ _ hends | ended _ _ _ hends | eosUnarmed _ _ _ _ hends =>
      cases ht.symm.trans hends
  | eosArmed _ _ _ _ _ _ hfin =>
      cases ht.symm.trans (Trigger.endsRequest_of_finishesRequest hfin)
  | readPending hc | readEos hc | readArm hc | finished hc | respondedUnary hc | deadline hc
  | cancelArmed _ hc | cancelled _ hc =>
      obtain ⟨hdone, hhalf, hcount⟩ := hv _ hc
      rintro _ ⟨⟩
      exact ⟨hdone, hhalf, hcount⟩
  | erase => exact fun _ hk => by cases hk

/-- A streaming call that has not been answered has a message to hand on. -/
def Asked.Owes (k : Asked) : Prop :=
  k.form ≠ .unary ∧ k.responded = false ∧ k.decoder.hasMessage = true

/-- Messages come with DATA only. -/
theorem owes_step (ht : t.endsRequest = false) (hdata : ∀ chunk e, t ≠ .event (.data chunk e))
    (h : Step max t v w) {k' : Asked} (hk' : w.call = some k') (ho : Asked.Owes k') :
    ∃ k, v.call = some k ∧ Asked.Owes k := by
  obtain ⟨hf, hr, hm⟩ := ho
  have htake : ∀ k : Asked, k.take.decoder.hasMessage = true → k.decoder.hasMessage = true := by
    intro k hk
    cases hms : k.decoder.messages with
    | nil => simp [Asked.take, FrameDecoder.takeMessage, hasMessage, hms] at hk
    | cons => simp [hasMessage, hms]
  cases h with
  | quiet | badHeaders | readClosed | readFirst | readConcurrent => exact ⟨k', hk', hf, hr, hm⟩
  | created | createdStream =>
      cases hk'
      cases hm
  | fed => exact absurd rfl (hdata _ _)
  | rejected | overrun | finished | respondedUnary | deadline =>
      cases hk'
      cases hr
  | first hc | handed hc | stored hc | dropped hc | overrunLate hc =>
      cases hk'
      exact ⟨_, hc, hf, hr, htake _ hm⟩
  | calledUnary _ _ _ _ hends | ended _ _ _ hends | eosUnarmed _ _ _ _ hends =>
      cases ht.symm.trans hends
  | eosArmed _ _ _ _ _ _ hfin =>
      cases ht.symm.trans (Trigger.endsRequest_of_finishesRequest hfin)
  | readPending hc | readEos hc | readArm hc | cancelArmed _ hc | cancelled _ hc =>
      cases hk'
      exact ⟨_, hc, hf, hr, hm⟩
  | erase => cases hk'

end Reader

section Runs

variable {cfg : Config} {c d : Conf} {l : Label} {k : Call}

/-- No END_STREAM so far; whoever still owes a message is in the message loop of `OnData`. -/
structure Unended (c : Conf) : Prop where
  sound : Writer.Sound (.of c)
  frames : ∀ f ∈ c.frames, f.endsRequest = false
  call : ∀ k, (reader c.st).call = some k → Reader.Asked.Open k
  owes : ∀ k, (reader c.st).call = some k → Reader.Asked.Owes k → ∃ e, .onDataRest e ∈ c.frames

theorem responded_finishStream {s : State} {st : Status} :
    ∀ k, (finishStream s st).call = some k → k.responded = true := by
  intro k' hk'
  cases hc : s.call with
  | none => simp [finishStream, hc] at hk'
  | some k =>
      simp only [finishStream, hc, stopDeadline, State.setCall, sendTrailersOnly,
        State.sendHeaders, State.sendTrailers] at hk'
      split at hk'
      · next hr =>
          cases hc.symm.trans hk'
          exact hr
      · split at hk'
        · cases hk'
          rfl
        · split at hk' <;> cases hk' <;> rfl

theorem endsRequest_of_receives {f : Frame} (h : f.receives = false) : f.endsRequest = false := by
  cases f <;> first | rfl | cases h

theorem endsRequest_exec {f : Frame} (hf : f.endsRequest = false) (s : State) :
    ∀ g ∈ (exec f s).2, g.endsRequest = false := by
  cases f with
  | onHeadersRest e => exact nofun
  | onDataRest e =>
      cases hf
      simp only [exec, onDataRest]
      repeat' split
      all_goals simp [Frame.endsRequest]
  | _ => exact fun g hg => endsRequest_of_receives (receives_exec rfl s g hg)

/-- `OnData` goes on to its loop, or does nothing, or has marked the call. -/
theorem onData_cases (s : State) (chunk : Bytes) (e : Bool) :
    (onData s chunk e).2 = [.onDataRest e] ∨ (onData s chunk e).2 = [] ∧
      ((onData s chunk e).1 = s ∨ ∀ k, (onData s chunk e).1.call = some k → k.responded = true) := by
  cases hc : s.call with
  | none => simp [onData, hc]
  | some k =>
      by_cases hdone : k.requestDone = true
      · simp [onData, hc, hdone]
      · generalize hr : (if chunk.isEmpty then (Status.okay, k.decoder)
          else k.decoder.consume chunk) = r
        cases hok : r.1.ok with
        | true =>
            left
            simp only [onData, hc, hdone, hr, hok, Bool.false_eq_true, if_false, Bool.not_true]
        | false =>
            right
            simp only [onData, hc, hdone, hr, hok, Bool.false_eq_true, if_false, Bool.not_false,
              if_true, true_and]
            right
            intro k' hk'
            simp only [respondError, State.setCall, trailersOnly, stopDeadline] at hk'
            split at hk'
            · next hresp =>
                cases hk'
                exact hresp
            · cases hk'
              rfl

theorem endsRequest_fire {e : Event} (he : requestOpen c (.event e)) {s : State}
    {r : State × List Frame} (hr : fire cfg e s = some r) : ∀ g ∈ r.2, g.endsRequest = false := by
  cases e with
  | headers fields e =>
      obtain ⟨-, rfl⟩ := he
      simp only [fire, onHeadersComplete] at hr
      repeat' split at hr
      all_goals cases hr
      all_goals simp [Frame.endsRequest]
  | data chunk e =>
      obtain rfl : e = false := he
      simp only [fire] at hr
      split at hr <;> cases hr
      rcases onData_cases s chunk false with h | ⟨h, -⟩ <;> simp [h, Frame.endsRequest]
  | _ =>
      refine fun g hg => endsRequest_of_receives (receives_fire (c := c) ?_ hr g hg)
      trivial

/-- Whoever still owes a message after a trip round the loop goes round again. -/
theorem owes_onDataRest {s : State} {fs : List Frame} {k' : Asked}
    (hk' : (reader (exec (.onDataRest false) s).1).call = some k') (ho : Reader.Asked.Owes k') :
    ∃ e, .onDataRest e ∈ (exec (.onDataRest false) s).2 ++ fs := by
  cases hc : s.call with
  | none => simp [exec, onDataRest, hc, reader] at hk'
  | some k =>
      by_cases hloop : k.form ≠ .unary ∧ k.decoder.hasMessage = true
      · by_cases hmany : k.form = .serverStreaming ∧ k.dispatched = true
        · have hexec : exec (.onDataRest false) s =
              (finishStream (s.setCall { k with decoder := k.decoder.takeMessage.2 })
                multipleRequests, []) := by
            simp [exec, onDataRest, hc, hloop, hmany]
          rw [hexec] at hk'
          obtain ⟨call, hc', rfl⟩ := Option.map_eq_some_iff.mp hk'
          cases ho.2.1.symm.trans (responded_finishStream call hc')
        · refine ⟨false, List.mem_append_left _ ?_⟩
          simp only [exec, onDataRest, hc, if_pos hloop]
          split
          · next hss =>
              rw [if_neg (fun hd => hmany ⟨hss, hd⟩)]
              exact .head _
          · exact .head _
      · have hexec : exec (.onDataRest false) s = (s, []) := by
          simp only [exec, onDataRest, hc, if_neg hloop, Bool.false_eq_true, if_false]
        rw [hexec] at hk'
        cases (Reader.reader_call hc).symm.trans hk'
        exact absurd ⟨ho.1, ho.2.2⟩ hloop

theorem trigger_endsRequest (h : Unended c) {t : Trigger} (ht : trigger c l = some t) :
    t.endsRequest = false := by
  cases triggers_of_trigger ht with
  | frame hf => exact h.frames _ (by rw [hf]; exact .head _)
  | _ => rfl

theorem unended_step (h : Unended c) (hl : requestOpen c l)
    (hstep : (machine cfg).step c l = some d) : Unended d := by
  obtain ⟨t, ht, hw⟩ := writer_step h.sound.dispatched hl.one hstep
  obtain ⟨t', ht', hr⟩ := reader_step h.sound.dispatched hl.one hstep
  obtain rfl : t = t' := Option.some.inj (ht.symm.trans ht')
  have hends := trigger_endsRequest h ht
  have hctx : ∀ first k, (reader c.st).ctx = some (.stream first) → (reader c.st).call = some k →
      k.form ≠ .unary := by
    intro first k hx hk
    obtain ⟨call, hc, rfl⟩ := Option.map_eq_some_iff.mp hk
    exact Reader.stream_form h.sound.dispatched hc hx
  refine ⟨Writer.sound_step h.sound hw, ?_, Reader.open_step hctx h.call hends hr, ?_⟩
  · cases l with
    | resume =>
        obtain ⟨f, fs, hf, rfl⟩ := Resume.System.step_resume hstep
        intro g hg
        rcases List.mem_append.mp hg with hg | hg
        · exact endsRequest_exec (h.frames f (by rw [hf]; exact .head _)) c.st g hg
        · exact h.frames g (by rw [hf]; exact .tail _ hg)
    | event e =>
        obtain ⟨-, s, gs, hfire, rfl⟩ := Resume.System.step_event hstep
        intro g hg
        rcases List.mem_append.mp hg with hg | hg
        · exact endsRequest_fire hl hfire g hg
        · exact h.frames g hg
  · intro k' hk' ho
    cases l with
    | resume =>
        obtain ⟨f, fs, hf, rfl⟩ := Resume.System.step_resume hstep
        by_cases hloop : ∃ e, f = .onDataRest e
        · obtain ⟨e, rfl⟩ := hloop
          obtain rfl : e = false := h.frames (.onDataRest e) (by rw [hf]; exact .head _)
          exact owes_onDataRest hk' ho
        · have hdata : ∀ chunk e, t ≠ .event (.data chunk e) := by
            rintro chunk e rfl
            cases triggers_of_trigger ht
          obtain ⟨k, hk, hok⟩ := Reader.owes_step hends hdata hr hk' ho
          obtain ⟨e, he⟩ := h.owes k hk hok
          rw [hf] at he
          rcases List.mem_cons.mp he with rfl | he
          · exact absurd ⟨e, rfl⟩ hloop
          · exact ⟨e, List.mem_append_right _ he⟩
    | event ev =>
        obtain ⟨-, s, gs, hfire, rfl⟩ := Resume.System.step_event hstep
        by_cases hdata : ∃ chunk e, ev = .data chunk e
        · obtain ⟨chunk, e, rfl⟩ := hdata
          simp only [machine, fire] at hfire
          split at hfire
          · have hfire := Option.some.inj hfire
            obtain ⟨rfl, rfl⟩ : s = (onData c.st chunk e).1 ∧ gs = (onData c.st chunk e).2 := by
              rw [hfire]
              exact ⟨rfl, rfl⟩
            rcases onData_cases c.st chunk e with hg | ⟨-, hsame | hmark⟩
            · exact ⟨e, by rw [hg]; exact .head _⟩
            · simp only [hsame] at hk'
              obtain ⟨e', he'⟩ := h.owes k' hk' ho
              exact ⟨e', List.mem_append_right _ he'⟩
            · obtain ⟨call, hc, rfl⟩ := Option.map_eq_some_iff.mp hk'
              cases ho.2.1.symm.trans (hmark call hc)
          · cases hfire
        · have hne : ∀ chunk e, t ≠ .event (.data chunk e) := by
            rintro chunk e rfl
            cases triggers_of_trigger ht with
            | event => exact hdata ⟨chunk, e, rfl⟩
          obtain ⟨k, hk, hok⟩ := Reader.owes_step hends hne hr hk' ho
          obtain ⟨e, he⟩ := h.owes k hk hok
          exact ⟨e, List.mem_append_right _ he⟩

theorem reach_unended (h : (machine cfg).Reach requestOpen fresh c) : Unended c := by
  refine h.inv (I := Unended) ⟨sound_fresh, fun _ hk => (by cases hk), fun _ hk => (by cases hk),
    fun _ hk => by cases hk⟩ ?_
  exact fun c l d => unended_step

/-! ## The end -/

/-- What END_STREAM has led to. -/
inductive Ended (s : State) (k : Call) (d : Conf) : Prop where
  | nothing (done half : Bool) (decoder : FrameDecoder) : k.idle = true →
      (s.ctx ≠ none → k.requestHalfClosed = half) → d = ⟨s.hide done half decoder, []⟩ →
      Ended s k d
  | refused (st : Status) : k.idle = false →
      trailersOnlyFields st ≠ trailersOnlyFields badRequestHeaders →
      d.st.h2.subs = s.h2.subs ++ [.headers (trailersOnlyFields st) true] → Ended s k d
  | told : k.idle = false → s.log <+: d.st.log → d.st.log ≠ s.log → Ended s k d
  | closed (first : Option Bytes) (k₂ : Call) : k.idle = false → s.ctx = some (.stream first) →
      d.st.ctx = s.ctx → d.st.call = some k₂ → k₂.requestHalfClosed = true →
      k₂.readFinished = true → s.log <+: d.st.log → Ended s k d

theorem onData_end {s : State} (hc : s.call = some k) (hdone : k.requestDone = false) :
    onData s [] true = (s, [.onDataRest true]) := by
  obtain ⟨_⟩ := s
  cases hc
  simp [onData, hdone, State.setCall]

theorem data_start (h : Unended c) (hdata : (machine cfg).step c (.event (.data [] true)) = some d) :
    c.frames = [] ∧ (c.st.call = none → d = c) ∧
      ∀ k, c.st.call = some k → d = ⟨c.st, [.onDataRest true]⟩ := by
  obtain ⟨hen, s, gs, hfire, rfl⟩ := Resume.System.step_event hdata
  obtain ⟨hfr, -⟩ := Resume.System.enabled_base rfl hen
  simp only [machine, fire] at hfire
  split at hfire
  · have hfire := Option.some.inj hfire
    refine ⟨hfr, fun hc => ?_, fun k hc => ?_⟩
    · simp only [onData, hc] at hfire
      cases hfire
      rfl
    · rw [onData_end hc (h.call _ (Reader.reader_call hc)).1] at hfire
      cases hfire
      rw [hfr]
      rfl
  · cases hfire

/-- The last trip of `OnData`. -/
theorem resumes_end {s : State} (hd : (machine cfg).Resumes ⟨s, [.onDataRest true]⟩ d)
    (hlast : (exec (.onDataRest true) s).2 = []) : d = ⟨(exec (.onDataRest true) s).1, []⟩ := by
  have hone := hd.resume rfl
  have hframes : ((machine cfg).exec (.onDataRest true) s).2 ++ ([] : List Frame) = [] := by
    rw [List.append_nil]
    exact hlast
  refine (hone.eq_of_nil hframes).trans ?_
  rw [hframes]
  rfl

theorem finishStream_call {s : State} (hc : s.call = some k) (st : Status) :
    ∃ k', (finishStream s st).call = some k' ∧ k'.toRouting = k.toRouting ∧
      k'.decoder = k.decoder ∧ (finishStream s st).ctx = s.ctx := by
  simp only [finishStream, hc]
  split
  · exact ⟨k, hc, rfl, rfl, rfl⟩
  · split
    · exact ⟨_, rfl, rfl, rfl, rfl⟩
    · split <;> exact ⟨_, rfl, rfl, rfl, rfl⟩

/-- `DeliverRead` of a message leaves the call, its decoder and its context. -/
theorem deliverRead_call {s : State} (hc : s.call = some k) (msg : Bytes) :
    ∃ k', (deliverRead s .okay false msg).call = some k' ∧ k'.toRouting = k.toRouting ∧
      k'.decoder = k.decoder ∧ (deliverRead s .okay false msg).ctx = s.ctx := by
  simp only [deliverRead, hc]
  split
  · exact ⟨k, hc, rfl, rfl, rfl⟩
  · simp only [Status.ok_okay, Bool.not_true, Bool.or_self, Bool.false_eq_true, if_false]
    split
    · exact ⟨_, rfl, rfl, rfl, rfl⟩
    · split
      · exact finishStream_call hc _
      · exact ⟨_, rfl, rfl, rfl, rfl⟩

theorem deliverRead_eos_call {s : State} (hc : s.call = some k)
    (hhalf : k.requestHalfClosed = true) :
    ∃ k', (deliverRead s .okay true []).call = some k' ∧ k'.requestHalfClosed = true ∧
      k'.readFinished = true ∧ (deliverRead s .okay true []).ctx = s.ctx := by
  simp only [deliverRead, hc]
  split
  · next hrf => exact ⟨k, hc, hhalf, hrf, rfl⟩
  · simp only [Bool.or_true, if_true]
    split <;> exact ⟨_, rfl, hhalf, rfl, rfl⟩

/-- The end of a call whose handler reads a stream, after the message loop. -/
theorem stream_end {s : State} (hc : s.call = some k) (hh : k.hasHandler = true)
    (hf : k.form ≠ .unary) (hdisp : k.dispatched = true) (hdone : k.requestDone = false)
    (hm : k.decoder.hasMessage = false)
    (hd : (machine cfg).Resumes ⟨s, [.onDataRest true]⟩ d) :
    ∃ k₂, d.st.call = some k₂ ∧ k₂.requestHalfClosed = true ∧ k₂.readFinished = true ∧
      d.st.ctx = s.ctx ∧ s.log <+: d.st.log := by
  have hexec : exec (.onDataRest true) s = (finishRequest s, []) := by
    simp [exec, onDataRest, hc, hm]
  have hgrows : s.log <+: (finishRequest s).log := by
    obtain ⟨os, hos, -⟩ := grows_finishRequest (s := s)
    exact ⟨os, hos.symm⟩
  rw [resumes_end hd (by rw [hexec]), hexec]
  obtain ⟨k₂, hk₂, hhalf, hrf, hctx⟩ :=
    deliverRead_eos_call (s := s.setCall { k with requestDone := true, requestHalfClosed := true })
      rfl rfl
  rw [← finishRequest_stream hc hh hf hdisp hdone] at hk₂ hctx
  exact ⟨k₂, hk₂, hhalf, hrf, hctx, hgrows⟩

/-- A client-streaming or bidi call: the messages left over are handed on, then the end. -/
theorem streams_end {s : State} {n : Nat} (hc : s.call = some k) (hh : k.hasHandler = true)
    (hs : k.streams) (hdisp : k.dispatched = true) (hdone : k.requestDone = false)
    (hn : k.decoder.messages.length = n)
    (hd : (machine cfg).Resumes ⟨s, [.onDataRest true]⟩ d) :
    ∃ k₂, d.st.call = some k₂ ∧ k₂.requestHalfClosed = true ∧ k₂.readFinished = true ∧
      d.st.ctx = s.ctx ∧ s.log <+: d.st.log := by
  induction n generalizing s k with
  | zero =>
      have hm : k.decoder.hasMessage = false := by
        rw [hasMessage, List.length_eq_zero_iff.mp hn]
        rfl
      exact stream_end hc hh hs.form_ne hdisp hdone hm hd
  | succ n ih =>
      have hm : k.decoder.hasMessage = true := by
        cases hms : k.decoder.messages with
        | nil => simp [hms] at hn
        | cons => simp [hasMessage, hms]
      have hne : k.form ≠ .serverStreaming := by rcases hs with h | h <;> simp [h]
      -- one trip: the message is taken and delivered, and the loop goes on
      let taken := s.setCall { k with decoder := k.decoder.takeMessage.2 }
      have hexec : exec (.onDataRest true) s =
          (deliverRead taken .okay false k.decoder.takeMessage.1, [.onDataRest true]) := by
        simp [exec, onDataRest, hc, hm, hs.form_ne, hne, taken]
      obtain ⟨k', hk', hrout, hdec, hctx⟩ :=
        deliverRead_call (s := taken) rfl k.decoder.takeMessage.1
      have hd' := hd.resume rfl
      rw [show (machine cfg).exec = exec from rfl, hexec] at hd'
      have hlen : k'.decoder.messages.length = n := by
        rw [hdec]
        simp [FrameDecoder.takeMessage, hn]
      obtain ⟨k₂, hk₂, hhalf, hrf, hctx₂, hlog⟩ := ih hk' (by rw [hrout]; exact hh)
        (by unfold Routing.streams; rw [hrout]; exact hs) (by rw [hrout]; exact hdisp)
        (by rw [hrout]; exact hdone) hlen hd'
      refine ⟨k₂, hk₂, hhalf, hrf, hctx₂.trans hctx, List.IsPrefix.trans ?_ hlog⟩
      obtain ⟨os, hos, -⟩ := grows_deliverRead (s := taken) .okay false k.decoder.takeMessage.1
      exact ⟨os, hos.symm⟩

/-- `TrailersOnly` on a call whose request has just ended. -/
theorem ended_trailersOnly {s : State} (half : Bool) {st : Status} (hc : s.call = some k)
    (hne : trailersOnlyFields st ≠ trailersOnlyFields badRequestHeaders)
    (hhalf : s.ctx ≠ none → k.requestHalfClosed = half)
    (hidle : k.idle = k.responded)
    (hd : d = ⟨trailersOnly (s.setCall { k with requestDone := true, requestHalfClosed := half })
      st, []⟩) : Ended s k d := by
  cases hr : k.responded with
  | true =>
      refine .nothing true half k.decoder (hidle.trans hr) hhalf ?_
      rw [hd]
      simp [trailersOnly, State.setCall, State.hide, Call.hide, hr, hc]
  | false =>
      refine .refused st (hidle.trans hr) hne ?_
      rw [hd]
      simp [trailersOnly, State.setCall, sendTrailersOnly, State.sendHeaders, stopDeadline, hr]

theorem missingRequest_fields :
    trailersOnlyFields missingRequest ≠ trailersOnlyFields badRequestHeaders := by decide

theorem unknownMethod_fields (path : Bytes) :
    trailersOnlyFields (unknownMethod path) ≠ trailersOnlyFields badRequestHeaders := by
  intro h
  have hcode : some (stringOfInt StatusCode.unimplemented.toInt) =
      some (stringOfInt StatusCode.internal.toInt) :=
    congrArg (fun m => find m "grpc-status") h
  exact absurd hcode (by decide)

/-- END_STREAM on a call, case by case. -/
theorem data_end (h : Unended c) (hfr : c.frames = []) (hc : c.st.call = some k)
    (hd : (machine cfg).Resumes ⟨c.st, [.onDataRest true]⟩ d) : Ended c.st k d := by
  have hw : (Writer.of c).call = some k.toWriteSide := congrArg (Option.map _) hc
  have hdisp := h.sound.dispatched
  rw [Writer.Dispatched, hw] at hdisp
  obtain ⟨hdone, hhalf, hcount⟩ :=
    h.call k.asked (Reader.reader_call hc)
  have hdone : k.requestDone = false := hdone
  have hhalf : k.requestHalfClosed = false := hhalf
  have hcount : k.form = .unary → k.decoder.messageCount = 0 := hcount
  -- an unanswered streaming call has no message left
  have hnone : k.form ≠ .unary → k.decoder.hasMessage = true → k.responded = true := by
    intro hf hm
    by_contra hr
    obtain ⟨e, he⟩ := h.owes k.asked (Reader.reader_call hc)
      ⟨hf, by simpa [Call.asked] using hr, hm⟩
    rw [hfr] at he
    cases he
  have hlast : k.form = .unary ∨ k.decoder.hasMessage = false →
      d = ⟨finishRequest c.st, []⟩ := by
    intro hor
    have hexec : exec (.onDataRest true) c.st = (finishRequest c.st, []) := by
      rcases hor with hf | hm
      · simp [exec, onDataRest, hc, hf]
      · simp [exec, onDataRest, hc, hm]
    rw [resumes_end hd (by rw [hexec]), hexec]
  cases hh : k.hasHandler with
  | false =>
      have hf : k.form = .unary := (hdisp.unrouted _ rfl hh).2
      refine ended_trailersOnly _ hc (unknownMethod_fields k.path) (fun _ => rfl)
        (by simp [Call.idle, hh]) ?_
      rw [hlast (.inl hf)]
      simp [finishRequest, hc, hdone, hh]
  | true =>
      cases hf : k.form with
      | unary =>
          have hnd : k.dispatched = false := (hdisp.unary _ rfl hf).1
          have hfin := finishRequest_unary hc hh hf hdone (hcount hf)
          cases hm : k.decoder.hasMessage with
          | true =>
              rw [hm, if_pos rfl] at hfin
              rw [hlast (.inl hf), hfin]
              refine .told (by simp [Call.idle, hh, hm, hf]) (List.prefix_append _ _) ?_
              simp [State.note, State.setCall]
          | false =>
              refine ended_trailersOnly _ hc missingRequest_fields (fun _ => rfl)
                (by simp [Call.idle, hnd, hm]) ?_
              rw [hlast (.inl hf), hfin, hm]
              rfl
      | serverStreaming =>
          have hne : k.form ≠ .unary := by simp [hf]
          have hstr := hdisp.streaming _ rfl hne
          cases hds : k.dispatched with
          | false =>
              have hctx : c.st.ctx = none :=
                Reader.ctx_none (hstr.trans (if_neg (by simp [hds])))
              cases hm : k.decoder.hasMessage with
              | true =>
                  -- `OnData` dispatches the handler and goes on
                  let taken := c.st.setCall { k with decoder := k.decoder.takeMessage.2 }
                  have hexec : exec (.onDataRest true) c.st =
                      (dispatchStream taken (some k.decoder.takeMessage.1),
                        [.onDataRest true]) := by
                    simp [exec, onDataRest, hc, hm, hf, hds, taken]
                  have hlog : (dispatchStream taken (some k.decoder.takeMessage.1)).log =
                      c.st.log ++ [.stream (some k.decoder.takeMessage.1)] := by
                    simp [dispatchStream, taken, State.setCall, hds, State.note]
                  have hd' := log_reach (hd.resume rfl).1
                  rw [show (machine cfg).exec = exec from rfl, hexec, hlog] at hd'
                  refine .told (by simp [Call.idle, hh, hds, hm])
                    ((List.prefix_append _ _).trans hd') ?_
                  intro heq
                  have hlen := hd'.length_le
                  rw [heq, List.length_append] at hlen
                  exact absurd hlen (by simp)
              | false =>
                  refine ended_trailersOnly true hc missingRequest_fields
                    (fun hx => absurd hctx hx) (by simp [Call.idle, hds, hm]) ?_
                  rw [hlast (.inr hm)]
                  simp [finishRequest, hc, hdone, hh, hf, hds, hm, State.setCall]
          | true =>
              cases hm : k.decoder.hasMessage with
              | true =>
                  have hr : k.responded = true := hnone hne hm
                  have hexec : exec (.onDataRest true) c.st =
                      (c.st.setCall { k with decoder := k.decoder.takeMessage.2 }, []) := by
                    simp [exec, onDataRest, hc, hm, hf, hds, finishStream, State.setCall, hr]
                  refine .nothing k.requestDone k.requestHalfClosed k.decoder.takeMessage.2
                    (by simp [Call.idle, hr, hf, hds, hm]) (fun _ => rfl) ?_
                  rw [resumes_end hd (by rw [hexec]), hexec]
                  simp [State.setCall, State.hide, Call.hide, hc]
              | false =>
                  obtain ⟨first, hx⟩ := Reader.ctx_stream (hstr.trans (if_pos hds))
                  obtain ⟨k₂, hk₂, hhalf₂, hrf, hctx, hlog⟩ :=
                    stream_end hc hh hne hds hdone hm hd
                  exact .closed first k₂ (by simp [Call.idle, hh, hds, hm]) hx hctx hk₂ hhalf₂ hrf
                    hlog
      | clientStreaming | bidi =>
          have hs : k.streams := by simp [Routing.streams, hf]
          have hds : k.dispatched = true := hdisp.early _ rfl hs
          have hstr := hdisp.streaming _ rfl hs.form_ne
          obtain ⟨first, hx⟩ := Reader.ctx_stream (hstr.trans (if_pos hds))
          obtain ⟨k₂, hk₂, hhalf₂, hrf, hctx, hlog⟩ :=
            streams_end hc hh hs hds hdone rfl hd
          exact .closed first k₂ (by simp [Call.idle, hh, hds, hf]) hx hctx hk₂ hhalf₂ hrf hlog

/-- What a trailing block does: nothing, or one more terminal block. -/
theorem trailers_end {fields : HeaderMap} (hfr : c.frames = []) (hopened : c.st.opened = true)
    (hplain : find fields ":path" = none) (h : endByTrailers cfg c fields = some d) :
    d = c ∧ (c.st.call = none → fields.isEmpty = true) ∨
      d = ⟨trailersOnly c.st badRequestHeaders, []⟩ ∧ fields.isEmpty = false := by
  unfold endByTrailers at h
  split at h
  · next he =>
      cases h
      exact .inl ⟨rfl, fun _ => he⟩
  · next he =>
      obtain ⟨-, s, gs, hfire, rfl⟩ := Resume.System.step_event h
      have hsame : { c.st with opened := true } = c.st := by rw [← hopened]
      simp only [machine, fire] at hfire
      split at hfire
      · cases hfire
      · rw [onHeadersComplete_trailers hplain, hsame] at hfire
        cases hfire
        rw [hfr]
        exact .inr ⟨rfl, by simpa using he⟩

theorem trailersOnly_seen {s : State} (hc : s.call = some k) (st : Status) :
    (trailersOnly s st).log = s.log ∧ (trailersOnly s st).ctx = s.ctx ∧
      ((trailersOnly s st).h2.subs = s.h2.subs ∨
        (trailersOnly s st).h2.subs = s.h2.subs ++ [.headers (trailersOnlyFields st) true]) ∧
      ∃ k', (trailersOnly s st).call = some k' ∧ k'.requestHalfClosed = k.requestHalfClosed := by
  refine ⟨log_trailersOnly st, ?_⟩
  simp only [trailersOnly, hc]
  split
  · exact ⟨rfl, .inl rfl, k, hc, rfl⟩
  · exact ⟨rfl, .inr (Sender.sendHeaders_subs ..), _, rfl, rfl⟩

/-- A read of a call that is half-closed and finished is told so. -/
theorem readMessage_closed {s : State} (hc : s.call = some k) (hhalf : k.requestHalfClosed = true)
    (hrf : k.readFinished = true) (first : Option Bytes) (cb : CbId) :
    (readMessage s first cb).log = s.log ++ [.read cb streamClosed true []] := by
  simp [readMessage, hc, hhalf, hrf, State.note]

/-- A read of a call that is not half-closed is told no end. -/
theorem readMessage_open {s : State} (hc : s.call = some k) (hhalf : k.requestHalfClosed = false)
    (first : Option Bytes) (cb : CbId) :
    ∃ os, (readMessage s first cb).log = s.log ++ os ∧ ∀ st msg, .read cb st true msg ∉ os := by
  cases hrf : k.readFinished with
  | true => exact ⟨[.read cb streamClosed false []], by simp [readMessage, hc, hhalf, hrf, State.note],
      by simp⟩
  | false =>
      cases first with
      | some msg =>
          exact ⟨[.read cb .okay false msg], by simp [readMessage, hc, hrf, State.note], by simp⟩
      | none =>
          cases hp : k.pendingMsgs with
          | cons msg msgs =>
              refine ⟨[.read cb .okay false msg], ?_, by simp⟩
              simp [readMessage, hc, hrf, hp, State.note, State.setCall]
          | nil =>
              by_cases hcb : k.readCb.isSome = true
              · refine ⟨[.read cb ⟨.internal, str "concurrent read"⟩ false []], ?_, by simp⟩
                simp [readMessage, hc, hrf, hp, hhalf, hcb, State.note]
              · refine ⟨[], ?_, by simp⟩
                simp [readMessage, hc, hrf, hp, hhalf, hcb, State.setCall]

theorem run_readMessage {first : Option Bytes} (hctx : c.st.ctx = some (.stream first)) (cb : CbId) :
    ((machine cfg).run requestOver c [.event (.op (.readMessage cb))]).map shown =
      some ((readMessage c.st first cb).log, (readMessage c.st first cb).h2.subs) := by
  simp [Resume.System.run, Resume.System.step, Resume.System.enabled, requestOver, machine, anytime,
    fire, applyOp, hctx, shown]

/-- The first continuation: nothing more happens. -/
theorem OnlyEnds.now {e₁ e₂ : Conf} (h : OnlyEnds cfg c e₁ e₂) :
    e₁.st.log = e₂.st.log ∧ e₁.st.h2.subs = e₂.st.h2.subs := by
  have hnil := h.same []
  simpa [Resume.System.run, shown] using hnil

/-- Both ways out of a call that has something to end can be told apart. -/
theorem not_onlyEnds {e₁ e₂ : Conf} (hc : c.st.call = some k) (hhalf : k.requestHalfClosed = false)
    (hd₁ : e₁ = c ∨ e₁ = ⟨trailersOnly c.st badRequestHeaders, []⟩) (hidle : k.idle = false)
    (hd₂ : Ended c.st k e₂) : ¬ OnlyEnds cfg c e₁ e₂ := by
  obtain ⟨hlog, hctx, hsubs, k₁, hk₁, hhalf₁⟩ : e₁.st.log = c.st.log ∧ e₁.st.ctx = c.st.ctx ∧
      (e₁.st.h2.subs = c.st.h2.subs ∨ e₁.st.h2.subs =
        c.st.h2.subs ++ [.headers (trailersOnlyFields badRequestHeaders) true]) ∧
      ∃ k', e₁.st.call = some k' ∧ k'.requestHalfClosed = k.requestHalfClosed := by
    rcases hd₁ with rfl | rfl
    · exact ⟨rfl, rfl, .inl rfl, k, hc, rfl⟩
    · exact trailersOnly_seen hc _
  intro hends
  cases hd₂ with
  | nothing _ _ _ hbusy => cases hidle.symm.trans hbusy
  | refused st _ hne heq =>
      rw [hends.now.2, heq] at hsubs
      rcases hsubs with hsame | hsame
      · simp at hsame
      · simp only [List.append_cancel_left_eq, List.cons.injEq, Submission.headers.injEq,
          and_true] at hsame
        exact hne hsame
  | told _ _ hne =>
      rw [← hends.now.1, hlog] at hne
      exact hne rfl
  | closed first k₂ _ hx hctx₂ hk₂ hhalf₂ hrf hgrow =>
      -- the next read tells the end here and no end there
      have hread := hends.same [.event (.op (.readMessage 0))]
      rw [run_readMessage (hctx.trans hx), run_readMessage (hctx₂.trans hx)] at hread
      have hread := congrArg Prod.fst (Option.some.inj hread)
      obtain ⟨os, hos, hno⟩ := readMessage_open hk₁ (hhalf₁.trans hhalf) first 0
      obtain ⟨xs, hxs⟩ := hgrow
      rw [hos, readMessage_closed hk₂ hhalf₂ hrf, hlog, ← hxs, List.append_assoc,
        List.append_cancel_left_eq] at hread
      exact hno streamClosed [] (by rw [hread]; simp)

end Runs

/-- **Request trailers only end the request if there is nothing to end.** Take any run of a stream
    up to the end of its request, and end it with a trailing block without `:path`, or else with an
    empty DATA frame. The handler and the peer see the same in every continuation, and a stream
    without a call gets no second terminal block, if and only if the call has been answered and
    END_STREAM would find nothing to do (or there is no call and the block is empty). -/
theorem request_trailers_only_end_iff (cfg : Config) (c d₀ d₁ d₂ : Conf) (fields : HeaderMap)
    (hreach : (machine cfg).Reach requestOpen fresh c) (hopened : c.st.opened = true)
    (hplain : find fields ":path" = none) (htrailers : endByTrailers cfg c fields = some d₁)
    (hdata : (machine cfg).step c (.event (.data [] true)) = some d₀)
    (hend : (machine cfg).Resumes d₀ d₂) :
    OnlyEnds cfg c d₁ d₂ ↔ nothingToEnd c.st fields = true := by
  have h := reach_unended hreach
  obtain ⟨hfr, hcall, hsome⟩ := data_start h hdata
  have hd₁ := trailers_end hfr hopened hplain htrailers
  cases hc : c.st.call with
  | none =>
      have hd₂ : d₂ = c := by
        rw [hcall hc] at hend
        exact hend.eq_of_nil hfr
      simp only [nothingToEnd, hc]
      constructor
      · intro hends
        rcases hd₁ with ⟨-, hempty⟩ | ⟨heq, -⟩
        · exact hempty hc
        · have hsubs := hends.now.2
          rw [heq, hd₂] at hsubs
          simp [trailersOnly, hc, sendTrailersOnly, State.sendHeaders] at hsubs
      · intro hempty
        rcases hd₁ with ⟨heq, -⟩ | ⟨-, hne⟩
        · rw [heq, hd₂]
          exact ⟨fun _ => rfl, fun _ => rfl⟩
        · cases hne.symm.trans hempty
  | some k =>
      rw [hsome k hc] at hend
      have hended := data_end h hfr hc hend
      have hhalf : k.requestHalfClosed = false := (h.call k.asked (Reader.reader_call hc)).2.1
      simp only [nothingToEnd, hc]
      cases hidle : k.idle with
      | false =>
          refine iff_of_false (not_onlyEnds hc hhalf ?_ hidle hended) (by simp)
          exact hd₁.imp And.left And.left
      | true =>
          refine iff_of_true ?_ rfl
          have hr : k.responded = true := (Bool.and_eq_true_iff.mp hidle).1
          have heq : d₁ = c := by
            rcases hd₁ with ⟨heq, -⟩ | ⟨heq, -⟩
            · exact heq
            · rw [heq]
              simp only [trailersOnly, hc, hr, if_true]
              rw [← hfr]
          refine ⟨fun ls => ?_, fun hn => absurd hn (by simp [hc])⟩
          cases hended with
          | nothing done half decoder _ hkeep hd₂ =>
              have hover : Over half c := by
                refine ⟨by simp [hfr], fun hx k' hk' => ?_⟩
                cases hc.symm.trans hk'
                exact hkeep hx
              have hhide : d₂ = hideConf done half decoder c := by rw [hd₂, hideConf, hfr]
              rw [heq, hhide, run_hide hover, Option.map_map]
              rfl
          | refused _ hbusy | told hbusy | closed _ _ hbusy => cases hidle.symm.trans hbusy

/-- A unary call whose request was rejected: nothing is left to end. -/
theorem request_trailers_after_rejection :
    ∃ c d₁ d₂, (machine demo).run requestOpen fresh
        [.event (.headers (demoHeaders "/t/U") false), .resume,
         .event (.data [1, 0, 0, 0, 0] false)] = some c ∧
      endByTrailers demo c [("x-checksum", str "7")] = some d₁ ∧ OnlyEnds demo c d₁ d₂ := by
  obtain ⟨c, d₀, d₁, d₂, hc, hopened, htr, hdata, hstep, hfr, hidle⟩ :
      ∃ c d₀ d₁ d₂, (machine demo).run requestOpen fresh
          [.event (.headers (demoHeaders "/t/U") false), .resume,
           .event (.data [1, 0, 0, 0, 0] false)] = some c ∧ c.st.opened = true ∧
        endByTrailers demo c [("x-checksum", str "7")] = some d₁ ∧
        (machine demo).step c (.event (.data [] true)) = some d₀ ∧
        (machine demo).step d₀ .resume = some d₂ ∧ d₂.frames = [] ∧
        nothingToEnd c.st [("x-checksum", str "7")] = true :=
    ⟨_, _, _, _, rfl, rfl, rfl, rfl, rfl, rfl, rfl⟩
  have hend : (machine demo).Resumes d₀ d₂ := ⟨.tail .refl rfl hstep, hfr⟩
  refine ⟨c, d₁, d₂, hc, htr, ?_⟩
  exact (request_trailers_only_end_iff demo c d₀ d₁ d₂ _ (Resume.System.reach_of_run _ _ _ hc)
    hopened (by decide) htr hdata hend).mpr hidle

/-- A stream answered for bad request headers gets a second terminal block, and the request of a
    unary call is answered instead of handed on. -/
theorem request_trailers_refused :
    (((machine demo).run trailersPlain fresh
        [.event (.headers [(":path", str "/t/U")] false),
         .event (.headers [("x-checksum", str "7")] true)]).map
      fun d => (terminals d.st.h2.subs).length) = some 2 ∧
    (((machine demo).run trailersPlain fresh
        [.event (.headers (demoHeaders "/t/U") false), .resume,
         .event (.data (encodeFrame [1]) false), .resume,
         .event (.headers [("x-checksum", str "7")] true)]).map
      fun d => (d.st.log, d.st.h2.subs)) =
        some ([], [.headers (trailersOnlyFields badRequestHeaders) true]) ∧
    (((machine demo).run trailersPlain fresh
        [.event (.headers (demoHeaders "/t/U") false), .resume,
         .event (.data (encodeFrame [1]) false), .resume,
         .event (.data [] true), .resume]).map
      fun d => (d.st.log, d.st.h2.subs)) = some ([.unary [1]], []) := by
  decide

end Urpc.Server
