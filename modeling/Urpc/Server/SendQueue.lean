/-
  The send queue of a streaming call, while the call is open.

  `PumpOut` pops a message and hands it to `SendData`; before the first one it submits the response
  headers, and while that flush runs the popped message is in neither place. Foreign code can run
  there, so the account of the accepted messages has a third part, `unsent`.

  Proved:
  * `send_queue_conserved`: the messages handed to `SendData`, the one that `PumpOut` holds and those
    in `out_queue` are all that `WriteMessage` accepted, in order; one is held only before the first
    body; the queue has at most 64 messages; messages wait only after the response headers; and a
    `WriteMessage` that is rejected changes nothing but calls its callback.
  * `send_queue_gap`: the third part is needed.
-/
import Urpc.Server.Blocks
import Urpc.Server.Drain

namespace Urpc.Server

open Cxx Writer

/-- The call stays open: its stream is not closed and its connection not lost. -/
def staysOpen (c : Conf) (l : Label) : Prop :=
  trailersPlain c l ∧ l ≠ .event .streamClose ∧ l ≠ .event .connectionLost

instance (c : Conf) (l : Label) : Decidable (staysOpen c l) :=
  inferInstanceAs (Decidable (_ ∧ _ ∧ _))

namespace Writer

variable {t : Trigger} {v w : Writer}

/-- Nothing waits that clears the call. -/
def Uncleared (fs : List Frame) : Prop := ∀ f ∈ fs, f ≠ .cancelOut ∧ f ≠ .closeErase

theorem Uncleared.tail {f : Frame} {fs rest : List Frame} (h : Uncleared fs)
    (hf : fs = f :: rest) : Uncleared rest :=
  fun g hg => h g (hf ▸ List.mem_cons_of_mem f hg)

theorem Uncleared.cons {f : Frame} {fs : List Frame} (h : Uncleared fs) (h1 : f ≠ .cancelOut)
    (h2 : f ≠ .closeErase) : Uncleared (f :: fs) := by
  intro g hg
  rcases List.mem_cons.mp hg with rfl | hg
  · exact ⟨h1, h2⟩
  · exact h g hg

theorem Uncleared.absurd {f : Frame} {fs rest : List Frame} (h : Uncleared fs)
    (hf : fs = f :: rest) (hm : f = .cancelOut ∨ f = .closeErase) : False := by
  subst hf
  obtain ⟨h1, h2⟩ := h f List.mem_cons_self
  exact hm.elim h1 h2

/-- A call that has accepted messages has sent the response headers. -/
def Headed (v : Writer) : Prop :=
  v.accepted ≠ [] → v.opened = true ∧ ∀ k, v.call = some k → k.responseHeadersSent = true

theorem headed_step (ho : Orderly v) (hv : Headed v) (h : Step t v w) : Headed w := by
  have hpump : ∀ {v' : Writer} {k out queue}, Pump v' k out queue w → v'.opened = true →
      w.opened = true ∧ ∀ k, w.call = some k → k.responseHeadersSent = true := by
    intro v' k out queue hp hopen
    cases hp with
    | first => exact ⟨hopen, by simp⟩
    | next hh => exact ⟨hopen, by simpa [Writer.pumped] using hh⟩
  have hopen : ∀ {k}, v.call = some k → v.opened = true :=
    fun hc => by simpa using Dispatched.opened ho.dispatched hc
  intro hne
  cases h with
  | badHeaders hno | created hno | unrouted hno | createdStream hno =>
      rw [(hv hne).1] at hno
      cases hno
  | queued hc _ _ _ hi =>
      refine ⟨hopen hc, ?_⟩
      rintro _ ⟨⟩
      exact (ho.turns.turn _ hc).busy (.inl hi)
  | written hc _ _ _ _ _ hp => exact hpump hp (hopen hc)
  | pumped hc _ _ _ _ hp => exact hpump hp (hopen hc)
  | requestEnded hc | answered hc | dispatchedUnary hc | dispatchedStream hc | rejected hc
  | respondOk hc | respondErr hc | deadlineTrailers _ hc | deadlineOnly _ hc | writeDone hc
  | deferredFinish _ hc | finishDeferred hc | finishOnly hc | finishTrailers hc
  | cancelOut _ hc =>
      have hsent := (hv hne).2 _ hc
      refine ⟨(hv hne).1, ?_⟩
      rintro _ ⟨⟩
      exact hsent
  | consumed =>
      refine ⟨(hv hne).1, fun k hk => ?_⟩
      obtain ⟨k', hk', rfl⟩ := Option.map_eq_some_iff.mp hk
      exact (hv hne).2 k' hk'
  | erase => exact ⟨(hv hne).1, by simp⟩
  | _ => exact hv hne

theorem headed_again (hv : Headed v) (ha : Again v w) : Headed w := by
  cases ha with
  | answered | unknown => exact hv
  | refused _ hk =>
      intro hne
      have hsent := (hv hne).2 _ hk
      refine ⟨(hv hne).1, ?_⟩
      rintro _ ⟨⟩
      exact hsent

/-- A message waits for the response headers only before the first body. -/
def First (v : Writer) : Prop := unsent v.todo ≠ [] → bodies v.h2.subs = []

theorem first_step (ho : Orderly v) (hh : Headed v) (hr : responding v.todo = 0)
    (hcontent : Content v) (hv : First v) (h : Step t v w) : First w := by
  have hidle : ∀ {k}, v.call = some k → k.outInflight = false → unsent v.todo = [] :=
    fun hc hi => unsent_of_pumping (by have := ho.flying.idle hc hi; omega)
  unfold First at hv ⊢
  cases h with
  | written hc _ _ _ hi _ hp =>
      cases hp with
      | first hno =>
          -- no response headers, so nothing was accepted before
          have hnone : v.accepted = [] := by
            by_contra hne
            rw [(hh hne).2 _ hc] at hno
            cases hno
          have hall : bodies v.h2.subs ++ unsent v.todo ++ queued v.call = [] := by
            rw [hcontent, hnone, List.map_nil]
          intro _
          simp_all [bodies]
      | next => simp [hidle hc hi]
  | pumped hc hq _ _ hi hp =>
      cases hp with
      | first hno =>
          rw [(ho.turns.turn _ hc).busy (.inr (by simp [hq]))] at hno
          cases hno
      | next => simp [hidle hc hi]
  | pumpOutData hto =>
      have hone := ho.turns.one
      simp only [hto, pumping_cons, Frame.pumps, if_true] at hone
      intro hne
      refine absurd (unsent_of_pumping ?_) hne
      dsimp only
      omega
  | respondData hto | respondTrailers hto => simp [hto, Frame.responds] at hr
  | deadlineLate hto | deadlineTrailers hto | deadlineOnly hto | consumedRest hto
  | deferredFinish hto | cancelEnd hto | erase hto => simpa [hto, unsent, bodies] using hv
  | deadlineFired | connectionLost => simp [unsent]
  | credit => simpa using hv
  | _ => simpa [unsent, bodies] using hv

/-- Frames that clear the call wait only after a close. -/
theorem uncleared_step (hu : Uncleared v.todo) (hc : t ≠ .event .streamClose)
    (hl : t ≠ .event .connectionLost) (h : Step t v w) : Uncleared w.todo := by
  have hpump : ∀ {v' : Writer} {k out queue}, Pump v' k out queue w → v'.todo = v.todo →
      Uncleared w.todo := by
    intro v' k out queue hp htodo
    cases hp with
    | first => exact Uncleared.cons (htodo ▸ hu) (by simp) (by simp)
    | next => exact htodo ▸ hu
  cases h with
  | cancelOut hto | cancelEnd hto | erase hto => exact (hu.absurd hto (by simp)).elim
  | respondOk => exact hu.cons (by simp) (by simp)
  | respondData hto => exact (hu.tail hto).cons (by simp) (by simp)
  | deadlineFired hto => exact Uncleared.cons (by simp [Uncleared]) (by simp) (by simp)
  | deadlineLate hto | deadlineTrailers hto | deadlineOnly hto | pumpOutData hto
  | respondTrailers hto | consumedRest hto | deferredFinish hto => exact hu.tail hto
  | consumed => exact hu.cons (by simp) (by simp)
  | written _ _ _ _ _ _ hp => exact hpump hp rfl
  | pumped _ _ _ _ _ hp => exact hpump hp rfl
  | closeIdle | close => exact absurd rfl hc
  | connectionLost => exact absurd rfl hl
  | _ => exact hu

theorem uncleared_again (hu : Uncleared v.todo) (ha : Again v w) : Uncleared w.todo := by
  cases ha <;> exact hu

/-- A streaming call has no frame of `Respond`. -/
theorem responding_step (hs : v.stream ≠ some false) (h0 : responding v.todo = 0)
    (h : Step t v w) : responding w.todo = 0 := by
  have hpump : ∀ {v' : Writer} {k out queue}, Pump v' k out queue w → v'.todo = v.todo →
      responding w.todo = 0 := by
    intro v' k out queue hp htodo
    cases hp with
    | first => simpa [htodo, Frame.responds] using h0
    | next => simpa [htodo] using h0
  cases h with
  | respondOk _ hs' => exact absurd hs' hs
  | respondData hto | respondTrailers hto => simp [hto, Frame.responds] at h0
  | deadlineFired | connectionLost => simp [Frame.responds]
  | deadlineLate hto | deadlineTrailers hto | deadlineOnly hto | pumpOutData hto
  | consumedRest hto | deferredFinish hto | cancelEnd hto | erase hto =>
      simpa [hto, Frame.responds] using h0
  | consumed | close => simpa [Frame.responds] using h0
  | written _ _ _ _ _ _ hp => exact hpump hp rfl
  | pumped _ _ _ _ _ hp => exact hpump hp rfl
  | _ => exact h0

/-- There is no call any more, and there never will be one. -/
theorem gone_step (hc : v.call = none) (ho : v.opened = true) (h : Step t v w) :
    w.call = none ∧ w.opened = true ∧ w.accepted = v.accepted := by
  cases h <;> simp_all

/-- The account of a call that has dropped no message: the call is unary, or it has been `erased`
    and had accepted nothing, or all that was accepted is accounted for. -/
structure Undropped (erased : Prop) (v : Writer) : Prop where
  headed : Headed v
  content : v.stream = some false ∨
    (erased ∧ v.call = none ∧ v.opened = true ∧ v.accepted = []) ∨
    responding v.todo = 0 ∧ Content v ∧ First v

variable {erased : Prop}

/-- Only a stream has accepted messages. -/
theorem Undropped.unary (ho : Orderly v) (hv : Undropped erased v) (hs : v.stream = some false) :
    v.opened = true ∧ v.accepted = [] := by
  obtain ⟨k, hk⟩ : ∃ k, v.call = some k := by
    refine Option.ne_none_iff_exists'.mp fun hn => ?_
    have hnone := ho.dispatched.noCall (by rw [hn]; rfl)
    cases hs.symm.trans hnone
  refine ⟨by simpa using Dispatched.opened ho.dispatched hk, ?_⟩
  by_contra hne
  have hstream := (ho.turns.turn k hk).sent ((hv.headed hne).2 k hk)
  cases hs.symm.trans hstream

theorem undropped_step (ho : Orderly v) (hv : Undropped erased v) (ht : Spares t v)
    (he : ∀ fs, v.todo = .closeErase :: fs → erased) (h : Step t v w) : Undropped erased w := by
  refine ⟨headed_step ho hv.headed h, ?_⟩
  by_cases hs : v.stream = some false
  · obtain ⟨hopen, hnone⟩ := hv.unary ho hs
    cases h with
    | created _ _ hn | unrouted _ _ hn | createdStream _ _ hn | dispatchedUnary _ hn
    | dispatchedStream _ hn => cases hs.symm.trans hn
    | erase hto => exact .inr (.inl ⟨he _ hto, rfl, hopen, hnone⟩)
    | written _ _ _ _ _ _ hp => cases hp <;> exact .inl hs
    | pumped _ _ _ _ _ hp => cases hp <;> exact .inl hs
    | _ => exact .inl hs
  · rcases hv.content with hs' | ⟨he, hc, hopen, hnone⟩ | ⟨hr, hcontent, hfirst⟩
    · exact absurd hs' hs
    · obtain ⟨hc', hopen', hacc⟩ := gone_step hc hopen h
      exact .inr (.inl ⟨he, hc', hopen', hacc.trans hnone⟩)
    · exact .inr (.inr ⟨responding_step hs hr h, content_step ho.flying hr ht hs hcontent h,
        first_step ho hv.headed hr hcontent hfirst h⟩)

/-- A later header block submits no body. -/
theorem undropped_again (hv : Undropped erased v) (ha : Again v w) : Undropped erased w := by
  refine ⟨headed_again hv.headed ha, ?_⟩
  cases ha with
  | answered => exact hv.content
  | unknown => simpa [Content, First, bodies] using hv.content
  | refused _ hk => simpa [Content, First, bodies, queued, hk] using hv.content

theorem undropped_fresh : Undropped erased (.of fresh) :=
  ⟨fun h => absurd rfl h, .inr (.inr ⟨rfl, rfl, fun _ => rfl⟩)⟩

/-! ## The bound -/

/-- `out_queue` is within its bound. -/
def Short (v : Writer) : Prop := ∀ k, v.call = some k → k.outQueue.length ≤ 64

/-- Only `WriteMessage` makes the queue longer, by one. -/
theorem short_step (hv : Short v)
    (hroom : ∀ msg cb, t = .event (.op (.writeMessage msg cb)) →
      ∀ k, v.call = some k → k.outQueue.length < 64) (h : Step t v w) : Short w := by
  have hkeep : ∀ {k k' : WriteSide}, v.call = some k → w.call = some k' →
      k'.outQueue.length ≤ k.outQueue.length → Short w := by
    intro k k' hc hw hle k'' hw'
    rw [hw] at hw'
    cases hw'
    exact Nat.le_trans hle (hv k hc)
  have hpump : ∀ {v' : Writer} {k out queue}, Pump v' k out queue w → queue.length ≤ 64 →
      Short w := by
    intro v' k out queue hp hle k' hk'
    cases hp <;> (cases hk'; exact hle)
  cases h with
  | created | unrouted | createdStream =>
      intro k hk
      cases hk
      exact Nat.zero_le _
  | requestEnded hc | answered hc | dispatchedUnary hc | dispatchedStream hc | rejected hc
  | respondOk hc | respondErr hc | deadlineTrailers _ hc | deadlineOnly _ hc | writeDone hc
  | deferredFinish _ hc | finishDeferred hc | finishOnly hc | finishTrailers hc =>
      exact hkeep hc rfl (Nat.le_refl _)
  | queued hc =>
      intro k hk
      cases hk
      have := hroom _ _ rfl _ hc
      rw [List.length_append, List.length_singleton]
      omega
  | written hc _ _ _ _ hq hp =>
      refine hpump hp ?_
      have hlen := congrArg List.length hq
      have := hroom _ _ rfl _ hc
      rw [List.length_append, List.length_singleton, List.length_cons] at hlen
      omega
  | pumped hc hq _ _ _ hp =>
      refine hpump hp ?_
      have := hv _ hc
      rw [hq, List.length_cons] at this
      omega
  | consumed =>
      intro k hk
      obtain ⟨k', hk', rfl⟩ := Option.map_eq_some_iff.mp hk
      exact hv k' hk'
  | cancelOut _ hc hq => exact hkeep hc rfl (by simp [hq])
  | erase => exact fun _ hk => by cases hk
  | _ => exact hv

theorem short_again (hv : Short v) (ha : Again v w) : Short w := by
  cases ha with
  | answered | unknown => exact hv
  | @refused k₀ _ hc =>
      intro k hk
      cases hk
      exact hv k₀ hc

end Writer

/-! ## Rejected messages -/

/-- A write callback, if there is one, in the log. -/
theorem tellWriter_eq (s : State) (cb : Option CbId) (st : Status) :
    tellWriter s cb st = { s with log := s.log ++ (cb.map (Obs.wrote · st)).toList } := by
  cases cb with
  | none => simp [tellWriter]
  | some cb => rfl

/-- Full, finished or write-closed. -/
def Call.refuses (k : Call) : Bool :=
  k.responded || k.writeClosed || decide (64 ≤ k.outQueue.length)

theorem writeMessage_rejected {s : State} {k : Call} (hc : s.call = some k)
    (hr : k.refuses = true) (msg : Bytes) (cb : Option CbId) :
    ∃ st : Status, st.ok = false ∧ writeMessage s msg cb = (tellWriter s cb st, []) := by
  simp only [Call.refuses, Bool.or_eq_true, decide_eq_true_eq] at hr
  by_cases hfin : (k.responded || k.writeClosed) = true
  · exact ⟨⟨.internal, str "stream finished"⟩, rfl, by simp [writeMessage, hc, hfin]⟩
  · have hfull : 64 ≤ k.outQueue.length := by
      rcases hr with hr | hr
      · exact absurd (by simpa using hr) hfin
      · exact hr
    exact ⟨⟨.resourceExhausted, str "send queue full"⟩, rfl,
      by simp [writeMessage, hc, hfin, hfull]⟩

/-- A rejected `WriteMessage` calls its callback, with an error, and changes nothing else. -/
theorem step_rejected {cfg : Config} {c d : Conf} {k : Call} {msg : Bytes} {cb : Option CbId}
    (hc : c.st.call = some k) (hr : k.refuses = true)
    (hs : (machine cfg).step c (.event (.op (.writeMessage msg cb))) = some d) :
    ∃ st : Status, st.ok = false ∧
      d = ⟨{ c.st with log := c.st.log ++ (cb.map (Obs.wrote · st)).toList }, c.frames⟩ := by
  obtain ⟨st, hst, hw⟩ := writeMessage_rejected hc hr msg cb
  obtain ⟨-, s, gs, hfire, rfl⟩ := Resume.System.step_event hs
  have hfire : applyOp c.st (.writeMessage msg cb) = some (s, gs) := hfire
  simp only [applyOp] at hfire
  split at hfire
  · rw [hw] at hfire
    cases hfire
    exact ⟨st, hst, by rw [tellWriter_eq, List.nil_append]⟩
  · cases hfire

/-! ## Runs of an open call -/

theorem short_reach_step {cfg : Config} {c d : Conf} {l : Label} (hd : Dispatched (.of c))
    (hl : trailersPlain c l) (hv : Short (.of c)) (hs : (machine cfg).step c l = some d) :
    Short (.of d) := by
  by_cases hfull : (∃ msg cb, l = .event (.op (.writeMessage msg cb))) ∧
      ∃ k, c.st.call = some k ∧ k.refuses = true
  · obtain ⟨⟨msg, cb, rfl⟩, k, hk, hr⟩ := hfull
    obtain ⟨st, -, rfl⟩ := step_rejected hk hr hs
    exact hv
  · rcases writer_step_or_again hd hl hs with ⟨t, ht, hst⟩ | ha
    · refine short_step hv ?_ hst
      rintro msg cb rfl k hk
      cases triggers_of_trigger ht with
      | event =>
          obtain ⟨k', hk', rfl⟩ := Option.map_eq_some_iff.mp hk
          have hno : k'.refuses = false := by
            by_contra hr
            exact hfull ⟨⟨msg, cb, rfl⟩, k', hk', by simpa using hr⟩
          simp only [Call.refuses, Bool.or_eq_false_iff, decide_eq_false_iff_not] at hno
          omega
    · exact short_again hv ha

/-- No frame clears an open call, so none drops a message. -/
theorem open_reach {cfg : Config} {c : Conf} (h : (machine cfg).Reach staysOpen fresh c) :
    Orderly (.of c) ∧ Uncleared (Writer.of c).todo ∧ Undropped False (.of c) ∧ Short (.of c) := by
  refine h.inv (I := fun c => Orderly (.of c) ∧ Uncleared (Writer.of c).todo ∧
      Undropped False (.of c) ∧ Short (.of c)) ⟨sound_fresh.orderly, by simp [Uncleared, Writer.of, writer, fresh],
    undropped_fresh, by simp [Short, Writer.of, writer, fresh]⟩ ?_
  rintro c l d ⟨ho, hu, hv, hb⟩ ⟨hl, hclose, hlost⟩ hs
  have hshort := short_reach_step ho.dispatched hl hb hs
  rcases writer_step_or_again ho.dispatched hl hs with ⟨t, ht, hst⟩ | ha
  · have hspares : Spares t (.of c) := fun _ _ _ hto hm => (hu.absurd hto hm).elim
    refine ⟨orderly_step ho hst, uncleared_step hu ?_ ?_ hst, undropped_step ho hv hspares
      (fun _ hto => hu.absurd hto (.inr rfl)) hst, hshort⟩
    · rintro rfl
      cases triggers_of_trigger ht
      exact hclose rfl
    · rintro rfl
      cases triggers_of_trigger ht
      exact hlost rfl
  · exact ⟨orderly_again ho ha, uncleared_again hu ha, undropped_again hv ha, hshort⟩

theorem open_account {cfg : Config} {c : Conf} (h : (machine cfg).Reach staysOpen fresh c)
    (hs : (Writer.of c).stream ≠ some false) : Content (.of c) ∧ First (.of c) := by
  rcases (open_reach h).2.2.1.content with hs' | ⟨⟨⟩, -⟩ | ⟨-, h⟩
  · exact absurd hs' hs
  · exact h

/-- The frames that `Writer` leaves out submit nothing. -/
theorem unsent_filter (fs : List Frame) : unsent (fs.filter Frame.writes) = unsent fs := by
  induction fs with
  | nil => rfl
  | cons f fs ih =>
      cases f <;> simp [List.filter_cons, unsent, Frame.writes, ih]

theorem unsent_length (fs : List Frame) : (unsent fs).length = pumping fs := by
  induction fs with
  | nil => rfl
  | cons f fs ih =>
      cases f <;> simp [unsent, Frame.pumps, ih]

/-- In every run of an open streaming call: the bodies given to `SendData`, the message that a
    `PumpOut` has popped and not given to it yet, and `out_queue` are the frames of the accepted
    messages, in order; such a message is held only by a `PumpOut` that submits the response headers,
    before the first body; the queue keeps its bound; messages wait only after the response headers;
    and a rejected `WriteMessage` only calls its callback, with an error. -/
theorem send_queue_conserved (cfg : Config) (c : Conf) (k : Call) (first : Option Bytes)
    (h : (machine cfg).Reach staysOpen fresh c) (hk : c.st.call = some k)
    (hctx : c.st.ctx = some (.stream first)) :
    bodies c.st.h2.subs ++ unsent c.frames ++ k.outQueue.map OutMsg.framed
        = c.st.accepted.map encodeFrame ∧
      (unsent c.frames).length ≤ 1 ∧ (unsent c.frames ≠ [] → bodies c.st.h2.subs = []) ∧
      k.outQueue.length ≤ 64 ∧
      (k.outQueue ≠ [] → k.responseHeadersSent = true) ∧
      ∀ msg cb d, k.refuses = true →
        (machine cfg).step c (.event (.op (.writeMessage msg cb))) = some d →
        ∃ st : Status, st.ok = false ∧
          d = ⟨{ c.st with log := c.st.log ++ (cb.map (Obs.wrote · st)).toList }, c.frames⟩ := by
  obtain ⟨ho, -, -, hb⟩ := open_reach h
  have hcall : (Writer.of c).call = some k.toWriteSide := congrArg (Option.map _) hk
  have hstream : (Writer.of c).stream ≠ some false := by
    simp [Writer.of, writer, hctx, Ctx.isStream]
  have hunsent : unsent (Writer.of c).todo = unsent c.frames := unsent_filter c.frames
  obtain ⟨hcontent, hfirst⟩ := open_account h hstream
  refine ⟨?_, ?_, hunsent ▸ hfirst, hb _ hcall, fun hne => ?_,
    fun msg cb d hr hs => step_rejected hk hr hs⟩
  · rw [Content, hcall, hunsent] at hcontent
    exact hcontent
  · rw [← hunsent, unsent_length]
    have := ho.turns.one
    omega
  · exact (ho.turns.turn _ hcall).busy (.inr hne)

/-- Three messages: the first on its way, two in the queue. -/
theorem send_queue_conserved_three :
    ∃ c k, (machine demo).Reach staysOpen fresh c ∧ c.st.call = some k ∧
      k.outQueue.length = 2 ∧
      bodies c.st.h2.subs ++ unsent c.frames ++ k.outQueue.map OutMsg.framed
        = c.st.accepted.map encodeFrame := by
  obtain ⟨c, hc, k, hk, hctx, hlen⟩ : ∃ c, (machine demo).run staysOpen fresh (openBidi ++
      [.event (.op (.writeMessage [1] (some 1))), .resume, .event (.op (.writeMessage [2] none)),
        .event (.op (.writeMessage [3] (some 3)))]) = some c ∧
      ∃ k, c.st.call = some k ∧ c.st.ctx = some (.stream none) ∧ k.outQueue.length = 2 :=
    ⟨_, rfl, _, rfl, rfl, rfl⟩
  have hr := Resume.System.reach_of_run _ _ _ hc
  exact ⟨c, k, hr, hk, hlen, (send_queue_conserved demo c k none hr hk hctx).1⟩

/-- The first `WriteMessage` of a call, while the response headers are flushed: the message was
    accepted, but `SendData` has not got it and `out_queue` is empty. -/
theorem send_queue_gap :
    ((machine demo).run staysOpen fresh
      (openBidi ++ [.event (.op (.writeMessage [1] none))])).map (fun c =>
        (bodies c.st.h2.subs, c.st.call.map fun k => k.outQueue.map OutMsg.framed,
          c.st.accepted, c.frames))
      = some ([], some [], [[1]], [.pumpOutData ⟨encodeFrame [1], none⟩]) := by
  decide

end Urpc.Server
