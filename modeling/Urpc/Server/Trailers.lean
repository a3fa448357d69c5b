/-
  Trailers and unread bodies on a server connection.

  `H2Session::SendTrailers` ends the sending side at once, so a body that `BodyRead2` has not
  read to its end is cut off. The streaming finish waits for the notification of the last
  body. Two emitters do not wait: the unary `Respond`, which calls `SendData` and
  `SendTrailers` one after the other whatever the window, and `OnDeadline`, which does not
  look at `out_inflight` (`respond_overtakes`).

  `timely` names the steps on which they do no harm. Under it at most one streamed body is
  unread (`Flying Sender.owed`), none while a unary response waits for its trailers, and so
  trailers never overtake.

  Proved: `tidy_step` (every rule keeps the invariant), `trailers_never_overtake`.
-/
import Urpc.Server.Grammar

namespace Urpc.Server

open Cxx Writer

/-- A unary response gives its body to an open stream whose window takes it whole; a deadline
    does not act on a streaming response with a body in flight. -/
def timely (c : Conf) : Label → Bool
  | .resume =>
      match c.frames with
      | .respondData framed :: _ => !c.st.h2.closed && decide (framed.length ≤ c.st.h2.window)
      | .onDeadlineRest :: _ =>
          !c.st.call.any fun k =>
            !k.responded && k.form != .unary && k.responseHeadersSent && k.outInflight
      | _ => true
  | _ => true

namespace Writer

theorem tally_owed : Tally Sender.owed := by
  rw [funext Sender.owed_eq]
  exact tally_owedBy fun _ => rfl

/-- `timely`, for a step of the writer. -/
structure Timely (t : Trigger) (v : Writer) : Prop where
  respond : ∀ framed rest, t = .frame (.respondData framed) → v.todo = .respondData framed :: rest →
    v.h2.closed = false ∧ framed.length ≤ v.h2.window
  deadline : ∀ rest k, t = .frame .onDeadlineRest → v.todo = .onDeadlineRest :: rest →
    v.call = some k → k.responded = false → k.form ≠ .unary → k.responseHeadersSent = true →
    k.outInflight = false

theorem timely_trigger {c : Conf} {l : Label} {t : Trigger} (h : timely c l = true)
    (ht : trigger c l = some t) : Timely t (.of c) := by
  cases triggers_of_trigger ht with
  | overrun | event | violation => exact ⟨by simp, by simp⟩
  | frame hf =>
      constructor
      · rintro framed _ ⟨⟩ _
        simpa [timely, hf, Writer.of, writer] using h
      · rintro _ k ⟨⟩ _ hk hr hform hh
        obtain ⟨k', hk', rfl⟩ := Option.map_eq_some_iff.mp hk
        simpa [timely, hf, show c.st.call = some k' from hk', hr, hform, hh] using h

/-! ## The invariant -/

structure Tidy (v : Writer) : Prop where
  plain : v.h2.Plain
  owing : Flying Sender.owed v
  clear : 0 < responding v.todo → v.h2.unread = []
  framed : .respondData [] ∉ v.todo
  kept : v.h2.overtook = false

section Steps

variable {t : Trigger} {v w : Writer} {k : WriteSide}

/-- Without a body in flight everything has been read. -/
theorem Tidy.unread (h : Tidy v) (hc : v.call = some k) (hi : k.outInflight = false) :
    v.h2.unread = [] := by
  have := h.owing.idle hc hi
  rw [Sender.owed] at this
  exact List.eq_nil_of_length_eq_zero (by omega)

/-- A unary call has no body in flight. -/
theorem Turns.unary_idle (ht : Turns v) (hc : v.call = some k) (hs : v.stream = some false) :
    k.outInflight = false := by
  by_contra hne
  have hk := ht.turn k hc
  cases hs.symm.trans (hk.sent (hk.busy (.inl (by simpa using hne))))

theorem plain_pump {out : OutMsg} {queue : List OutMsg} (hp : v.h2.Plain)
    (h : Pump v k out queue w) : w.h2.Plain := by
  cases h with
  | first => exact hp.sendHeaders _ _
  | next => exact hp.sendData _ _

theorem plain_step (hp : v.h2.Plain) (h : Step t v w) : w.h2.Plain := by
  cases h with
  | badHeaders | answered | respondOk | respondErr | deadlineOnly | finishOnly =>
      exact hp.sendHeaders _ _
  | respondData | pumpOutData => exact hp.sendData _ _
  | respondTrailers | deadlineTrailers | deferredFinish | finishTrailers =>
      exact hp.sendTrailers _
  | written _ _ _ _ _ _ h =>
      refine plain_pump ?_ h
      exact hp
  | pumped _ _ _ _ _ h => exact plain_pump hp h
  | consumed => exact ⟨hp.item, hp.ended⟩
  | credit => exact hp.credit _
  | closeIdle | close => exact hp.close
  | _ => exact hp

/-- Before the terminal block the sending side is open. -/
theorem not_ended (hv : Sound v) (hp : v.h2.Plain)
    (h : 0 < pumping v.todo + responding v.todo ∨ ∃ k, v.call = some k ∧ k.responded = false) :
    v.h2.ended = false := by
  obtain ⟨p, hl⟩ := hv.lawful
  by_contra he
  refine hp.ended (by simpa using he) ?_
  have hstart : p = .start → terminals v.h2.subs = [] := by
    rintro rfl
    rw [word_start hl.word]
    rfl
  have hopened : p = .opened → terminals v.h2.subs = [] := by
    rintro rfl
    obtain ⟨bodies, hw⟩ := word_opened hl.word
    rw [hw]
    simp [terminals, Submission.isTerminal]
  rcases h with hw | ⟨k, hc, hr⟩
  · exact hopened (hl.waiting hw)
  · cases hh : k.responseHeadersSent with
    | true => exact hopened (by rw [hl.live k hc hr, hh]; rfl)
    | false => exact hstart (by rw [hl.live k hc hr, hh]; rfl)

/-- The body of a unary response is read at once. -/
theorem respondData_read {framed : Bytes} {rest : List Frame} (hv : Sound v) (ht : Tidy v)
    (htime : Timely (.frame (.respondData framed)) v)
    (hto : v.todo = .respondData framed :: rest) :
    (v.h2.sendData framed false none).unread = [] ∧
      (v.h2.sendData framed false none).owed = v.h2.owed := by
  have hresp : 0 < responding v.todo := by simp [hto, Frame.responds]
  have hunread := ht.clear hresp
  have hended := not_ended hv ht.plain (.inl (by omega))
  obtain ⟨hclosed, hle⟩ := htime.respond framed rest rfl hto
  have hne : framed ≠ [] := by
    rintro rfl
    exact ht.framed (by simp [hto])
  rw [← hunread]
  exact v.h2.sendData_whole framed false hclosed hended (Sender.unread_nil hunread).2 hne hle

theorem clear_pump {out : OutMsg} {queue : List OutMsg} (ht : Turns v) (hc : v.call = some k)
    (hr : k.responded = false) (h : Pump v k out queue w) : responding w.todo = 0 := by
  have := (ht.turn k hc).unanswered hr
  cases h with
  | first => simpa [Frame.responds] using this
  | next => exact this

/-- While a unary response waits for its trailers, every body has been read. -/
theorem clear_step (hv : Sound v) (ht : Tidy v) (htime : Timely t v) (h : Step t v w)
    (hw : 0 < responding w.todo) : w.h2.unread = [] := by
  have hone := hv.turns.one
  cases h with
  | quiet | requestEnded | dispatchedUnary | dispatchedStream | rejected | queued | writeDone
  | finishIgnored | finishDeferred | cancelOut => exact ht.clear hw
  | created | unrouted | createdStream => exact ht.clear hw
  | badHeaders | answered | respondErr | finishOnly =>
      rw [Sender.sendHeaders_unread]
      exact ht.clear hw
  | respondOk hc hs =>
      rw [Sender.sendHeaders_unread]
      exact ht.unread hc (hv.turns.unary_idle hc hs)
  | respondData hto => exact (respondData_read hv ht htime hto).1
  | respondTrailers hto | pumpOutData hto =>
      simp [hto, Frame.pumps, Frame.responds] at hone
      dsimp only at hw
      omega
  | deadlineFired | connectionLost => simp [Frame.responds] at hw
  | deadlineLate hto | consumedRest hto | cancelEnd hto | erase hto =>
      exact ht.clear (by simpa [hto, Frame.responds] using hw)
  | deadlineOnly hto =>
      rw [Sender.sendHeaders_unread]
      exact ht.clear (by simpa [hto, Frame.responds] using hw)
  | deadlineTrailers hto | deferredFinish hto =>
      exact Sender.sendTrailers_unread (ht.clear (by simpa [hto, Frame.responds] using hw)) _
  | finishTrailers => exact Sender.sendTrailers_unread (ht.clear hw) _
  | written hc _ hr _ _ _ hp =>
      have hw0 : responding w.todo = 0 := by
        refine clear_pump ?_ ?_ hr hp
        · exact ⟨hv.turns.fresh, hv.turns.one, hv.turns.turn⟩
        · exact hc
      omega
  | pumped hc _ hr _ _ hp =>
      have := clear_pump hv.turns hc hr hp
      omega
  | consumed =>
      exact ht.clear (by simpa [Frame.responds] using hw)
  | credit => exact Sender.credit_unread (ht.clear hw) _
  | closeIdle => exact Sender.close_unread (ht.clear hw)
  | close => exact Sender.close_unread (ht.clear (by simpa [Frame.responds] using hw))

theorem framed_step (hf : .respondData [] ∉ v.todo) (h : Step t v w) :
    .respondData [] ∉ w.todo := by
  cases h with
  | respondOk =>
      have := encodeFrame_ne_nil
      simp [hf, this]
  | respondData hto | respondTrailers hto | deadlineLate hto | deadlineTrailers hto
  | deadlineOnly hto | pumpOutData hto | consumedRest hto | deferredFinish hto
  | cancelEnd hto | erase hto =>
      rw [hto] at hf
      simp at hf ⊢
      tauto
  | deadlineFired | connectionLost => simp
  | written _ _ _ _ _ _ hp | pumped _ _ _ _ _ hp =>
      cases hp with
      | first => simpa using hf
      | next => exact hf
  | consumed | close => simpa using hf
  | _ => exact hf

theorem kept_step (ht : Tidy v) (htime : Timely t v) (h : Step t v w) :
    w.h2.overtook = false := by
  have hkept := ht.kept
  cases h with
  | respondTrailers hto =>
      rw [Sender.sendTrailers_overtook (ht.clear (by simp [hto, Frame.responds]))]
      exact hkept
  | deadlineTrailers hto hc hr hform hh =>
      have hi := htime.deadline _ _ rfl hto hc hr hform hh
      rw [Sender.sendTrailers_overtook (ht.unread hc hi)]
      exact hkept
  | deferredFinish _ hc _ hi | finishTrailers hc _ _ hi =>
      rw [Sender.sendTrailers_overtook (ht.unread hc hi)]
      exact hkept
  | written _ _ _ _ _ _ hp | pumped _ _ _ _ _ hp => cases hp <;> simpa using hkept
  | _ => simpa using hkept

theorem tidy_step (hv : Sound v) (ht : Tidy v) (htime : Timely t v) (h : Step t v w) : Tidy w where
  plain := plain_step ht.plain h
  owing := by
    refine flying_step tally_owed hv.dispatched ht.owing ?_ h
    rintro framed rest rfl hto
    exact Nat.le_of_eq (respondData_read hv ht htime hto).2
  clear := clear_step hv ht htime h
  framed := framed_step ht.framed h
  kept := kept_step ht htime h

end Steps

end Writer

theorem tidy_fresh : Tidy (.of fresh) := by
  refine ⟨⟨by simp [Writer.of, writer, fresh], by simp [Writer.of, writer, fresh]⟩, ?_, ?_, ?_, rfl⟩
  · constructor <;> simp [Writer.of, writer, fresh, flying, Sender.owed, Sender.unread]
  · simp [Writer.of, writer, fresh]
  · simp [Writer.of, writer, fresh]

/-- One header block, and every step `timely`. -/
def InTime (c : Conf) (l : Label) : Prop := oneBlock c l ∧ timely c l = true

instance (c : Conf) (l : Label) : Decidable (InTime c l) := inferInstanceAs (Decidable (_ ∧ _))

/-- **Trailers never overtake data**, in every run of a connection, all its streams taking
    turns, whose steps are all in time: on every stream, whatever the payloads, the credit and
    the order of events, each `SendTrailers` came after every earlier body had been read to
    its end. -/
theorem trailers_never_overtake (cfg : Config) (d : Int → Conf)
    (h : (machine cfg).Interleaved InTime (fun _ => fresh) d) (sid : Int) :
    (d sid).st.h2.overtook = false := by
  refine (reach_writer (I := Tidy) (fun _ _ h => h.1) sound_fresh tidy_fresh ?_ (h.proj sid)).2.kept
  rintro c l t w ⟨-, htimely⟩ htr hv ht hst
  exact tidy_step hv ht (timely_trigger htimely htr) hst

/-- A unary call whose handler has the request. -/
def openUnary : List Label :=
  [.event (.headers (demoHeaders "/t/U") false), .resume,
   .event (.data (encodeFrame [1]) true), .resume]

/-- Two short runs in which trailers overtake: a unary response to a peer that has granted no
    window, and a deadline that fires while a streamed message waits for the window. -/
theorem respond_overtakes :
    (((machine demo).run oneBlock fresh (openUnary ++
      [.event (.op (.respond .okay [2])), .resume, .resume])).map fun d => d.st.h2.overtook) =
      some true ∧
    (((machine demo).run oneBlock fresh
      [.event (.headers (("grpc-timeout", str "1S") :: demoHeaders "/t/B") false), .resume,
       .event (.op (.writeMessage [2] none)), .resume, .event (.deadline 1), .resume]).map
      fun d => d.st.h2.overtook) = some true := by
  decide

/-- With enough window the unary response is in time. -/
theorem trailers_never_overtake_unary :
    ∃ d : Int → Conf, (machine demo).Interleaved InTime (fun _ => fresh) d ∧
      (d 1).st.h2.subs.length = 3 ∧ (d 1).st.h2.overtook = false := by
  obtain ⟨c, hc, hsubs⟩ := Option.map_eq_some_iff.mp (show
    ((machine demo).run InTime fresh (openUnary ++ [.event (.credit 100),
      .event (.op (.respond .okay [2])), .resume, .resume])).map (fun d => d.st.h2.subs.length) =
      some 3 by decide)
  have hr := Resume.System.Interleaved.single (c := fun _ : Int => fresh) (i := 1)
    (Resume.System.reach_of_run _ _ _ hc)
  refine ⟨_, hr, ?_, trailers_never_overtake demo _ hr 1⟩
  rw [Function.update_self]
  exact hsubs

end Urpc.Server
