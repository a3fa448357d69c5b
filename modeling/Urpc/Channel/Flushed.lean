/-
  `on_flushed` callbacks of the client.

  A message gives its callback from the parked queue to the stream's queue and from there to the
  closure that `PumpStream` hands to the session. The paths that terminate a stream call the
  callbacks of the queue; the closure is destroyed with the stream's bodies, or kept there for
  good, and its callback is not called (`trailers_drop_flushed`). If no stream terminates while
  it has a message in flight, every callback is called exactly once.

  Proved: `flushed_exactly_once`.
-/
import Urpc.Channel.Broken

namespace Urpc.Channel

open Cxx Total

namespace Desk

/-- Closures of the stream `id` that the session has and has not run. -/
def aloft (v : Desk) (id : Nat) : Nat :=
  total (fun _ h2 => Sender.carried (closureOf id) h2) v.nextSid v.senders

/-- How many a stream can have: one, while it is live and its message is in flight. -/
def inFlight : Option Stream → Nat
  | some st => if !st.completed && st.outInflight then 1 else 0
  | none => 0

def Flights (v : Desk) : Prop := ∀ id, v.aloft id ≤ inFlight (v.streams id)

variable {v v' : Desk} {E : Env}

theorem Flights.keep (h : Flights v) (haloft : ∀ id, v'.aloft id = v.aloft id)
    (hstreams : ∀ id, inFlight (v.streams id) ≤ inFlight (v'.streams id)) : Flights v' := by
  intro id
  rw [haloft]
  exact Nat.le_trans (h id) (hstreams id)

/-- A stream changes and stays as busy as it was. -/
theorem inFlight_update {streams : Nat → Option Stream} {id : Nat} {x : Option Stream}
    (h : inFlight (streams id) ≤ inFlight x) (id' : Nat) :
    inFlight (streams id') ≤ inFlight (Function.update streams id x id') := by
  by_cases heq : id' = id
  · subst heq
    rwa [Function.update_self]
  · rw [Function.update_of_ne heq]

/-- A stream that is being opened has nothing in the session. -/
theorem Books.opening_idle (hb : Books v) {sid : Nat} {ps : PendingStream}
    {decoder : FrameDecoder} {fs : List Frame} (hf : v.todo = .openStreamRest sid ps decoder :: fs) :
    inFlight (v.streams ps.id) = 0 := by
  have hheld : 0 < v.waiting (single (.complete ps.id)) := by
    simp only [waiting, hf, List.map_cons, List.sum_cons, frameWeight, parkedWeight, single,
      if_true]
    omega
  have hfree := hb.stream_free hheld fun _ => 1
  cases hst : v.streams ps.id with
  | none => rfl
  | some st =>
      rw [hst] at hfree
      by_cases hc : st.completed = true
      · simp [inFlight, hc]
      · simp only [streamWeight, hc, Bool.false_eq_true, if_false] at hfree
        omega

theorem flights_move (hcalm : E.calm) (hb : Books v) (h : Flights v) (hm : Move E v v') :
    Flights v' := by
  -- a sender that carries what it carried
  have hsame : ∀ {sid : Nat} {h2 : Sender Closure}, (∀ f, h2.carried f = (v.senders sid).carried f) →
      ∀ id, total (fun _ h2 => Sender.carried (closureOf id) h2) v.nextSid
        (Function.update v.senders sid h2) = v.aloft id :=
    fun heq id => total_update_same v.senders _ (heq _)
  have hbusy : ∀ {id : Nat} {st st' : Stream}, v.streams id = some st →
      st'.completed = st.completed → st'.outInflight = st.outInflight →
      ∀ id', inFlight (v.streams id') ≤ inFlight (Function.update v.streams id (some st') id') := by
    intro id st st' hst h1 h2
    refine inFlight_update ?_
    rw [hst, inFlight, inFlight, h1, h2]
  -- a stream with nothing in flight may change at will
  have hidle : ∀ {id : Nat} {x : Option Stream}, inFlight (v.streams id) = 0 →
      ∀ id', inFlight (v.streams id') ≤ inFlight (Function.update v.streams id x id') :=
    fun h0 => inFlight_update (by omega)
  cases hm with
  | credit sid n => exact h.keep (hsame fun f => Sender.credit_carried f _ n) fun _ => Nat.le_refl _
  | close sid => exact h.keep (hsame fun f => Sender.close_carried f _) fun _ => Nat.le_refl _
  | reset sid =>
      refine h.keep (hsame ?_) fun _ => Nat.le_refl _
      exact fun f => rfl
  | @consumed sid n notes st hn hst =>
      intro id
      have hsend := total_update (f := fun _ h2 => Sender.carried (closureOf id) h2) v.senders
        { v.senders sid with notes } (hb.bounds.sender_lt hn)
      simp only [Sender.carried, hn, List.map_cons, List.sum_cons] at hsend
      have hold := h id
      simp only [aloft, note, setStream, setSender, Sender.carried] at hold ⊢
      by_cases heq : id = n.id
      · -- the only closure of this stream has run
        subst heq
        have hle : inFlight (v.streams n.id) ≤ 1 := by
          rw [hst, inFlight]
          split <;> omega
        simp only [closureOf, if_true] at hsend hold ⊢
        omega
      · rw [Function.update_of_ne heq]
        simp only [closureOf, Ne.symm heq, if_false] at hsend hold ⊢
        omega
  | @consumedLate sid n notes hn hst =>
      intro id
      have hsend := total_update (f := fun _ h2 => Sender.carried (closureOf id) h2) v.senders
        { v.senders sid with notes } (hb.bounds.sender_lt hn)
      simp only [Sender.carried, hn, List.map_cons, List.sum_cons] at hsend
      have hold := h id
      simp only [aloft, note, setSender, Sender.carried] at hold ⊢
      omega
  | lost hses hphase htodo hall =>
      intro id
      have haloft : v.aloft id = 0 := by
        have hold := h id
        cases hst : v.streams id with
        | none =>
            rw [hst, inFlight] at hold
            omega
        | some st =>
            rw [hst, inFlight] at hold
            by_cases hc : st.completed = true
            · simp only [hc, Bool.not_true, Bool.false_and, Bool.false_eq_true, if_false] at hold
              omega
            · have := hall hcalm id (hb.bounds.stream_lt hst) st hst (by simpa using hc)
              simp only [this, Bool.and_false, Bool.false_eq_true, if_false] at hold
              omega
      have hclose : v.lose.aloft id = v.aloft id :=
        total_congr fun sid _ => Sender.close_carried _ _
      omega
  | callSubmitted fields body hn =>
      cases hn <;>
        exact h.keep (fun id => total_submit ⟨hb.bounds.pos, hb.bounds.calls, hb.bounds.streams,
          hb.bounds.sids, hb.bounds.opening, hb.bounds.senders⟩ (submitRequest_carried _ _ _))
          fun _ => Nat.le_refl _
  | streamOpened hn =>
      cases hn <;>
        exact h.keep (fun id => total_submit ⟨hb.bounds.pos, hb.bounds.calls, hb.bounds.streams,
          hb.bounds.sids, hb.bounds.opening, hb.bounds.senders⟩ (Sender.sendHeaders_carried _ _ _ _))
          fun _ => Nat.le_refl _
  | callFailed _ hn => cases hn <;> exact h
  | streamFailed _ hn => cases hn <;> exact h
  | streamRegistered timer hf => exact h.keep (fun _ => rfl) (hidle (hb.opening_idle hf))
  | streamFed _ _ hst | closeQueued hst | closeMarked hst | sendQueued _ hst
  | streamTimeout hst => exact h.keep (fun _ => rfl) (hbusy hst rfl rfl)
  | streamOver decoder status hst hc hends =>
      refine h.keep (fun _ => rfl) (hidle ?_)
      simp [hst, inFlight, hends hcalm]
  | streamErased hf hst hc =>
      refine h.keep (fun _ => rfl) (hidle ?_)
      simp [hst, inFlight, hc]
  | closeSent hst =>
      refine h.keep (hsame fun f => ?_) (hbusy hst rfl rfl)
      exact Sender.sendData_carried f _ _ _ none
  | @pumped id st out queue hst hq hc hi =>
      have hstart : v.aloft id = 0 := by
        have := h id
        simp only [hst, inFlight, hi, Bool.and_false, Bool.false_eq_true, if_false] at this
        omega
      intro id'
      have hsend := total_update (f := fun _ h2 => Sender.carried (closureOf id') h2) v.senders
        ((v.senders st.sid).sendData out.framed out.close (some ⟨id, out.cb⟩))
        (hb.bounds.sids id st hst).2
      simp only [Sender.sendData_carried, Option.toList_some, List.map_cons, List.map_nil,
        List.sum_cons, List.sum_nil] at hsend
      have hold := h id'
      simp only [aloft, setStream, setSender] at hold hstart ⊢
      by_cases heq : id' = id
      · subst heq
        rw [Function.update_self]
        simp only [inFlight, hc, closureOf, if_true, Bool.not_false, Bool.true_and] at hsend ⊢
        omega
      · rw [Function.update_of_ne heq]
        simp only [closureOf, Ne.symm heq, if_false] at hsend hold ⊢
        omega
  | _ => exact h

theorem flights_fresh (o : Options) : Flights (desk (fresh o).st (fresh o).frames) := by
  intro id
  exact Nat.le_of_eq (total_eq_zero fun sid _ => rfl)

end Desk

/-! ## A stream that is over -/

section Over

variable {id : Nat} {cb : CbId}

theorem queueWeight_flushed {id' : Nat} (hne : id' ≠ id) (queue : List OutMsg) :
    queueWeight (single (.flushed id cb)) id' queue = 0 := by
  have hcb : ∀ cb', cbWeight (single (.flushed id cb)) id' cb' = 0 := by
    intro cb'
    cases cb' <;> simp [cbWeight, single, hne]
  simp [queueWeight, hcb]

/-- Another parked stream holds no `on_flushed` of the stream. -/
theorem parkedWeight_flushed {ps : PendingStream} (hne : ps.id ≠ id) :
    parkedWeight (single (.flushed id cb)) ps = 0 := by
  simp [parkedWeight, queueWeight_flushed hne, single]

theorem frameWeight_flushed {f : Frame}
    (h : ∀ sid ps decoder, f = .openStreamRest sid ps decoder → ps.id ≠ id) :
    frameWeight (single (.flushed id cb)) f = 0 := by
  cases f with
  | openStreamRest sid ps decoder => exact parkedWeight_flushed (h sid ps decoder rfl)
  | _ => rfl

theorem streamWeight_flushed {id' : Nat} {st : Option Stream}
    (h : id' = id → ∀ st', st = some st' → st'.completed = true) :
    streamWeight (single (.flushed id cb)) id' st = 0 := by
  cases st with
  | none => rfl
  | some st =>
      by_cases heq : id' = id
      · simp [streamWeight, h heq st rfl]
      · simp [streamWeight, queueWeight_flushed heq, single]

theorem callWeight_flushed (id' : Nat) (call : Option Call) :
    callWeight (single (.flushed id cb)) id' call = 0 := by
  cases call <;> simp [callWeight, single]

theorem closureWeight_flushed (n : Closure) :
    closureWeight (single (.flushed id cb)) n ≤ Desk.closureOf id n := by
  unfold closureWeight cbWeight Desk.closureOf
  cases n.cb with
  | none => simp
  | some cb' =>
      by_cases h : n.id = id
      · by_cases hcb : cb' = cb <;> simp [single, h, hcb]
      · simp [single, h]

variable {v : Desk}

theorem Desk.waiting_flushed (hposted : v.posted = []) (hparked : ∀ ps ∈ v.parked, ps.id ≠ id)
    (hopening : ∀ sid ps decoder, .openStreamRest sid ps decoder ∈ v.todo → ps.id ≠ id) :
    v.waiting (single (.flushed id cb)) = 0 := by
  simp only [waiting, hposted, Nat.add_eq_zero_iff, List.sum_eq_zero_iff, List.mem_map,
    forall_exists_index, and_imp, forall_apply_eq_imp_iff₂]
  refine ⟨⟨⟨by simp, ?_⟩, ?_⟩, ?_⟩
  · intro pc _
    simp [single]
  · exact fun ps hps => parkedWeight_flushed (hparked ps hps)
  · exact fun f hf => frameWeight_flushed fun sid ps decoder heq =>
      hopening sid ps decoder (heq ▸ hf)

/-- A stream that is over has nothing in flight. -/
theorem Desk.Flights.aloft_eq_zero (h : Flights v)
    (hover : ∀ st, v.streams id = some st → st.completed = true) : v.aloft id = 0 := by
  have hle := h id
  cases hst : v.streams id with
  | none =>
      rw [hst, inFlight] at hle
      omega
  | some st =>
      simp only [hst, inFlight, hover st hst, Bool.not_true, Bool.false_and, Bool.false_eq_true,
        if_false] at hle
      omega

theorem Desk.Flights.tabled_flushed (h : Flights v)
    (hover : ∀ st, v.streams id = some st → st.completed = true) :
    v.tabled (single (.flushed id cb)) = 0 := by
  have haloft := h.aloft_eq_zero hover
  have hsenders : ∀ sid < v.nextSid,
      (v.senders sid).carried (closureWeight (single (.flushed id cb))) = 0 := by
    intro sid hsid
    have hle := le_total (f := fun _ h2 => Sender.carried (closureOf id) h2) v.senders hsid
    have hweight : ∀ n, closureWeight (single (.flushed id cb)) n ≤ closureOf id n :=
      closureWeight_flushed
    have hmono := Sender.carried_mono hweight (v.senders sid)
    rw [aloft] at haloft
    omega
  rw [tabled, total_eq_zero fun id' _ => callWeight_flushed id' _,
    total_eq_zero fun id' _ => streamWeight_flushed fun heq => heq ▸ hover, total_eq_zero hsenders]

end Over

/-- Steps in which a stream terminates only while it has no message in flight. -/
def calmEnds (c : Conf) (l : Label) : Prop := calmEnd c l = true

instance (c : Conf) (l : Label) : Decidable (calmEnds c l) :=
  inferInstanceAs (Decidable (calmEnd c l = true))

/-- The stream `id` has terminated, or there never was one: it is not live in `streams`, not parked
    in `pending_streams` and not on its way from there. -/
structure Over (c : Conf) (id : Nat) : Prop where
  streams : ∀ st, c.st.streams id = some st → st.completed = true
  parked : ∀ ps ∈ c.st.pendingStreams, ps.id ≠ id
  opening : ∀ sid ps decoder, .openStreamRest sid ps decoder ∈ c.frames → ps.id ≠ id

/-- **Send callbacks are called exactly once**, in a run in which every stream terminates while
    its `out_inflight` is false: once the stream is over and no task is waiting, every `on_flushed`
    given with a message of the stream has been called as often as it was given. -/
theorem flushed_exactly_once (o : Options) (d : Conf) (h : machine.Reach calmEnds (fresh o) d)
    (hposted : d.st.posted = []) (id : Nat) (hend : Over d id) (cb : CbId) :
    (called d.st.log).count (.flushed id cb) = d.st.issued.count (.flushed id cb) := by
  obtain ⟨-, hbooks, hflights⟩ := reach_desk (E := { Env.any with calm := True })
    (I := fun v => Desk.Books v ∧ Desk.Flights v)
    (fun c l hl => { calm := fun _ => hl })
    ⟨Desk.books_fresh o, Desk.flights_fresh o⟩
    (fun v w hr hi hm => ⟨Desk.books_move hr hi.1 hm, Desk.flights_move trivial hi.1 hi.2 hm⟩) h
  have hlog : (desk d.st d.frames).log = d.st.log := rfl
  have hissued : (desk d.st d.frames).issued = d.st.issued := rfl
  have hwaiting : (desk d.st d.frames).waiting (single (.flushed id cb)) = 0 :=
    Desk.waiting_flushed hposted hend.parked hend.opening
  have htabled : (desk d.st d.frames).tabled (single (.flushed id cb)) = 0 :=
    hflights.tabled_flushed hend.streams
  have hledger := hbooks.ledger (single (.flushed id cb))
  simp only [Desk.spent, Desk.due, calledWeight, Desk.sum_single, hlog, hissued] at hledger
  omega

/-- The stream 1, opened on the HTTP/2 stream 1, and a message given to it. -/
def openAndSend : List Label :=
  [.event (.openStream (str "/b") ⟨true, true⟩ 0), .event (.task none), .event .connected,
    .resume, .resume, .resume, .resume,
    .event (.streamSend 1 [0, 0, 0, 0, 0] (some 7) false), .event (.task none)]

/-- The message is read to its end before the trailers arrive. -/
theorem flushed_exactly_once_before_trailers :
    ∃ d, machine.Reach calmEnds (fresh demo) d ∧ Over d 1 ∧
      d.st.issued.count (.flushed 1 7) = 1 ∧ (called d.st.log).count (.flushed 1 7) = 1 := by
  obtain ⟨d, hd, hposted, hst, hparked, hframes, hissued⟩ : ∃ d, machine.run calmEnds (fresh demo)
      (openAndSend ++ [.event (.credit 1 5), .event (.consumed 1), .event (.task none),
        .event (.headers 1 [("grpc-status", str "0")])]) = some d ∧ d.st.posted = [] ∧
      (d.st.streams 1).all Stream.completed = true ∧ d.st.pendingStreams = [] ∧ d.frames = [] ∧
      d.st.issued.count (.flushed 1 7) = 1 := ⟨_, rfl, rfl, rfl, rfl, rfl, rfl⟩
  have hr := machine.reach_of_run _ _ _ hd
  have hend : Over d 1 := by
    refine ⟨fun st h => ?_, by simp [hparked], by simp [hframes]⟩
    rw [h] at hst
    exact hst
  have hcount := flushed_exactly_once demo d hr hposted 1 hend 7
  exact ⟨d, hr, hend, hissued, hcount.trans hissued⟩

/-- The trailers arrive while the window holds the message back: the stream is complete, nothing
    is left to run, and the message's callback has not been called. -/
theorem trailers_drop_flushed :
    ∃ d, machine.Reach anyStep (fresh demo) d ∧ .complete 1 ∈ called d.st.log ∧
      d.st.posted.length = 0 ∧ d.frames.length = 0 ∧ .flushed 1 7 ∈ d.st.issued ∧
      .flushed 1 7 ∉ called d.st.log := by
  obtain ⟨d, hd, hfacts⟩ := Option.map_eq_some_iff.mp (show
    (machine.run anyStep (fresh demo) (openAndSend ++
      [.event (.headers 1 [("grpc-status", str "0")])])).map (fun d =>
        decide (.complete 1 ∈ called d.st.log ∧ d.st.posted.length = 0 ∧ d.frames.length = 0 ∧
          .flushed 1 7 ∈ d.st.issued ∧ .flushed 1 7 ∉ called d.st.log)) = some true by decide)
  exact ⟨d, Resume.System.reach_of_run _ _ _ hd, of_decide_eq_true hfacts⟩

end Urpc.Channel
