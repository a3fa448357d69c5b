/-
  What the handler of a streaming call reads.

  `Received v taken` accounts for every request message: `taken` were taken out of the decoder,
  a prefix of them has been delivered, and as long as reading is not finished the others wait
  in the context or in `pending_msgs`. It is an invariant as long as the bytes are accepted by
  the decoder and no deadline fires.

  Proved: `received_step` (every rule keeps it), `reading_step` (every step of the machine).
-/
import Urpc.Codec.RoundTrip
import Urpc.Server.Grammar
import Urpc.Server.Reader

namespace Urpc.Server

open Cxx FrameDecoder

/-- The messages read. -/
def delivered : List ReadEvent → List Bytes
  | [] => []
  | e :: es => if e.st.ok && !e.eos then e.msg :: delivered es else delivered es

@[simp] theorem delivered_append (es fs : List ReadEvent) :
    delivered (es ++ fs) = delivered es ++ delivered fs := by
  induction es with
  | nil => rfl
  | cons e es ih =>
      simp only [List.cons_append, delivered, ih]
      split <;> simp

/-- The message stashed in a context. -/
def stash : Option Ctx → List Bytes
  | some (.stream (some msg)) => [msg]
  | _ => []

namespace Reader

/-- The call's part: `taken` has been taken out of its decoder, `given` has been delivered, and
    while reading goes on the rest waits in the context or in `pending_msgs`. -/
structure Holding (max : Nat) (recv : Bytes) (taken given : List Bytes) (ctx : Option Ctx)
    (k : Asked) : Prop where
  decoded : Decoded max recv taken k.decoder
  live : k.form ≠ .unary → k.readFinished = false → given ++ stash ctx ++ k.pendingMsgs = taken
  idle : ctx = none → k.pendingMsgs = [] ∧ k.readCb = none
  armed : k.readCb ≠ none → stash ctx = [] ∧ k.pendingMsgs = []
  answered : k.responded = true → k.readFinished = true ∨ ctx = none ∨ ctx = some .unary
  early : k.responded = true → ctx = none → k.requestDone = true ∧
    (k.form = .serverStreaming → k.decoder.hasMessage = false)

structure Received (max : Nat) (v : Reader) (taken : List Bytes) : Prop where
  fresh : v.opened = false → v.call = none ∧ v.ctx = none ∧ v.recv = [] ∧ taken = []
  sub : taken <+: ((new max).consume v.recv).2.messages
  given : delivered v.events <+: taken
  call : ∀ k, v.call = some k → Holding max v.recv taken (delivered v.events) v.ctx k

section Steps

variable {max : Nat} {t : Trigger} {v w : Reader} {taken : List Bytes} {k : Asked}

theorem Received.opened (h : Received max v taken) (hc : v.call = some k) : v.opened ≠ false := by
  intro ho
  cases hc.symm.trans (h.fresh ho).1

/-- Before the header block nothing has happened. -/
theorem Received.empty (h : Received max v taken) (ho : v.opened = false) :
    Decoded max v.recv taken (new max) ∧ delivered v.events = [] ∧ taken = [] := by
  obtain ⟨-, -, hr, ht⟩ := h.fresh ho
  refine ⟨?_, ?_, ht⟩
  · rw [hr, ht]
    exact decoded_new max
  · exact List.prefix_nil.mp (ht ▸ h.given)

theorem decoded_sub {recv : Bytes} {d : FrameDecoder} (h : Decoded max recv taken d) :
    taken <+: ((new max).consume recv).2.messages := by
  rw [← h.messages_eq]
  exact List.prefix_append _ _

/-- Rules that change the call but take no message and deliver none. -/
theorem Received.keep {k' : Asked} {ctx : Option Ctx} {events : List ReadEvent}
    (h : Received max v taken) (hc : v.call = some k)
    (he : delivered events = delivered v.events)
    (hk : Holding max v.recv taken (delivered v.events) v.ctx k →
      Holding max v.recv taken (delivered v.events) ctx k') :
    Received max { v with call := some k', ctx, events } taken := by
  refine ⟨fun ho => absurd ho (h.opened hc), h.sub, by rw [he]; exact h.given, ?_⟩
  rintro _ ⟨⟩
  rw [he]
  exact hk (h.call k hc)

theorem Received.take {k' : Asked} {ctx : Option Ctx} {events : List ReadEvent}
    (h : Received max v taken) (hc : v.call = some k) (hm : k.decoder.hasMessage = true)
    (hdec : k'.decoder = k.decoder.takeMessage.2)
    (hk : Holding max v.recv taken (delivered v.events) v.ctx k → 
      delivered events <+: taken ++ [k.decoder.takeMessage.1] ∧
      (Decoded max v.recv (taken ++ [k.decoder.takeMessage.1]) k'.decoder →
      Holding max v.recv (taken ++ [k.decoder.takeMessage.1]) (delivered events) ctx k')) :
    Received max { v with call := some k', ctx, events } (taken ++ [k.decoder.takeMessage.1]) := by
  have hdec' : Decoded max v.recv (taken ++ [k.decoder.takeMessage.1]) k'.decoder := by
    rw [hdec]
    exact (h.call k hc).decoded.takeMessage hm
  obtain ⟨hgiven, hhold⟩ := hk (h.call k hc)
  refine ⟨fun ho => absurd ho (h.opened hc), decoded_sub hdec', hgiven, ?_⟩
  rintro _ ⟨⟩
  exact hhold hdec'

theorem received_step (h : Received max v taken) (hviol : ∀ chunk, t ≠ .violation chunk)
    (hdead : t ≠ .frame .onDeadlineRest) (hs : Step max t v w) :
    ∃ taken', Received max w taken' := by
  have hlate : ∀ m, delivered v.events <+: taken ++ [m] :=
    fun m => h.given.trans (List.prefix_append _ _)
  have hsilent : ∀ {st eos msg}, st.ok = false ∨ eos = true →
      delivered (v.events ++ [⟨st, eos, msg⟩]) = delivered v.events := by
    intro st eos msg hst
    rcases hst with hst | hst <;> simp [delivered, hst]
  have hread : ∀ m, delivered (v.events ++ [⟨.okay, false, m⟩]) = delivered v.events ++ [m] :=
    fun m => delivered_append ..
  cases hs with
  | quiet => exact ⟨taken, h⟩
  | badHeaders => exact ⟨taken, by simp, h.sub, h.given, h.call⟩
  | created ho _ hx =>
      obtain ⟨hdec, hdel, ht⟩ := h.empty ho
      refine ⟨taken, by simp, h.sub, h.given, ?_⟩
      rintro _ ⟨⟩
      exact ⟨hdec, by simp [hdel, hx, stash, ht], by simp, by simp, by simp, by simp⟩
  | createdStream ho =>
      obtain ⟨hdec, hdel, ht⟩ := h.empty ho
      refine ⟨taken, by simp, h.sub, h.given, ?_⟩
      rintro _ ⟨⟩
      exact ⟨hdec, by simp [hdel, stash, ht], by simp, by simp, by simp, by simp⟩
  | @fed _ k chunk _ hc hdone hok =>
      have hk := h.call k hc
      have hdec := hk.decoded.consume (b := chunk) (by rw [← hk.decoded.consume_fst]; exact hok)
      refine ⟨taken, fun ho => absurd ho (h.opened hc), decoded_sub hdec, h.given, ?_⟩
      rintro _ ⟨⟩
      refine ⟨hdec, hk.live, hk.idle, hk.armed, hk.answered, fun hr hx => ?_⟩
      cases hdone.symm.trans (hk.early hr hx).1
  | rejected => exact absurd rfl (hviol _)
  | @first _ _ k _ _ hc hx hf hm =>
      refine ⟨_, h.take hc hm rfl fun hk => ⟨hlate _, fun hdec => ?_⟩⟩
      obtain ⟨hp, hcb⟩ := hk.idle hx
      -- an answered call would have no message left
      have hr : k.responded = false := by
        by_contra hr
        rw [(hk.early (by simpa using hr) hx).2 hf] at hm
        cases hm
      refine ⟨hdec, fun _ hrf => ?_, by simp, fun hne => absurd hcb hne, ?_, by simp⟩
      · simpa [stash, hx, hp, Asked.take] using hk.live (by simp [hf]) hrf
      · simp [Asked.take, hr]
  | @handed _ _ k _ hc hf hm hrf hcb =>
      refine ⟨_, h.take hc hm rfl fun hk => ?_⟩
      obtain ⟨hst, hp⟩ := hk.armed (by simp [hcb])
      have hall : delivered v.events = taken := by simpa [hst, hp] using hk.live hf hrf
      rw [hread, hall]
      refine ⟨List.prefix_rfl, fun hdec => ⟨hdec, fun _ _ => ?_, ?_, by simp, hk.answered, ?_⟩⟩
      · simp [hst, Asked.take, hp]
      · exact fun hx => ⟨(hk.idle hx).1, rfl⟩
      · intro _ hx
        rw [(hk.idle hx).2] at hcb
        cases hcb
  | stored hc hx hf hm hrf hcb =>
      refine ⟨_, h.take hc hm rfl fun hk => ⟨hlate _, fun hdec => ?_⟩⟩
      refine ⟨hdec, fun _ _ => ?_, by simp [hx], by simp [Asked.take, hcb], hk.answered, by simp [hx]⟩
      rw [← hk.live hf hrf]
      simp
  | dropped hc hx hm hrf =>
      refine ⟨_, h.take hc hm rfl fun hk => ⟨hlate _, fun hdec => ?_⟩⟩
      exact ⟨hdec, by simp [Asked.take, hrf], hk.idle, hk.armed, hk.answered, by simp [hx]⟩
  | overrun hc hx hm =>
      refine ⟨_, h.take hc hm rfl fun hk => ⟨hlate _, fun hdec => ?_⟩⟩
      exact ⟨hdec, by simp, hk.idle, hk.armed, by simp, by simp [hx]⟩
  | @overrunLate _ k _ hc hx hm hr =>
      refine ⟨_, h.take hc hm rfl fun hk => ⟨hlate _, fun hdec => ?_⟩⟩
      have hrf : k.readFinished = true := by simpa [hx] using hk.answered hr
      exact ⟨hdec, by simp [Asked.take, hrf], hk.idle, hk.armed, hk.answered, by simp [hx]⟩
  | calledUnary hc hx hf hm =>
      refine ⟨_, h.take hc hm rfl fun hk => ⟨hlate _, fun hdec => ?_⟩⟩
      exact ⟨hdec, by simp [Asked.take, hf], by simp,
        fun hne => absurd (hk.idle hx).2 hne, by simp, by simp⟩
  | ended hc hx hm =>
      exact ⟨taken, h.keep hc rfl fun hk =>
        ⟨hk.decoded, hk.live, hk.idle, hk.armed, by simp [hx], fun _ _ => ⟨rfl, hm⟩⟩⟩
  | eosArmed hc =>
      exact ⟨taken, h.keep hc (hsilent (.inr rfl)) fun hk =>
        ⟨hk.decoded, by simp, fun hx => ⟨(hk.idle hx).1, rfl⟩, by simp, by simp,
          fun hr hx => ⟨rfl, (hk.early hr hx).2⟩⟩⟩
  | eosUnarmed hc =>
      exact ⟨taken, h.keep hc rfl fun hk => ⟨hk.decoded, by simp, hk.idle, hk.armed, by simp,
        fun hr hx => ⟨rfl, (hk.early hr hx).2⟩⟩⟩
  | readClosed =>
      refine ⟨taken, h.fresh, h.sub, ?_, ?_⟩ <;> rw [hsilent (.inl rfl)]
      · exact h.given
      · exact h.call
  | readFirst hc hx hf hrf =>
      have hk := h.call _ hc
      have hlive := hk.live hf hrf
      rw [hx, stash] at hlive
      refine ⟨taken, fun ho => absurd ho (h.opened hc), h.sub, ?_, ?_⟩ <;> rw [hread]
      · rw [← hlive]
        exact List.prefix_append _ _
      · intro k' hc'
        cases hc.symm.trans hc'
        refine ⟨hk.decoded, fun _ _ => by simpa [stash] using hlive, by simp, ?_, ?_, by simp⟩
        · exact fun hne => ⟨rfl, (hk.armed hne).2⟩
        · intro hr
          simpa [hx] using hk.answered hr
  | readPending hc hx hf hrf hp =>
      have hk := h.call _ hc
      have hlive := hk.live hf hrf
      simp only [hx, stash, hp, List.append_nil] at hlive
      refine ⟨taken, fun ho => absurd ho (h.opened hc), h.sub, ?_, ?_⟩ <;> rw [hread]
      · exact ⟨_, by simpa using hlive⟩
      · rintro _ ⟨⟩
        refine ⟨hk.decoded, fun _ _ => by simpa [hx, stash] using hlive, by simp [hx], ?_,
          hk.answered, by simp [hx]⟩
        intro hne
        have := (hk.armed hne).2
        rw [hp] at this
        cases this
  | readEos hc hx =>
      exact ⟨taken, h.keep hc (hsilent (.inr rfl)) fun hk =>
        ⟨hk.decoded, by simp, hk.idle, hk.armed, by simp, hk.early⟩⟩
  | readConcurrent hc =>
      refine ⟨taken, h.fresh, h.sub, ?_, ?_⟩ <;> rw [hsilent (.inl rfl)]
      · exact h.given
      · exact h.call
  | readArm hc hx _ hp =>
      exact ⟨taken, h.keep hc rfl fun hk => ⟨hk.decoded, hk.live, by simp [hx],
        by simp [hx, hp, stash], hk.answered, hk.early⟩⟩
  | finished hc hx =>
      exact ⟨taken, h.keep hc rfl fun hk =>
        ⟨hk.decoded, by simp, hk.idle, hk.armed, by simp, by simp [hx]⟩⟩
  | respondedUnary hc hx =>
      exact ⟨taken, h.keep hc rfl fun hk =>
        ⟨hk.decoded, hk.live, hk.idle, hk.armed, by simp [hx], by simp [hx]⟩⟩
  | deadline => exact absurd rfl hdead
  | cancelArmed _ hc =>
      exact ⟨taken, h.keep hc (hsilent (.inl rfl)) fun hk =>
        ⟨hk.decoded, by simp, fun hx => ⟨(hk.idle hx).1, rfl⟩, by simp, by simp, hk.early⟩⟩
  | cancelled _ hc =>
      exact ⟨taken, h.keep hc rfl fun hk =>
        ⟨hk.decoded, by simp, hk.idle, hk.armed, by simp, hk.early⟩⟩
  | erase => exact ⟨taken, fun ho => ⟨rfl, rfl, (h.fresh ho).2.2⟩, h.sub, h.given, by simp⟩

end Steps

end Reader

/-! ## Runs -/

theorem no_deadline_step {t : Trigger} {v w : Writer} (hn : .onDeadlineRest ∉ v.todo)
    (ht : ∀ timer, t ≠ .event (.deadline timer)) (h : Writer.Step t v w) :
    .onDeadlineRest ∉ w.todo := by
  cases h with
  | deadlineFired => exact absurd rfl (ht _)
  | respondOk | consumed | close => simpa using hn
  | connectionLost => simp
  | respondData hto | respondTrailers hto | pumpOutData hto | consumedRest hto
  | deferredFinish hto | cancelEnd hto | erase hto | deadlineLate hto | deadlineTrailers hto
  | deadlineOnly hto =>
      rw [hto] at hn
      simp at hn ⊢
      try exact hn
  | written _ _ _ _ _ _ hp | pumped _ _ _ _ _ hp =>
      cases hp with
      | first => simpa using hn
      | next => exact hn
  | _ => exact hn

/-- A stream whose deadline has not fired, and its request so far. -/
structure Reading (cfg : Config) (c : Conf) (taken : List Bytes) : Prop where
  sound : Writer.Sound (.of c)
  calm : .onDeadlineRest ∉ (Writer.of c).todo
  received : (reader c.st).Received cfg.maxReceiveSize taken

theorem reading_fresh (cfg : Config) : Reading cfg fresh [] := by
  refine ⟨sound_fresh, by simp [Writer.of, writer, fresh], by simp [reader, fresh], ?_, ?_, ?_⟩
  · exact List.nil_prefix
  · exact List.nil_prefix
  · simp [reader, fresh]

section Steps

variable {cfg : Config} {c d : Conf} {l : Label} {t : Trigger} {taken : List Bytes}

theorem Reading.trigger_ne_deadline (h : Reading cfg c taken) (ht : trigger c l = some t) :
    t ≠ .frame .onDeadlineRest := by
  rintro rfl
  cases triggers_of_trigger ht with
  | frame hf => exact h.calm (by simp [Writer.of, writer, hf, Frame.writes])

/-- Bytes that a fresh decoder accepts are not rejected. -/
theorem Reading.trigger_ne_violation (h : Reading cfg c taken) (ht : trigger c l = some t)
    (hbytes : ∀ chunk e, l = .event (.data chunk e) →
      ((new cfg.maxReceiveSize).consume (c.st.recv ++ chunk)).1.ok = true) :
    ∀ chunk, t ≠ .violation chunk := by
  rintro chunk rfl
  cases triggers_of_trigger ht with
  | violation hrej =>
      obtain ⟨k, hk, hbad⟩ := Option.any_eq_true .. |>.mp hrej
      have hdec : Decoded cfg.maxReceiveSize c.st.recv taken k.decoder :=
        (h.received.call k.asked (Reader.reader_call hk)).decoded
      have hok := hbytes _ _ rfl
      rw [← hdec.consume_fst] at hok
      simp [hok] at hbad

theorem reading_step (h : Reading cfg c taken) (hone : oneBlock c l)
    (hl : ∀ timer, l ≠ .event (.deadline timer))
    (hbytes : ∀ chunk e, l = .event (.data chunk e) →
      ((new cfg.maxReceiveSize).consume (c.st.recv ++ chunk)).1.ok = true)
    (hstep : (machine cfg).step c l = some d) :
    (∃ taken', Reading cfg d taken') ∧ ∃ t, trigger c l = some t ∧
      t ≠ .frame .onDeadlineRest ∧ (∀ chunk, t ≠ .violation chunk) ∧
      Reader.Step cfg.maxReceiveSize t (reader c.st) (reader d.st) := by
  obtain ⟨t, ht, hw⟩ := writer_step h.sound.dispatched hone hstep
  obtain ⟨t', ht', hr⟩ := reader_step h.sound.dispatched hone hstep
  obtain rfl : t = t' := Option.some.inj (ht.symm.trans ht')
  have hdead := h.trigger_ne_deadline ht
  have hviol := h.trigger_ne_violation ht hbytes
  refine ⟨?_, t, ht, hdead, hviol, hr⟩
  obtain ⟨taken', hrec⟩ := Reader.received_step h.received hviol hdead hr
  refine ⟨taken', Writer.sound_step h.sound hw, ?_, hrec⟩
  refine no_deadline_step h.calm ?_ hw
  rintro timer rfl
  cases triggers_of_trigger ht with
  | event => exact hl timer rfl

end Steps

end Urpc.Server
