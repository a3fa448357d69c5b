/-
  One outstanding body per stream, on both endpoints.

  nghttp2 refuses a second DATA item on a stream and `H2Session::SendData` ignores the refusal,
  so a body must not be submitted before the last one has been read to its end. Nothing but
  `out_inflight` enforces this. Both endpoints are followed by two counts of what a sender owes:
  bodies that come with a notification (`Option.isSome`), which the flag accounts for, and bodies
  that come without one (`Option.isNone`): the response of a unary call on the server, the empty
  body of a half-close on the client.

  The server keeps the discipline in every run. On the client `StreamCloseSend` does not look at
  `out_inflight` (`half_close_crowds`).

  Proved: `one_body_per_stream`.
-/
import Urpc.Channel.Flushed
import Urpc.Channel.Outbox
import Urpc.Server.Blocks
import Urpc.Server.Trailers

namespace Urpc

open Cxx

/-! ## The client -/

namespace Channel

/-- Half-closes find nothing in flight. -/
def Outbox.spacing : Env := { Env.any with spaced := True }

/-- The flag accounts for the bodies with a notification; one without is the last body. -/
structure Outbox.Spaced (b : Outbox) : Prop where
  kept : b.h2.crowded = false
  idle : b.inflight = false → b.h2.owedBy Option.isSome = 0
  one : b.h2.owedBy Option.isSome ≤ 1
  last : b.h2.owedBy Option.isNone ≠ 0 → b.stage = .open ∧ b.sendClosed = true ∧ b.queue = []

namespace Outbox

/-- Bodies are read, or dropped with their stream. -/
theorem Spaced.settle {b : Outbox} (h : Spaced b) {h2 : Sender Closure}
    (hk : h2.crowded = b.h2.crowded) (ho : ∀ q, h2.owedBy q ≤ b.h2.owedBy q) :
    Spaced { b with h2 } := by
  have hs := ho Option.isSome
  have hn := ho Option.isNone
  have hone := h.one
  refine ⟨hk.trans h.kept, fun hi => ?_, ?_, fun h0 => h.last ?_⟩
  · have := h.idle hi
    exact Nat.le_zero.mp (this ▸ hs)
  · exact Nat.le_trans hs hone
  · intro hzero
    exact h0 (Nat.le_zero.mp (hzero ▸ hn))

theorem spaced_step {a b : Outbox} (hs : Step spacing a b) (h : Spaced a) : Spaced b := by
  have hnone : a.sendClosed = false ∨ a.queue ≠ [] → a.h2.owedBy Option.isNone = 0 := by
    intro hopen
    by_contra h0
    obtain ⟨-, hc, hq⟩ := h.last h0
    simp [hc, hq] at hopen
  cases hs with
  | send m hstage =>
      refine ⟨h.kept, h.idle, h.one, fun h0 => ?_⟩
      obtain ⟨ho, hc, hq⟩ := h.last h0
      simp [ho, hc] at hstage
  | closeParked hp =>
      refine ⟨h.kept, h.idle, h.one, fun h0 => ?_⟩
      rw [(h.last h0).1] at hp
      cases hp
  | opened fields hp =>
      have hfresh : ∀ q, (({} : Sender Closure).sendHeaders fields false).owedBy q = 0 := by
        intro q
        rw [Sender.sendHeaders_owedBy]
        rfl
      exact ⟨by simp, fun _ => hfresh _, by rw [hfresh]; omega, fun h0 => absurd (hfresh _) h0⟩
  | registered hp =>
      refine ⟨h.kept, h.idle, h.one, fun h0 => ?_⟩
      rw [(h.last h0).1] at hp
      cases hp
  | credit n => exact h.settle (Sender.credit_crowded _ n) fun q => Sender.credit_owedBy q _ n
  | close => exact h.settle (Sender.close_crowded _) fun q => Sender.close_owedBy q _
  | reset => exact h.settle rfl fun q => Nat.le_refl _
  | @consumed n notes hst hn =>
      -- the notification was the one body on its way
      have hone := h.one
      have hsome := Sender.note_owedBy Option.isSome hn
      have hno := Sender.note_owedBy Option.isNone hn
      simp only [Option.isSome_some, Option.isNone_some, Bool.toNat_false, Bool.toNat_true]
        at hsome hno
      refine ⟨h.kept, fun _ => ?_, ?_, fun h0 => h.last ?_⟩
      · simp only
        omega
      · simp only
        omega
      · rw [← hno]
        exact h0
  | closeQueued hst hq =>
      refine ⟨h.kept, h.idle, h.one, fun h0 => ?_⟩
      exact absurd (h.last h0).2.2 hq
  | closeMarked hst hq => exact ⟨h.kept, h.idle, h.one, fun _ => ⟨hst, rfl, hq⟩⟩
  | closeSent hst hq hsc hspaced =>
      have hzero := h.idle (hspaced trivial)
      have hread := Sender.unread_of_owedBy hzero (hnone (.inl hsc))
      have hdata := a.h2.sendData_owedBy Option.isSome [] true none
      simp only [Option.isSome_none, Bool.toNat_false] at hdata
      refine ⟨?_, fun _ => ?_, ?_, fun _ => ⟨hst, rfl, hq⟩⟩
      · rw [Sender.sendData_crowded hread]
        exact h.kept
      · simp only
        omega
      · simp only
        omega
  | @pumped out queue hst hq hi =>
      have hzero := h.idle hi
      have hbare := hnone (.inr (by simp [hq]))
      have hread := Sender.unread_of_owedBy hzero hbare
      have hsome := a.h2.sendData_owedBy Option.isSome out.framed out.close (some ⟨a.id, out.cb⟩)
      have hno := a.h2.sendData_owedBy Option.isNone out.framed out.close (some ⟨a.id, out.cb⟩)
      simp only [Option.isSome_some, Option.isNone_some, Bool.toNat_false, Bool.toNat_true]
        at hsome hno
      refine ⟨?_, nofun, ?_, fun h0 => absurd ?_ h0⟩
      · rw [Sender.sendData_crowded hread]
        exact h.kept
      · simp only
        omega
      · simp only
        omega

theorem spaced_kept : Kept spacing Spaced fun h2 => h2.crowded = false where
  new id := ⟨rfl, fun _ => rfl, Nat.zero_le 1, fun h0 => absurd rfl h0⟩
  step _ _ hs h := spaced_step hs h
  sender _ h := h.kept
  quiet h2 _ hq h := by
    cases hq with
    | credit n => rwa [Sender.credit_crowded]
    | close | reset | noted => exact h
  request fields body := by
    unfold submitRequest
    dsimp only
    split
    · simp
    · rw [Sender.sendData_crowded]
      · simp
      · rw [Sender.sendHeaders_unread]
        rfl

end Outbox

/-- Steps in which every half-close of an open stream with nothing queued finds no message in
    flight. -/
def closesIdle (c : Conf) (l : Label) : Prop := halfClosesSpaced c l = true

instance (c : Conf) (l : Label) : Decidable (closesIdle c l) :=
  inferInstanceAs (Decidable (halfClosesSpaced c l = true))

theorem closesIdle_allows (c : Conf) (l : Label) (h : closesIdle c l) :
    Outbox.spacing.Allows c l :=
  { spaced := fun _ => h }

end Channel

/-! ## The server -/

namespace Server

namespace Writer

/-- The call has been answered and no message is being pumped. -/
structure Bare (v : Writer) : Prop where
  opened : v.opened = true
  still : pumping v.todo = 0
  ended : ∀ k, v.call = some k → k.responded = true

/-- The flag accounts for the streamed bodies; the body of a unary response is the only body of
    its stream. -/
structure Alone (v : Writer) : Prop where
  kept : v.h2.crowded = false
  owing : Flying (Sender.owedBy Option.isSome) v
  clear : ∀ framed, .respondData framed ∈ v.todo → v.h2.unread = []
  bare : v.h2.owedBy Option.isNone ≠ 0 → Bare v

variable {t : Trigger} {v w : Writer} {k : WriteSide}

/-- An unanswered call with no body in flight has nothing unread. -/
theorem Alone.unread (h : Alone v) (hc : v.call = some k) (hr : k.responded = false)
    (hi : k.outInflight = false) : v.h2.unread = [] := by
  have hidle := h.owing.idle hc hi
  refine Sender.unread_of_owedBy (by omega) ?_
  by_contra h0
  rw [(h.bare h0).ended k hc] at hr
  cases hr

/-- Nothing is unread while the body of a pumped message waits for the response headers. -/
theorem Alone.unread_pumping (h : Alone v) (hp : 0 < pumping v.todo) : v.h2.unread = [] := by
  have hle : v.h2.owedBy Option.isSome + pumping v.todo ≤ 1 := h.owing.le
  refine Sender.unread_of_owedBy (by omega) ?_
  by_contra h0
  have := (h.bare h0).still
  omega

theorem responding_of_mem {framed : Bytes} {fs : List Frame} (h : .respondData framed ∈ fs) :
    0 < responding fs := List.countP_pos_iff.mpr ⟨_, h, rfl⟩

theorem crowded_step (h : Alone v) (hs : Step t v w) : w.h2.crowded = false := by
  have hkept := h.kept
  cases hs with
  | respondData hto =>
      rw [Sender.sendData_crowded (h.clear _ (hto ▸ List.mem_cons_self))]
      exact hkept
  | pumpOutData hto =>
      rw [Sender.sendData_crowded (h.unread_pumping (by simp [hto, Frame.pumps]))]
      exact hkept
  | written hc _ hr _ hi _ hp | pumped hc _ hr _ hi hp =>
      cases hp with
      | first => simpa using hkept
      | next => 
          rw [Sender.sendData_crowded (h.unread hc hr hi)]
          exact hkept
  | _ => simpa using hkept

/-- While the body of a unary response waits, every body has been read. -/
theorem alone_clear_step (hv : Orderly v) (h : Alone v) (hs : Step t v w) (framed : Bytes)
    (hw : .respondData framed ∈ w.todo) : w.h2.unread = [] := by
  have hone := hv.turns.one
  -- a frame of a unary response leaves no other behind it
  have hlast : ∀ {f : Frame} {rest : List Frame}, v.todo = f :: rest →
      f.pumps = true ∨ f.responds = true → .respondData framed ∉ rest := by
    intro f rest hto hf hmem
    have := responding_of_mem hmem
    rcases hf with hf | hf <;> simp [hto, hf] at hone <;> omega
  cases hs with
  | quiet | requestEnded | dispatchedUnary | dispatchedStream | rejected | queued | writeDone
  | finishIgnored | finishDeferred | cancelOut => exact h.clear framed hw
  | created | unrouted | createdStream => exact h.clear framed hw
  | badHeaders | answered | respondErr | finishOnly =>
      rw [Sender.sendHeaders_unread]
      exact h.clear framed hw
  | respondOk hc hs hr =>
      rw [Sender.sendHeaders_unread]
      exact h.unread hc hr (hv.turns.unary_idle hc hs)
  | respondData hto => exact absurd (List.mem_of_ne_of_mem (by simp) hw) (hlast hto (.inr rfl))
  | respondTrailers hto => exact absurd hw (hlast hto (.inr rfl))
  | pumpOutData hto => exact absurd hw (hlast hto (.inl rfl))
  | deadlineFired | connectionLost => simp at hw
  | deadlineLate hto | consumedRest hto | cancelEnd hto | erase hto =>
      exact h.clear framed (hto ▸ List.mem_cons_of_mem _ hw)
  | deadlineOnly hto =>
      rw [Sender.sendHeaders_unread]
      exact h.clear framed (hto ▸ List.mem_cons_of_mem _ hw)
  | deadlineTrailers hto | deferredFinish hto =>
      exact Sender.sendTrailers_unread (h.clear framed (hto ▸ List.mem_cons_of_mem _ hw)) _
  | finishTrailers => exact Sender.sendTrailers_unread (h.clear framed hw) _
  | written hc _ hr _ _ _ hp =>
      have hw0 : responding w.todo = 0 := by
        refine clear_pump ?_ ?_ hr hp
        · exact ⟨hv.turns.fresh, hv.turns.one, hv.turns.turn⟩
        · exact hc
      have := responding_of_mem hw
      omega
  | pumped hc _ hr _ _ hp =>
      have := clear_pump hv.turns hc hr hp
      have := responding_of_mem hw
      omega
  | consumed => exact h.clear framed (by simpa using hw)
  | credit => exact Sender.credit_unread (h.clear framed hw) _
  | closeIdle => exact Sender.close_unread (h.clear framed hw)
  | close => exact Sender.close_unread (h.clear framed (by simpa using hw))

/-- Such a stream stays so. -/
theorem bare_step (h : Bare v) (hs : Step t v w) : Bare w := by
  cases hs with
  | created ho | unrouted ho | createdStream ho | badHeaders ho =>
      rw [h.opened] at ho
      cases ho
  | written hc _ hr | pumped hc _ hr | answered hc _ hr | respondOk hc _ hr | respondErr hc _ hr
  | finishDeferred hc _ hr | finishOnly hc _ hr | finishTrailers hc _ hr | rejected hc hr
  | deadlineTrailers _ hc hr | deadlineOnly _ hc hr | queued hc _ hr =>
      rw [h.ended _ hc] at hr
      cases hr
  | quiet | finishIgnored | credit | closeIdle => exact ⟨h.opened, h.still, h.ended⟩
  | requestEnded hc | dispatchedUnary hc | dispatchedStream hc | writeDone hc
  | cancelOut _ hc => exact ⟨h.opened, h.still, by simpa using h.ended _ hc⟩
  | pumpOutData hto =>
      have hstill := h.still
      simp [hto, Frame.pumps] at hstill
  | respondData hto | respondTrailers hto | deadlineLate hto | consumedRest hto
  | cancelEnd hto =>
      have hstill := h.still
      simp [hto, Frame.pumps] at hstill
      exact ⟨h.opened, by simp [hstill, Frame.pumps], h.ended⟩
  | deferredFinish hto hc =>
      have hstill := h.still
      simp [hto, Frame.pumps] at hstill
      exact ⟨h.opened, hstill, by simpa using h.ended _ hc⟩
  | erase hto =>
      have hstill := h.still
      simp [hto, Frame.pumps] at hstill
      exact ⟨h.opened, hstill, by simp⟩
  | deadlineFired | connectionLost => exact ⟨h.opened, by simp [Frame.pumps], h.ended⟩
  | close => exact ⟨h.opened, by simp [h.still, Frame.pumps], h.ended⟩
  | consumed =>
      refine ⟨h.opened, by simp [h.still, Frame.pumps], ?_⟩
      intro k' hk'
      obtain ⟨k, hk, rfl⟩ := Option.map_eq_some_iff.mp hk'
      exact h.ended k hk

/-- Only the body of a unary response comes without a notification. -/
theorem owedNone_step (hs : Step t v w) :
    w.h2.owedBy Option.isNone ≤ v.h2.owedBy Option.isNone ∨
      ∃ framed rest, v.todo = .respondData framed :: rest := by
  have hdata : ∀ (h2 : Sender (Option CbId)) (out : OutMsg),
      (h2.sendData out.framed false (some out.cb)).owedBy Option.isNone ≤
        h2.owedBy Option.isNone :=
    fun h2 out => h2.sendData_owedBy Option.isNone out.framed false (some out.cb)
  cases hs with
  | respondData hto => exact .inr ⟨_, _, hto⟩
  | badHeaders | answered | respondOk | respondErr | deadlineOnly | finishOnly =>
      exact .inl (Nat.le_of_eq (Sender.sendHeaders_owedBy _ _ _ _))
  | respondTrailers | deadlineTrailers | deferredFinish | finishTrailers =>
      exact .inl (Sender.sendTrailers_owedBy _ _ _)
  | pumpOutData => exact .inl (hdata _ _)
  | written _ _ _ _ _ _ hp | pumped _ _ _ _ _ hp =>
      cases hp with
      | first => exact .inl (Nat.le_of_eq (Sender.sendHeaders_owedBy _ _ _ _))
      | next => exact .inl (hdata _ _)
  | consumed hn => exact .inl (Nat.le.intro (Sender.note_owedBy Option.isNone hn))
  | credit => exact .inl (Sender.credit_owedBy _ _ _)
  | closeIdle | close => exact .inl (Sender.close_owedBy _ _)
  | _ => exact .inl (Nat.le_refl _)

/-- A waiting unary response: the call is answered and nothing pumps. -/
theorem Orderly.bare {framed : Bytes} {rest : List Frame} (hv : Orderly v)
    (hto : v.todo = .respondData framed :: rest) : Bare v := by
  have hresp : 0 < responding v.todo := by simp [hto, Frame.responds]
  have hone := hv.turns.one
  refine ⟨?_, by omega, fun k hc => ((hv.turns.turn k hc).responder hresp).1⟩
  by_contra ho
  have := hv.turns.fresh (by simpa using ho)
  omega

theorem alone_step (hv : Orderly v) (h : Alone v) (hs : Step t v w) : Alone w where
  kept := crowded_step h hs
  owing := by
    refine flying_step (tally_owedBy fun _ => rfl) hv.dispatched h.owing ?_ hs
    intro framed rest _ _
    exact v.h2.sendData_owedBy Option.isSome framed false none
  clear := alone_clear_step hv h hs
  bare hw := by
    rcases owedNone_step hs with hle | ⟨framed, rest, hto⟩
    · exact bare_step (h.bare (by omega)) hs
    · exact bare_step (hv.bare hto) hs

/-- A later header block sends no body. -/
theorem alone_again (h : Alone v) (ha : Again v w) : Alone w := by
  refine ⟨?_, flying_again (tally_owedBy fun _ => rfl) h.owing ha, ?_, ?_⟩
  · cases ha with
    | answered => exact h.kept
    | unknown | refused =>
        rw [Sender.sendHeaders_crowded]
        exact h.kept
  · intro framed hmem
    cases ha with
    | answered => exact h.clear framed hmem
    | unknown | refused =>
        rw [Sender.sendHeaders_unread]
        exact h.clear framed hmem
  · intro h0
    cases ha with
    | answered => exact h.bare h0
    | unknown =>
        rw [Sender.sendHeaders_owedBy] at h0
        exact ⟨(h.bare h0).opened, (h.bare h0).still, (h.bare h0).ended⟩
    | refused =>
        rw [Sender.sendHeaders_owedBy] at h0
        refine ⟨(h.bare h0).opened, (h.bare h0).still, ?_⟩
        rintro _ ⟨⟩
        rfl

end Writer

theorem alone_fresh : Writer.Alone (.of fresh) := by
  refine ⟨rfl, ?_, by simp [Writer.of, writer, fresh], fun h0 => absurd rfl h0⟩
  constructor <;>
    simp [Writer.of, writer, fresh, Writer.flying, Sender.owedBy, Sender.unread]

end Server

/-! ## Both endpoints -/

/-- **One outstanding body per stream.** In every run of a client channel whose half-closes find
    nothing in flight, and in every run of a server connection, all its streams taking turns
    (nghttp2 lets no `:path` through in the trailers of a request): `SendData` was never called on
    a stream with a body that had not been read to its end. -/
theorem one_body_per_stream (o : Channel.Options) (cfg : Server.Config) :
    (∀ d : Channel.Conf, Channel.machine.Reach Channel.closesIdle (Channel.fresh o) d →
      ∀ sid, (d.st.senders sid).crowded = false) ∧
    ∀ d : Int → Server.Conf,
      (Server.machine cfg).Interleaved Server.trailersPlain (fun _ => Server.fresh) d →
      ∀ sid, (d sid).st.h2.crowded = false := by
  constructor
  · intro d h
    exact (Channel.reach_outbox Channel.Outbox.spaced_kept Channel.closesIdle_allows h).2.senders
  · intro d h sid
    refine (Server.reach_orderly (I := Server.Writer.Alone) (fun _ _ h => h)
      Server.sound_fresh.orderly Server.alone_fresh ?_ ?_ (h.proj sid)).2.kept
    · intro c l t w _ _ hv ha hs
      exact Server.Writer.alone_step hv ha hs
    · intro v w _ ha hag
      exact Server.Writer.alone_again ha hag

/-- A client that half-closes after its message was read, and a server that answers a unary
    call without window. -/
theorem one_body_per_stream_each :
    (∃ d, Channel.machine.Reach Channel.closesIdle (Channel.fresh Channel.demo) d ∧
      (bodies (d.st.senders 1).subs).length = 2 ∧ (d.st.senders 1).crowded = false) ∧
    ∃ d : Int → Server.Conf,
      (Server.machine Server.demo).Interleaved Server.trailersPlain (fun _ => Server.fresh) d ∧
      (d 1).st.h2.item.isSome = true ∧ (d 1).st.h2.crowded = false := by
  constructor
  · obtain ⟨d, hd, hfacts⟩ := Option.map_eq_some_iff.mp (show
      (Channel.machine.run Channel.closesIdle (Channel.fresh Channel.demo) (Channel.openAndSend ++
        [.event (.credit 1 5), .event (.consumed 1), .event (.task none),
          .event (.streamCloseSend 1), .event (.task none)])).map (fun d =>
          decide ((bodies (d.st.senders 1).subs).length = 2)) = some true by decide)
    have hr := Resume.System.reach_of_run _ _ _ hd
    exact ⟨d, hr, of_decide_eq_true hfacts, (one_body_per_stream Channel.demo Server.demo).1 d hr 1⟩
  · obtain ⟨c, hc, hitem⟩ := Option.map_eq_some_iff.mp (show
      ((Server.machine Server.demo).run Server.trailersPlain Server.fresh (Server.openUnary ++
        [.event (.op (.respond .okay [2])), .resume])).map (fun d => d.st.h2.item.isSome) =
        some true by decide)
    have hr := Resume.System.Interleaved.single (c := fun _ : Int => Server.fresh) (i := 1)
      (Resume.System.reach_of_run _ _ _ hc)
    refine ⟨_, hr, ?_, (one_body_per_stream Channel.demo Server.demo).2 _ hr 1⟩
    rw [Function.update_self]
    exact hitem

/-- The window is closed and a message is in flight. The half-close is submitted behind it and
    refused: after the message has been read, END_STREAM is still missing. -/
theorem half_close_crowds :
    ∃ d, Channel.machine.Reach Channel.anyStep (Channel.fresh Channel.demo) d ∧
      (d.st.senders 1).crowded = true ∧ d.st.posted.length = 0 ∧
      (d.st.senders 1).item.isSome = false ∧
      .data [] true ∈ (d.st.senders 1).subs ∧ (d.st.senders 1).ended = false := by
  obtain ⟨d, hd, hfacts⟩ := Option.map_eq_some_iff.mp (show
    (Channel.machine.run Channel.anyStep (Channel.fresh Channel.demo) (Channel.openAndSend ++
      [.event (.streamCloseSend 1), .event (.task none), .event (.credit 1 100),
        .event (.consumed 1), .event (.task none)])).map (fun d =>
        decide ((d.st.senders 1).crowded = true ∧ d.st.posted.length = 0 ∧
          (d.st.senders 1).item.isSome = false ∧
          .data [] true ∈ (d.st.senders 1).subs ∧ (d.st.senders 1).ended = false)) =
      some true by decide)
  exact ⟨d, Resume.System.reach_of_run _ _ _ hd, of_decide_eq_true hfacts⟩

end Urpc
