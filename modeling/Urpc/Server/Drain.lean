/-
  Does `Finish` drain the queue of a streaming call?

  `PumpOut` returns when `responded` or `write_closed` is set, and `Finish` sets both. Messages
  still queued then stay in the queue for good, and `MaybeSendDeferredFinish` keeps waiting for
  the queue to empty: neither the messages nor the trailers are ever submitted
  (`finish_strands_queue`). When `Finish` and `WriteDone` find the queue empty everything is
  sent: `Content` accounts for every accepted message, and a deferred finish has a body in
  flight or its notification running.

  Proved: `content_step`, `draining_step`, `finish_drains`.
-/
import Urpc.Server.Trailers

namespace Urpc.Server

open Cxx Writer

/-! ## Where the accepted messages are -/

/-- The bodies that waiting frames of `PumpOut` will submit. -/
def unsent : List Frame → List Bytes
  | [] => []
  | .pumpOutData out :: fs => out.framed :: unsent fs
  | _ :: fs => unsent fs

theorem unsent_of_pumping {fs : List Frame} (h : pumping fs = 0) : unsent fs = [] := by
  induction fs with
  | nil => rfl
  | cons f fs ih =>
      rw [pumping_cons] at h
      cases f <;> simp_all [unsent, Frame.pumps]

/-- Only `PumpOut` and the consumed notification wait. -/
def Calm (fs : List Frame) : Prop := ∀ f ∈ fs, f.pumps = true ∨ f = .consumedRest

theorem Calm.tail {f : Frame} {fs : List Frame} (h : Calm (f :: fs)) : Calm fs :=
  fun g hg => h g (List.mem_cons_of_mem f hg)

theorem Calm.responding {fs : List Frame} (h : Calm fs) : responding fs = 0 := by
  refine List.countP_eq_zero.mpr fun f hf => ?_
  rcases h f hf with hp | rfl
  · cases f <;> simp_all [Frame.pumps, Frame.responds]
  · simp [Frame.responds]

/-- Other frames are not on top. -/
theorem Calm.absurd {f : Frame} {fs rest : List Frame} (h : Calm fs) (hf : fs = f :: rest)
    (hp : f.pumps = false) (hc : f ≠ .consumedRest) : False := by
  subst hf
  rcases h f List.mem_cons_self with h | h
  · rw [hp] at h
    cases h
  · exact hc h

namespace Writer

section Steps

variable {t : Trigger} {v w : Writer} {k : WriteSide}

/-- The messages of the queue. -/
def queued (call : Option WriteSide) : List Bytes :=
  match call with
  | some k => k.outQueue.map OutMsg.framed
  | none => []

/-- Every accepted message has been submitted, waits in a frame or waits in the queue, in
    order of acceptance. -/
def Content (v : Writer) : Prop :=
  bodies v.h2.subs ++ unsent v.todo ++ queued v.call = v.accepted.map encodeFrame

theorem content_pump {out : OutMsg} {queue : List OutMsg} (hn : unsent v.todo = [])
    (hv : bodies v.h2.subs ++ (out :: queue).map OutMsg.framed = v.accepted.map encodeFrame)
    (h : Pump v k out queue w) : Content w := by
  cases h with
  | first => simpa [Content, queued, Writer.pumped, bodies, unsent, hn] using hv
  | next => simpa [Content, queued, Writer.pumped, bodies, hn] using hv

/-- A frame that clears the queue or the call finds no message in the queue. -/
def Spares (t : Trigger) (v : Writer) : Prop :=
  ∀ f rest, t = .frame f → v.todo = f :: rest → f = .cancelOut ∨ f = .closeErase →
    queued v.call = []

theorem content_step (hf : Flying Sender.aloft v) (hr : responding v.todo = 0) (ht : Spares t v)
    (hs : v.stream ≠ some false) (hv : Content v) (h : Step t v w) : Content w := by
  have hidle : ∀ {k}, v.call = some k → k.outInflight = false → unsent v.todo = [] :=
    fun hc hi => unsent_of_pumping (by have := hf.idle hc hi; omega)
  unfold Content at hv
  cases h with
  | quiet | finishIgnored | closeIdle => exact hv
  | badHeaders => simpa [Content, bodies] using hv
  | created _ hc | unrouted _ hc | createdStream _ hc =>
      simpa [Content, queued, hc] using hv
  | requestEnded hc | dispatchedUnary hc | dispatchedStream hc | rejected hc | writeDone hc
  | finishDeferred hc => simpa [Content, queued, hc] using hv
  | answered hc | finishOnly hc => simpa [Content, queued, hc, bodies] using hv
  | respondOk _ hs' | respondErr _ hs' => exact absurd hs' hs
  | respondData hto | respondTrailers hto => simp [hto, Frame.responds] at hr
  | cancelOut hto hc hq =>
      have hnone := ht _ _ rfl hto (.inl rfl)
      simp [Writer.queued, hc, hq] at hnone
  | erase hto =>
      rw [ht _ _ rfl hto (.inr rfl)] at hv
      simpa [Content, hto, unsent, Writer.queued] using hv
  | deadlineLate hto | cancelEnd hto => simpa [Content, hto, unsent] using hv
  | deadlineTrailers hto hc | deadlineOnly hto hc =>
      simpa [Content, Writer.queued, hto, hc, unsent, bodies] using hv
  | deadlineFired hto | connectionLost hto => simpa [Content, hto, unsent] using hv
  | queued hc =>
      rw [hc] at hv
      simp [Content, Writer.queued, ← hv]
  | written hc _ _ _ hi hq hp =>
      have hn := hidle hc hi
      rw [hn, hc] at hv
      refine content_pump ?_ ?_ hp
      · exact hn
      · rw [← hq]
        simp [Writer.queued, ← hv]
  | pumped hc hq _ _ hi hp =>
      rw [hidle hc hi, hc] at hv
      refine content_pump (hidle hc hi) ?_ hp
      rw [← hq]
      simpa [Writer.queued] using hv
  | pumpOutData hto => simpa [Content, hto, unsent, bodies] using hv
  | consumed =>
      have hq : Writer.queued (v.call.map fun k => { k with outInflight := false }) =
          Writer.queued v.call := by cases v.call <;> rfl
      simpa [Content, unsent, hq] using hv
  | consumedRest hto => simpa [Content, hto, unsent] using hv
  | deferredFinish hto hc => simpa [Content, Writer.queued, hto, hc, unsent, bodies] using hv
  | finishTrailers hc => simpa [Content, Writer.queued, hc, bodies] using hv
  | credit => simpa [Content] using hv
  | close => simpa [Content, unsent] using hv

/-! ## Finishing -/

/-- The block that ends a stream with status `st`. -/
def Carries (st : Status) (block : Submission) : Prop :=
  block = .trailers (grpcStatusFields st) ∨ block = .headers (trailersOnlyFields st) true

/-- What the call's flags say: `fly` bodies are on their way, `waits` says that the rest of a
    consumed notification is still to run. -/
structure Ledger (k : WriteSide) (fly : Nat) (waits : Prop) (calls : List Status)
    (subs : List Submission) : Prop where
  shut : k.responded = true ∨ k.writeClosed = true → k.outQueue = []
  flying : k.outInflight = true → 0 < fly
  unfinished : k.responded = false → calls = [] ∧ k.hasFinishPending = false
  pending : k.hasFinishPending = true →
    calls.head? = some k.finishPending ∧ (k.outInflight = true ∨ waits)
  finished : k.responded = true → k.hasFinishPending = false →
    ∃ st block, calls.head? = some st ∧ block ∈ subs ∧ Carries st block

structure Draining (v : Writer) : Prop where
  tidy : Tidy v
  calm : Calm v.todo
  isOpen : v.h2.closed = false
  stream : v.stream = some true
  content : Content v
  ledger : ∃ k, v.call = some k ∧
    Ledger k (flying Sender.aloft v) (.consumedRest ∈ v.todo) v.finishCalls v.h2.subs

/-- The call stays open, its deadline does not fire and its request is in order; `Finish` and
    `WriteDone` find the queue empty. -/
structure Drained (t : Trigger) (v : Writer) : Prop where
  undisturbed : t ≠ .overrun ∧ (∀ chunk, t ≠ .violation chunk) ∧ t ≠ .event .streamClose ∧
    t ≠ .event .connectionLost ∧ ∀ timer, t ≠ .event (.deadline timer)
  emptied : t.finishes = true ∨ t = .event (.op .writeDone) →
    ∀ k, v.call = some k → k.outQueue = []

/-- nghttp2 takes the body that `PumpOut` submits. -/
theorem Draining.sendData_aloft (hv : Sound v) (hd : Draining v) (out : OutMsg)
    (hn : Sender.owed v.h2 = 0)
    (h : 0 < pumping v.todo + responding v.todo ∨ ∃ k, v.call = some k ∧ k.responded = false) :
    (v.h2.sendData out.framed false (some out.cb)).aloft = v.h2.aloft + 1 := by
  have hunread : v.h2.unread = [] := List.eq_nil_of_length_eq_zero (by
    rw [Sender.owed] at hn
    omega)
  exact v.h2.sendData_aloft_of_open _ _ _ hd.isOpen (not_ended hv hd.tidy.plain h)
    (Sender.unread_nil hunread).2

theorem ledger_pump {out : OutMsg} {queue : List OutMsg} (hr : k.responded = false)
    (hw : k.writeClosed = false) (hp : k.hasFinishPending = false) (hcalls : v.finishCalls = [])
    (h : Pump v k out queue w) (hfly : 0 < flying Sender.aloft w) :
    ∃ k', w.call = some k' ∧ Ledger k' (flying Sender.aloft w) (.consumedRest ∈ w.todo)
      w.finishCalls w.h2.subs := by
  cases h <;> refine ⟨_, rfl, ?_, fun _ => hfly, fun _ => ⟨hcalls, hp⟩, ?_, ?_⟩ <;>
    simp [Writer.pumped, hr, hw, hp]

theorem flying_of_pump {out : OutMsg} {queue : List OutMsg}
    (hdata : (v.h2.sendData out.framed false (some out.cb)).aloft = v.h2.aloft + 1)
    (h : Pump v k out queue w) : 0 < flying Sender.aloft w := by
  cases h with
  | first =>
      simp only [flying, pumping_cons, Frame.pumps, if_true]
      omega
  | next =>
      simp only [flying]
      omega

theorem calm_step (hv : Calm v.todo) (hs : v.stream ≠ some false) (ht : Drained t v)
    (h : Step t v w) : Calm w.todo := by
  have hpush : ∀ {f}, f.pumps = true ∨ f = .consumedRest → Calm (f :: v.todo) := by
    rintro f hf g hg
    rcases List.mem_cons.mp hg with rfl | hg
    · exact hf
    · exact hv g hg
  cases h with
  | respondOk _ hs' => exact absurd hs' hs
  | respondData hto | respondTrailers hto | deadlineLate hto | deadlineTrailers hto
  | deadlineOnly hto | cancelOut hto | cancelEnd hto | erase hto =>
      exact (hv.absurd hto (by simp [Frame.pumps]) (by simp)).elim
  | pumpOutData hto | consumedRest hto | deferredFinish hto => exact Calm.tail (hto ▸ hv)
  | consumed => exact hpush (.inr rfl)
  | written _ _ _ _ _ _ hp | pumped _ _ _ _ _ hp =>
      cases hp with
      | first => exact hpush (.inl rfl)
      | next => exact hv
  | deadlineFired => exact absurd rfl (ht.undisturbed.2.2.2.2 _)
  | connectionLost => exact absurd rfl ht.undisturbed.2.2.2.1
  | close => exact absurd rfl ht.undisturbed.2.2.1
  | _ => exact hv

theorem stream_step (hs : v.stream = some true) (hcalm : Calm v.todo) (h : Step t v w) :
    w.stream = some true := by
  cases h with
  | createdStream | dispatchedStream => rfl
  | dispatchedUnary _ hs' =>
      rw [hs'] at hs
      cases hs
  | erase hto => exact (hcalm.absurd hto rfl (by simp)).elim
  | written _ _ _ _ _ _ hp | pumped _ _ _ _ _ hp => cases hp <;> exact hs
  | _ => exact hs

theorem open_step (ho : v.h2.closed = false) (ht : Drained t v) (h : Step t v w) :
    w.h2.closed = false := by
  cases h with
  | closeIdle | close => exact absurd rfl ht.undisturbed.2.2.1
  | written _ _ _ _ _ _ hp | pumped _ _ _ _ _ hp => cases hp <;> simpa using ho
  | _ => simpa using ho

theorem ledger_step (hv : Sound v) (hd : Draining v) (ht : Drained t v) (h : Step t v w) :
    ∃ k, w.call = some k ∧
      Ledger k (flying Sender.aloft w) (.consumedRest ∈ w.todo) w.finishCalls w.h2.subs := by
  obtain ⟨k, hk, hl⟩ := hd.ledger
  have hstr : v.stream = none → False := fun h => by cases hd.stream.symm.trans h
  have hunary : v.stream = some false → False := fun h => by cases hd.stream.symm.trans h
  -- the rules speak of the call as they find it
  have same : ∀ {k'}, v.call = some k' → k' = k := fun h => Option.some.inj (h.symm.trans hk)
  have hgone : v.call = none → False := fun h => by cases hk.symm.trans h
  cases h with
  | quiet => exact ⟨k, hk, hl⟩
  | badHeaders _ hc | created _ hc | unrouted _ hc | createdStream _ hc => exact (hgone hc).elim
  | answered _ hs | dispatchedUnary _ hs | dispatchedStream _ hs => exact (hstr hs).elim
  | respondOk _ hs | respondErr _ hs => exact (hunary hs).elim
  | rejected => exact absurd rfl (ht.undisturbed.2.1 _)
  | deadlineFired => exact absurd rfl (ht.undisturbed.2.2.2.2 _)
  | connectionLost => exact absurd rfl ht.undisturbed.2.2.2.1
  | closeIdle | close => exact absurd rfl ht.undisturbed.2.2.1
  | respondData hto | respondTrailers hto | deadlineLate hto | deadlineTrailers hto
  | deadlineOnly hto | cancelOut hto | cancelEnd hto | erase hto =>
      exact (hd.calm.absurd hto (by simp [Frame.pumps]) (by simp)).elim
  | requestEnded hc =>
      obtain rfl := same hc
      exact ⟨_, rfl, hl.shut, hl.flying, hl.unfinished, hl.pending, hl.finished⟩
  | writeDone hc =>
      obtain rfl := same hc
      have hq := ht.emptied (.inr rfl) _ hk
      exact ⟨_, rfl, fun _ => hq, hl.flying, hl.unfinished, hl.pending, hl.finished⟩
  | queued hc _ hr hw =>
      obtain rfl := same hc
      exact ⟨_, rfl, by simp [hr, hw], hl.flying, hl.unfinished, hl.pending, hl.finished⟩
  | written hc _ hr hw hi _ hp =>
      obtain rfl := same hc
      have hn := hd.tidy.owing.idle hc hi
      have hdata := fun out => hd.sendData_aloft hv out (by omega) (.inr ⟨_, hc, hr⟩)
      obtain ⟨hcalls, hfp⟩ := hl.unfinished hr
      refine ledger_pump hr hw hfp ?_ hp (flying_of_pump ?_ hp)
      · exact hcalls
      · exact hdata _
  | pumped hc _ hr hw hi hp =>
      obtain rfl := same hc
      have hn := hd.tidy.owing.idle hc hi
      have hdata := fun out => hd.sendData_aloft hv out (by omega) (.inr ⟨_, hc, hr⟩)
      obtain ⟨hcalls, hfp⟩ := hl.unfinished hr
      exact ledger_pump hr hw hfp hcalls hp (flying_of_pump (hdata _) hp)
  | @pumpOutData _ out rest hto =>
      have hpump : pumping v.todo = pumping rest + 1 := by simp [hto, Frame.pumps]
      have hle : v.h2.owed + pumping v.todo ≤ 1 := hd.tidy.owing.le
      have haloft := hd.sendData_aloft hv out (by omega) (.inl (by omega))
      refine ⟨k, hk, hl.shut, ?_, hl.unfinished, ?_, ?_⟩
      · intro _
        simp only [flying]
        omega
      · simpa [hto] using hl.pending
      · intro hr hp
        obtain ⟨st, block, hst, hb, hcar⟩ := hl.finished hr hp
        exact ⟨st, block, hst, by simp [hb], hcar⟩
  | consumed =>
      rw [hk]
      refine ⟨_, rfl, hl.shut, by simp, hl.unfinished, ?_, hl.finished⟩
      intro hp
      exact ⟨(hl.pending hp).1, .inr (by simp)⟩
  | consumedRest hto hwait =>
      refine ⟨k, hk, hl.shut, ?_, hl.unfinished, ?_, hl.finished⟩
      · simpa [flying, hto, Frame.pumps] using hl.flying
      · intro hp
        refine ⟨(hl.pending hp).1, .inl ?_⟩
        have hr : k.responded = true := by
          by_contra hr
          rw [(hl.unfinished (by simpa using hr)).2] at hp
          cases hp
        rcases hwait k hk hp with h | h
        · exact h
        · exact absurd (hl.shut (.inl hr)) h
  | deferredFinish hto hc hp hi =>
      obtain rfl := same hc
      refine ⟨_, rfl, hl.shut, by simp [hi], fun hr => ⟨(hl.unfinished hr).1, rfl⟩, by simp, ?_⟩
      intro _ _
      exact ⟨_, .trailers _, (hl.pending hp).1, by simp, .inl rfl⟩
  | @finishIgnored _ _ late hr =>
      have hr := hr k hk
      have hne : ∀ {st}, v.finishCalls.head? = some st →
          (v.finishCalls ++ [late]).head? = some st := fun h => by
        rw [List.head?_append, h]
        rfl
      refine ⟨k, hk, hl.shut, hl.flying, by simp [hr], ?_, ?_⟩
      · intro hp
        exact ⟨hne (hl.pending hp).1, (hl.pending hp).2⟩
      · intro _ hp
        obtain ⟨st, block, hst, hb, hcar⟩ := hl.finished hr hp
        exact ⟨st, block, hne hst, hb, hcar⟩
  | @finishDeferred _ _ k' _ _ hc _ hr hout hrec =>
      obtain rfl := same hc
      obtain ⟨rfl, hfin⟩ | ⟨-, rfl⟩ := hrec
      · have hq := ht.emptied (.inl hfin) _ hk
        have hi : k'.outInflight = true := by simpa [hq] using hout
        refine ⟨_, rfl, fun _ => hq, hl.flying, by simp, ?_, by simp⟩
        intro _
        exact ⟨by simp [(hl.unfinished hr).1], .inl hi⟩
      · exact absurd rfl ht.undisturbed.1
  | @finishOnly _ _ _ st _ hc _ hr hi hq _ hrec =>
      obtain rfl := same hc
      obtain ⟨rfl, hfin⟩ | ⟨-, rfl⟩ := hrec
      · obtain ⟨hcalls, hp⟩ := hl.unfinished hr
        refine ⟨_, rfl, fun _ => hq, by simp [hi], by simp, by simp [hp], fun _ _ => ?_⟩
        exact ⟨st, .headers (trailersOnlyFields st) true, by rw [hcalls]; rfl, by simp, .inr rfl⟩
      · exact absurd rfl ht.undisturbed.1
  | @finishTrailers _ _ _ st _ hc _ hr hi hq _ hrec =>
      obtain rfl := same hc
      obtain ⟨rfl, hfin⟩ | ⟨-, rfl⟩ := hrec
      · obtain ⟨hcalls, hp⟩ := hl.unfinished hr
        refine ⟨_, rfl, fun _ => hq, by simp [hi], by simp, by simp [hp], fun _ _ => ?_⟩
        exact ⟨st, .trailers (grpcStatusFields st), by rw [hcalls]; rfl, by simp, .inl rfl⟩
      · exact absurd rfl ht.undisturbed.1
  | credit => exact ⟨k, hk, hl.shut, by simpa [flying] using hl.flying, hl.unfinished, hl.pending,
      by simpa using hl.finished⟩

theorem draining_step (hv : Sound v) (hd : Draining v) (ht : Drained t v) (h : Step t v w) :
    Draining w where
  tidy := by
    refine tidy_step hv hd.tidy ⟨?_, ?_⟩ h
    · intro _ _ _ hto
      exact (hd.calm.absurd hto rfl (by simp)).elim
    · intro _ _ _ hto
      exact (hd.calm.absurd hto rfl (by simp)).elim
  calm := calm_step hd.calm (by simp [hd.stream]) ht h
  isOpen := open_step hd.isOpen ht h
  stream := stream_step hd.stream hd.calm h
  content := by
    refine content_step hv.flying hd.calm.responding ?_ (by simp [hd.stream]) hd.content h
    rintro _ _ - hto (rfl | rfl) <;> exact (hd.calm.absurd hto rfl (by simp)).elim
  ledger := ledger_step hv hd ht h

end Steps

end Writer

/-! ## Runs -/

/-- The stream stays open, the deadline does not fire, and the request gives no cause to end
    the call. -/
def undisturbed (c : Conf) : Label → Bool
  | .event (.deadline _) | .event .streamClose | .event .connectionLost => false
  | .event (.data chunk _) => !rejects c.st chunk
  | .resume =>
      match c.frames with
      | .onDataRest _ :: _ => !overruns c.st
      | _ => true
  | _ => true

/-- `Finish` and `WriteDone` are called with `out_queue` empty. -/
def emptied (c : Conf) : Label → Bool
  | .event (.op .writeDone) | .event (.op (.finish _)) | .event (.op (.respond ..)) =>
      !c.st.call.any fun k => !k.outQueue.isEmpty
  | _ => true

theorem drained_trigger {c : Conf} {l : Label} {t : Trigger} (hu : undisturbed c l = true)
    (he : emptied c l = true) (ht : trigger c l = some t) : Drained t (.of c) := by
  cases triggers_of_trigger ht with
  | frame => exact ⟨by simp, by simp [Trigger.finishes]⟩
  | overrun hf hov => simp [undisturbed, hf, hov] at hu
  | violation hrej => simp [undisturbed, hrej] at hu
  | event =>
      constructor
      · refine ⟨by simp, by simp, ?_, ?_, ?_⟩
        · rintro ⟨⟩
          cases hu
        · rintro ⟨⟩
          cases hu
        · rintro timer ⟨⟩
          cases hu
      · intro hfin k hk
        obtain ⟨k', hk', rfl⟩ := Option.map_eq_some_iff.mp hk
        have hc : c.st.call = some k' := hk'
        obtain hfin | ⟨⟨⟩⟩ := hfin
        · unfold Trigger.finishes at hfin
          split at hfin
          · next h =>
              cases h
              simpa [emptied, hc] using he
          · next h =>
              cases h
              simpa [emptied, hc] using he
          · cases hfin
        · simpa [emptied, hc] using he

/-- One header block, nothing disturbs the call, and the queue is empty when it is closed. -/
def Drains (c : Conf) (l : Label) : Prop :=
  oneBlock c l ∧ undisturbed c l = true ∧ emptied c l = true

instance (c : Conf) (l : Label) : Decidable (Drains c l) := inferInstanceAs (Decidable (_ ∧ _))

/-- The handler of a streaming call has just been given its context. -/
structure Ready (b : Conf) : Prop where
  call : ∃ k, b.st.call = some k ∧ k.toWriteSide = { toRouting := k.toRouting }
  ctx : ∃ first, b.st.ctx = some (.stream first)
  h2 : ∃ n, b.st.h2 = { window := n }
  frames : ∀ f ∈ b.frames, f.writes = false
  accepted : b.st.accepted = []
  finishCalls : b.st.finishCalls = []

theorem draining_ready {b : Conf} (h : Ready b) : Draining (.of b) := by
  obtain ⟨⟨k, hk, hfresh⟩, ⟨first, hctx⟩, ⟨n, hh2⟩, hframes, hacc, hfin⟩ := h
  have htodo : (Writer.of b).todo = [] := List.filter_eq_nil_iff.mpr (by simpa using hframes)
  have hcall : (Writer.of b).call = some { toRouting := k.toRouting } :=
    (congrArg (Option.map Call.toWriteSide) hk).trans (congrArg some hfresh)
  have hsender : (Writer.of b).h2 = { window := n } := hh2
  refine ⟨⟨?_, ?_, ?_, ?_, ?_⟩, ?_, ?_, ?_, ?_, _, hcall, ?_⟩
  · rw [hsender]
    exact ⟨by simp, by simp⟩
  · constructor <;> simp [flying, hsender, htodo, Sender.owed, Sender.unread]
  · simp [htodo]
  · simp [htodo]
  · rw [hsender]
  · simp [Calm, htodo]
  · rw [hsender]
  · simp [Writer.of, writer, hctx, Ctx.isStream]
  · have hacc' : (Writer.of b).accepted = [] := hacc
    simp [Content, hsender, htodo, hcall, hacc', bodies, unsent, queued]
  · constructor <;> simp [Writer.of, writer, hfin]

/-- Nothing runs, no posted task waits, and every body given to `SendData` has been read and
    its notification delivered. -/
def Quiescent (d : Conf) : Prop :=
  d.frames = [] ∧ d.st.posted = 0 ∧ d.st.h2.unread = [] ∧ d.st.h2.notes = []

instance (d : Conf) : Decidable (Quiescent d) := inferInstanceAs (Decidable (_ ∧ _))

/-- **Finish drains**, in every run of a streaming call, from the dispatch of its handler, that
    stays open and in which `Finish` and `WriteDone` always find the queue empty: once it is
    quiescent and `Finish(st)` was called, every accepted message was submitted, in order, and
    one terminal block with `st` after them. -/
theorem finish_drains (cfg : Config) (b d : Conf) (st : Status)
    (hb : (machine cfg).Reach oneBlock fresh b) (hready : Ready b)
    (h : (machine cfg).Reach Drains b d) (hq : Quiescent d)
    (hst : d.st.finishCalls.head? = some st) :
    bodies d.st.h2.subs = d.st.accepted.map encodeFrame ∧
      ∃ pre block, d.st.h2.subs = pre ++ [block] ∧ terminals pre = [] ∧ Carries st block := by
  obtain ⟨hv, hd⟩ := reach_writer (I := Draining) (fun _ _ h => h.1)
    (reach_sound (fun _ _ h => h) hb) (draining_ready hready)
    (fun c l t w hok ht hv hd hst => draining_step hv hd (drained_trigger hok.2.1 hok.2.2 ht) hst) h
  obtain ⟨hframes, -, hunread, hnotes⟩ := hq
  have htodo : (Writer.of d).todo = [] := by simp [Writer.of, writer, hframes]
  obtain ⟨k, hk, hl⟩ := hd.ledger
  -- nothing is on its way, so nothing is in flight and no finish is pending
  have hitem := (Sender.unread_nil hunread).2
  have hfly : flying Sender.aloft (.of d) = 0 := by
    simp [flying, htodo, Sender.aloft, show (Writer.of d).h2 = d.st.h2 from rfl, hitem, hnotes]
  have hinf : k.outInflight = false := by
    by_contra hi
    have := hl.flying (by simpa using hi)
    omega
  have hpend : k.hasFinishPending = false := by
    by_contra hp
    obtain ⟨-, hi | hw⟩ := hl.pending (by simpa using hp)
    · rw [hinf] at hi
      cases hi
    · simp [htodo] at hw
  have hresp : k.responded = true := by
    by_contra hr
    have hnone : d.st.finishCalls = [] := (hl.unfinished (by simpa using hr)).1
    simp [hnone] at hst
  obtain ⟨st', block, hst', hblock, hcar⟩ := hl.finished hresp hpend
  obtain rfl : st = st' := Option.some.inj (hst.symm.trans hst')
  refine ⟨?_, ?_⟩
  · have hcontent := hd.content
    rw [Content, htodo, hk, queued, hl.shut (.inl hresp)] at hcontent
    simp only [unsent, List.append_nil, List.map_nil] at hcontent
    exact hcontent
  · obtain ⟨p, hlaw⟩ := hv.lawful
    have hterm : block.isTerminal = true := by rcases hcar with rfl | rfl <;> rfl
    obtain ⟨pre, hpre, hnone⟩ := word_terminal hlaw.word hblock hterm
    exact ⟨pre, block, hpre, hnone, hcar⟩

/-- A bidi handler that finishes while its only message is in flight. -/
theorem finish_drains_bidi :
    ∃ b d, Ready b ∧ (machine demo).Reach Drains b d ∧ Quiescent d ∧
      d.st.accepted = [[7]] ∧ bodies d.st.h2.subs = d.st.accepted.map encodeFrame := by
  obtain ⟨b, hb, hd⟩ := Option.bind_eq_some_iff.mp (show
    ((machine demo).run oneBlock fresh openBidi).bind (fun b =>
      ((machine demo).run Drains b [.event (.op (.writeMessage [7] none)), .resume,
        .event (.op (.finish .okay)), .event (.credit 100), .event .consumed, .resume,
        .event .pump]).map fun d => decide (Quiescent d ∧ d.st.accepted = [[7]] ∧
          d.st.finishCalls = [.okay])) = some true by decide)
  obtain ⟨d, hd, hfacts⟩ := Option.map_eq_some_iff.mp hd
  obtain ⟨hq, hacc, hfin⟩ := of_decide_eq_true hfacts
  have hready : Ready b := by
    obtain rfl := Option.some.inj hb
    refine ⟨⟨_, rfl, rfl⟩, ⟨_, rfl⟩, ⟨_, rfl⟩, ?_, rfl, rfl⟩
    change ∀ f ∈ ([] : List Frame), _
    simp
  have hr := Resume.System.reach_of_run _ _ _ hd
  exact ⟨b, d, hready, hr, hq, hacc, (finish_drains demo b d .okay
    (Resume.System.reach_of_run _ _ _ hb) hready hr hq (by rw [hfin]; rfl)).1⟩

/-- Two messages and a finish on a stream without window: when the window opens the first
    message goes out, the second and the trailers never do. -/
theorem finish_strands_queue :
    ∃ d, (machine demo).Reach oneBlock fresh d ∧ Quiescent d ∧ d.st.finishCalls = [.okay] ∧
      d.st.accepted = [[1], [2]] ∧ bodies d.st.h2.subs = [encodeFrame [1]] ∧
      terminals d.st.h2.subs = [] := by
  obtain ⟨d, hd, hfacts⟩ := Option.map_eq_some_iff.mp (show
    ((machine demo).run oneBlock fresh (openBidi ++ [.event (.op (.writeMessage [1] none)), .resume,
      .event (.op (.writeMessage [2] none)), .event (.op (.finish .okay)), .event (.credit 100),
      .event .consumed, .resume, .event .pump])).map (fun d => decide (Quiescent d ∧
        d.st.finishCalls = [.okay] ∧ d.st.accepted = [[1], [2]] ∧
        bodies d.st.h2.subs = [encodeFrame [1]] ∧ terminals d.st.h2.subs = [])) =
      some true by decide)
  exact ⟨d, Resume.System.reach_of_run _ _ _ hd, of_decide_eq_true hfacts⟩

end Urpc.Server
