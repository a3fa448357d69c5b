/-
  What a true `Write` says.

  `Write` returns true when it has encoded the message, before the core decides: `WriteMessage`
  refuses it when the call is over, closed for writing or has 64 messages waiting, and says so only
  to the callback. Such a message is lost.

  Proved:
  * `write_truthful`: a call of `Write` is truthful exactly when the core takes what `Write` hands
    to it; and while every call is, and no close and no loss finds a message in the queue, all
    messages of true `Write`s have gone to `SendData` when the automatic `Finish` runs.
  * `sixty_sixth_write_lost`: a handler that writes 66 messages before the peer gives any window.
-/
import Urpc.Api.ServerStream
import Urpc.Server.Closing

namespace Urpc.Server

open Cxx Writer

/-! ## A core whose writes share a callback -/

namespace Writer

variable {t : Trigger} {v w : Writer}

/-- The message that a frame holds. -/
def popped : Frame → Option OutMsg
  | .pumpOutData out => some out
  | _ => none

/-- The messages that wait to be sent. -/
def unsentMsgs (v : Writer) : List OutMsg :=
  (v.call.map WriteSide.outQueue).getD [] ++ v.todo.filterMap popped

theorem unsentMsgs_pump {k : WriteSide} {out : OutMsg} {queue : List OutMsg}
    (h : Pump v k out queue w) :
    ∀ o ∈ unsentMsgs w, o ∈ out :: queue ∨ o ∈ v.todo.filterMap popped := by
  intro o ho
  cases h with
  | first =>
      simp [unsentMsgs, Writer.pumped, popped] at ho ⊢
      tauto
  | next =>
      simp [unsentMsgs, Writer.pumped, popped] at ho ⊢
      tauto

/-- Only a write adds to what waits. -/
theorem unsentMsgs_step (h : Step t v w) :
    ∀ o ∈ unsentMsgs w, o ∈ unsentMsgs v ∨
      ∃ msg cb, t = .event (.op (.writeMessage msg cb)) ∧ o = ⟨encodeFrame msg, cb⟩ := by
  intro o ho
  cases h with
  | created | unrouted | createdStream =>
      exact .inl (List.mem_append_right _ (by simpa [unsentMsgs] using ho))
  | requestEnded hc | answered hc | dispatchedUnary hc | dispatchedStream hc | rejected hc
  | respondErr hc | writeDone hc | finishDeferred hc | finishOnly hc | finishTrailers hc =>
      exact .inl (by simpa [unsentMsgs, hc] using ho)
  | respondOk hc => exact .inl (by simpa [unsentMsgs, hc, popped] using ho)
  | consumed => exact .inl (by cases hc : v.call <;> simpa [unsentMsgs, hc, popped] using ho)
  | respondData hto | respondTrailers hto | deadlineLate hto | consumedRest hto | cancelEnd hto =>
      exact .inl (by simpa [unsentMsgs, hto, popped] using ho)
  | deadlineFired hto => exact .inl (by simpa [unsentMsgs, hto, popped] using ho)
  | deadlineTrailers hto hc | deadlineOnly hto hc | deferredFinish hto hc =>
      exact .inl (by simpa [unsentMsgs, hto, hc, popped] using ho)
  | queued hc =>
      simp only [unsentMsgs, hc, Option.map_some, Option.getD_some, List.mem_append,
        List.mem_singleton] at ho ⊢
      tauto
  | written hc _ _ _ _ hq hp =>
      rcases unsentMsgs_pump hp o ho with ho | ho
      · rw [← hq, List.mem_append, List.mem_singleton] at ho
        refine ho.imp (fun ho => ?_) fun ho => ⟨_, _, rfl, ho⟩
        exact List.mem_append_left _ (by simpa [hc] using ho)
      · exact .inl (List.mem_append_right _ ho)
  | pumped hc hq _ _ _ hp =>
      rcases unsentMsgs_pump hp o ho with ho | ho
      · exact .inl (List.mem_append_left _ (by simpa [hc, hq] using ho))
      · exact .inl (List.mem_append_right _ ho)
  | pumpOutData hto =>
      refine .inl ?_
      simp only [unsentMsgs, hto, List.mem_append, List.filterMap_cons, popped] at ho ⊢
      exact ho.imp id (List.mem_cons_of_mem _)
  | close => exact .inl (by simpa [unsentMsgs, popped] using ho)
  | connectionLost hto => exact .inl (by simpa [unsentMsgs, hto, popped] using ho)
  | cancelOut hto hc hq =>
      refine .inl ?_
      simp only [unsentMsgs, hto, hc, hq, Option.map_some, Option.getD_some, List.mem_append] at ho ⊢
      exact ho.imp (List.mem_cons_of_mem _) id
  | erase hto =>
      exact .inl (List.mem_append_right _ (by simpa [unsentMsgs, hto, popped] using ho))
  | quiet | badHeaders | finishIgnored | credit | closeIdle => exact .inl ho

theorem accepted_step (h : Step t v w) (ht : ∀ msg cb, t ≠ .event (.op (.writeMessage msg cb))) :
    w.accepted = v.accepted := by
  cases h with
  | queued | written => exact absurd rfl (ht _ _)
  | pumped _ _ _ _ _ hp => cases hp <;> rfl
  | _ => rfl

end Writer

/-! ## Runs in which every write has the callback `cb` -/

/-- The frame on top, if it clears the queue or the call, finds no message in the queue. -/
def dropless (c : Conf) : Bool :=
  match c.frames with
  | .cancelOut :: _ | .closeErase :: _ => c.st.call.all fun k => k.outQueue.isEmpty
  | _ => true

/-- No close and no loss finds a message in the queue, and every write has the callback `cb`. -/
structure SharesCb (cb : CbId) (c : Conf) (l : Label) : Prop where
  plain : trailersPlain c l
  dropless : l = .resume → dropless c = true
  shared : ∀ msg cb', l = .event (.op (.writeMessage msg cb')) → cb' = some cb

/-- What waits to be sent has the callback `cb`. -/
structure Addressed (cb : CbId) (v : Writer) : Prop where
  callbacks : ∀ o ∈ unsentMsgs v, o.cb = some cb
  undropped : Undropped True v

theorem addressed_again {cb : CbId} {v w : Writer} (hv : Addressed cb v) (ha : Again v w) :
    Addressed cb w := by
  refine ⟨fun o ho => hv.callbacks o ?_, undropped_again hv.undropped ha⟩
  cases ha with
  | answered | unknown => exact ho
  | refused _ hk => simpa [Writer.unsentMsgs, hk] using ho

theorem SharesCb.outQueue {cb : CbId} {c : Conf} {f : Frame} {fs : List Frame}
    (h : SharesCb cb c .resume) (hf : c.frames = f :: fs) (hm : f = .cancelOut ∨ f = .closeErase)
    {k : Call} (hk : c.st.call = some k) : k.outQueue = [] := by
  have hall := h.dropless rfl
  rcases hm with rfl | rfl <;> simpa [Server.dropless, hf, hk] using hall

theorem addressed_reach {cfg : Config} {cb : CbId} {c : Conf}
    (h : (machine cfg).Reach (SharesCb cb) fresh c) : Orderly (.of c) ∧ Addressed cb (.of c) := by
  refine reach_orderly (fun _ _ hl => hl.plain) sound_fresh.orderly
    ⟨by simp [Writer.unsentMsgs, Writer.of, writer, fresh], undropped_fresh⟩ ?_ (fun _ _ _ => addressed_again) h
  intro c l t w hl ht ho hv hst
  refine ⟨fun o hmem => ?_, undropped_step ho hv.undropped ?_ (fun _ _ => trivial) hst⟩
  · rcases unsentMsgs_step hst o hmem with hmem | ⟨msg, cb', rfl, rfl⟩
    · exact hv.callbacks o hmem
    · cases triggers_of_trigger ht
      exact hl.shared _ _ rfl
  · rintro f - rfl - hm
    cases triggers_of_trigger ht with
    | frame hf =>
        cases hk : c.st.call with
        | none => simp [queued, Writer.of, writer, hk]
        | some k => simp [queued, Writer.of, writer, hk, hl.outQueue hf hm hk]

/-- Only a write is accepted. -/
theorem accepted_plain {cfg : Config} {c d : Conf} {l : Label} (hd : Dispatched (.of c))
    (hl : trailersPlain c l) (hw : ∀ msg cb, l ≠ .event (.op (.writeMessage msg cb)))
    (hs : (machine cfg).step c l = some d) : d.st.accepted = c.st.accepted := by
  rcases writer_step_or_again hd hl hs with ⟨t, ht, hst⟩ | ha
  · refine accepted_step hst ?_
    rintro msg cb rfl
    cases triggers_of_trigger ht
    exact hw _ _ rfl
  · exact accepted_again ha

/-- `WriteMessage` takes a message. -/
def takes (s : State) : Bool :=
  match s.ctx, s.call with
  | some (.stream _), some k => !k.refuses
  | _, _ => false

theorem accepted_pumpOut (s : State) : (pumpOut s).1.accepted = s.accepted := by
  unfold pumpOut
  split
  · split
    · rfl
    · split
      · rfl
      · simp only
        split <;> rfl
  · rfl

/-- A message is accepted when it is taken. -/
theorem accepted_write {cfg : Config} {c d : Conf} {msg : Bytes} {cb : Option CbId}
    (hs : (machine cfg).step c (.event (.op (.writeMessage msg cb))) = some d) :
    d.st.accepted = c.st.accepted ++ if takes c.st then [msg] else [] := by
  obtain ⟨-, s, gs, hfire, rfl⟩ := Resume.System.step_event hs
  have hfire : applyOp c.st (.writeMessage msg cb) = some (s, gs) := hfire
  simp only [applyOp] at hfire
  split at hfire
  · next first hctx =>
      have hr := Option.some.inj hfire
      cases hk : c.st.call with
      | none =>
          simp only [writeMessage, hk, tellWriter_eq] at hr
          cases hr
          simp [takes, hctx, hk]
      | some k =>
          cases href : k.refuses with
          | true =>
              obtain ⟨st, -, hw⟩ := writeMessage_rejected hk href msg cb
              rw [hw, tellWriter_eq] at hr
              cases hr
              simp [takes, hctx, hk, href]
          | false =>
              obtain ⟨⟨hresp, hclosed⟩, hlen⟩ : (k.responded = false ∧ k.writeClosed = false) ∧
                  ¬ 64 ≤ k.outQueue.length := by simpa [Call.refuses] using href
              simp only [writeMessage, hk, hresp, hclosed, Bool.or_false, ge_iff_le, hlen] at hr
              have hacc := congrArg (fun r => r.1.accepted) hr
              simp only [Bool.false_eq_true, if_false, accepted_pumpOut] at hacc
              simp [takes, hctx, hk, href, ← hacc]
  · cases hfire

/-- A call that is erased holds no write callback. -/
theorem SharesCb.held {cb cb' : CbId} {c : Conf} {fs : List Frame} (h : SharesCb cb c .resume)
    (hf : c.frames = .closeErase :: fs) :
    (c.st.call.toList.flatMap Call.held).count (.write cb') = 0 := by
  cases hk : c.st.call with
  | none => rfl
  | some k =>
      have hq := h.outQueue hf (.inr rfl) hk
      cases hr : k.readCb <;> simp [Call.held, queueTokens, hq, hr]

/-- No callback is owed: nothing waits to be sent. -/
theorem unsentMsgs_nil {cb : CbId} {c : Conf} (hv : Addressed cb (.of c))
    (h : balance (.write cb) c.st c.frames = (told c.st.log).count (.write cb)) :
    unsentMsgs (.of c) = [] := by
  have hheld : (c.st.call.toList.flatMap Call.held).count (.write cb) = 0 ∧
      (c.frames.flatMap Frame.held).count (.write cb) = 0 := by
    unfold balance at h
    omega
  refine List.eq_nil_iff_forall_not_mem.mpr fun o ho => ?_
  have hcb := hv.callbacks o ho
  have htoken : Token.write cb ∈ writeToken o.cb := by simp [writeToken, hcb]
  rcases List.mem_append.mp ho with ho | ho
  · cases hk : c.st.call with
    | none => simp [Writer.of, writer, hk] at ho
    | some k =>
        have hq : o ∈ k.outQueue := by simpa [Writer.of, writer, hk] using ho
        refine List.count_eq_zero.mp hheld.1 (List.mem_flatMap.mpr ⟨k, by simp [hk], ?_⟩)
        exact List.mem_append_right _ (List.mem_flatMap.mpr ⟨o, hq, htoken⟩)
  · obtain ⟨f, hf, hfo⟩ := List.mem_filterMap.mp ho
    have hf : f ∈ c.frames := (List.mem_filter.mp hf).1
    refine List.count_eq_zero.mp hheld.2 (List.mem_flatMap.mpr ⟨f, hf, ?_⟩)
    cases f with
    | pumpOutData out =>
        cases hfo
        exact htoken
    | _ => cases hfo

theorem unsent_eq (fs : List Frame) : unsent fs = (fs.filterMap popped).map OutMsg.framed := by
  induction fs with
  | nil => rfl
  | cons f fs ih => cases f <;> simp [unsent, popped, ih, List.filterMap_cons]

/-- Everything accepted went to `SendData`. -/
theorem bodies_of_unsentMsgs_nil {v : Writer} (hv : Content v) (h : unsentMsgs v = []) :
    bodies v.h2.subs = v.accepted.map encodeFrame := by
  obtain ⟨hqueue, hframes⟩ := List.append_eq_nil_iff.mp h
  have hunsent : unsent v.todo = [] := by rw [unsent_eq, hframes, List.map_nil]
  have hqueued : queued v.call = [] := by
    cases hc : v.call with
    | none => rfl
    | some k => simpa [queued, hc] using hqueue
  rw [Content, hunsent, hqueued, List.append_nil, List.append_nil] at hv
  exact hv

end Urpc.Server

namespace Urpc.Api.ServerStream

open Cxx

/-! ## Truthful runs -/

/-- What `Write` hands to the core is taken. -/
def truthfulWrite (c : Conf) (m : Outgoing) : Prop :=
  c.st.w.writeReturns m = true → Server.takes c.st.core = true

instance (c : Conf) (m : Outgoing) : Decidable (truthfulWrite c m) :=
  inferInstanceAs (Decidable (_ → _))

/-- No later header block opens a call again, every `Write` is truthful, and no close of the stream
    and no loss of the connection finds a message in the queue. -/
def truthful (c : Conf) : Label → Prop
  | .event (.core e) => Server.trailersPlain (inner c) (.event e)
  | .event (.write m) => truthfulWrite c m
  | .event (.finish _) => True
  | .resume => (∀ f ∈ c.frames.head?, f.inner.isSome = true) → Server.dropless (inner c) = true

instance (c : Conf) : (l : Label) → Decidable (truthful c l)
  | .event (.core e) => inferInstanceAs (Decidable (Server.trailersPlain (inner c) (.event e)))
  | .event (.write m) => inferInstanceAs (Decidable (truthfulWrite c m))
  | .event (.finish _) => .isTrue trivial
  | .resume => inferInstanceAs (Decidable (_ → _))

/-- The message entered the core's send queue. -/
def Entered (m : Outgoing) (c d : Conf) : Prop :=
  ∃ payload, m.msg = some (some payload) ∧
    d.st.core.accepted = c.st.core.accepted ++ [payload]

def fresh : Conf := ⟨{}, []⟩

/-- Everything accepted is a message of a true `Write`, and each is counted until its callback is
    over. -/
structure Accounted (cfg : Config) (c : Conf) : Prop where
  core : (Server.machine cfg.core).Reach (Server.SharesCb delivery) Server.fresh (inner c)
  truths : c.st.truths = c.st.core.accepted
  wrote : c.st.w.wrote = true → c.st.truths ≠ []
  returned : c.st.w.handlerReturned = true → c.st.w.wrote = true
  count : c.st.w.inFlight + delivered c.st.core =
    Server.balance (.write delivery) c.st.core (innerFrames c.frames) + deliveries c.frames

/-! ### The writer's counter -/

section Counter

variable {w : ServerWriteState}

theorem afterHandler_keeps :
    w.afterHandler.1.inFlight = w.inFlight ∧ w.afterHandler.1.wrote = w.wrote ∧
      (w.afterHandler.1.handlerReturned = true → w.handlerReturned = true ∨ w.wrote = true) := by
  unfold ServerWriteState.afterHandler
  split
  · exact ⟨rfl, rfl, .inl⟩
  · split
    · exact ⟨rfl, rfl, .inl⟩
    · next hwrote =>
        have hwrote : w.wrote = true := by simpa using hwrote
        rcases AutoFinish.maybeAutoFinish_cases
          { w with handlerReturned := true, finishCtx := true } with ⟨h, -⟩ | ⟨h, -⟩
        · rw [h]
          exact ⟨rfl, rfl, fun _ => .inr hwrote⟩
        · rw [h]
          exact ⟨rfl, rfl, fun _ => .inr hwrote⟩

theorem onDelivered_keeps (h : 0 < w.inFlight) :
    w.onDelivered.1.inFlight + 1 = w.inFlight ∧ w.onDelivered.1.wrote = w.wrote ∧
      w.onDelivered.1.handlerReturned = w.handlerReturned := by
  have hsub : ServerWriteState.fetchSub w.inFlight + 1 = w.inFlight := by
    unfold ServerWriteState.fetchSub
    split <;> omega
  simp only [ServerWriteState.onDelivered]
  split
  · rcases AutoFinish.maybeAutoFinish_cases
      { w with inFlight := ServerWriteState.fetchSub w.inFlight } with ⟨h, -⟩ | ⟨h, -⟩
    · rw [h]
      exact ⟨hsub, rfl, rfl⟩
    · rw [h]
      exact ⟨hsub, rfl, rfl⟩
  · exact ⟨hsub, rfl, rfl⟩

/-- An automatic `Finish` with OK: a message was written and none is outstanding. -/
theorem afterHandler_okays (h : okays w.afterHandler.2 ≠ 0) :
    w.afterHandler.1.inFlight = 0 ∧ w.afterHandler.1.wrote = true := by
  unfold ServerWriteState.afterHandler at h ⊢
  split at h
  · exact absurd rfl h
  · split at h
    · exact absurd rfl h
    · next hfin hwrote =>
        rw [if_neg hfin, if_neg hwrote]
        rcases AutoFinish.maybeAutoFinish_cases
          { w with handlerReturned := true, finishCtx := true } with ⟨heq, -⟩ | ⟨heq, hzero, -⟩
        · rw [heq] at h
          exact absurd rfl h
        · rw [heq]
          exact ⟨hzero, by simpa using hwrote⟩

theorem onDelivered_okays (h : okays w.onDelivered.2 ≠ 0) :
    w.onDelivered.1.inFlight = 0 ∧ w.handlerReturned = true ∧
      w.onDelivered.1.wrote = w.wrote := by
  simp only [ServerWriteState.onDelivered] at h ⊢
  split at h
  · next hone =>
      rw [if_pos hone]
      rcases AutoFinish.maybeAutoFinish_cases
        { w with inFlight := ServerWriteState.fetchSub w.inFlight }
        with ⟨heq, -⟩ | ⟨heq, hzero, hret, -⟩
      · rw [heq] at h
        exact absurd rfl h
      · rw [heq]
        exact ⟨hzero, hret, rfl⟩
  · exact absurd rfl h

end Counter

/-! ### Steps -/

variable {cfg : Config} {c d : Conf} {s : State} {fs : List Frame}

theorem issues_of_no_write {l : Server.Label}
    (h : ∀ msg cb, l ≠ .event (.op (.writeMessage msg cb))) :
    (Server.issues l).count (.write delivery) = 0 := by
  rw [List.count_eq_zero]
  intro hmem
  match l with
  | .event (.op (.readMessage cb)) => simp [Server.issues, Server.Event.issues] at hmem
  | .event (.op (.writeMessage msg cb)) => exact h msg cb rfl

/-- The core makes a step, and what it calls gets its frames. -/
theorem follows_account {l : Server.Label} {n : Nat}
    (hr : (Server.machine cfg.core).Reach (Server.SharesCb delivery) Server.fresh (inner ⟨s, fs⟩))
    (hl : Server.SharesCb delivery (inner ⟨s, fs⟩) l)
    (hn : n + delivered s.core = Server.balance (.write delivery) s.core (innerFrames fs) +
      (Server.issues l).count (.write delivery) + deliveries fs)
    (h : Follows cfg l s fs d) :
    (Server.machine cfg.core).Reach (Server.SharesCb delivery) Server.fresh (inner d) ∧
      n + delivered d.st.core =
        Server.balance (.write delivery) d.st.core (innerFrames d.frames) +
          deliveries d.frames := by
  have hbalance := Server.balance_step (t := .write delivery) h.step fun _ hresume hrest => by
    subst hresume
    exact hl.held hrest
  have hcalls := h.calls
  refine ⟨.tail hr hl h.step, ?_⟩
  simp only [inner] at hbalance
  omega

theorem Accounted.follows {l : Server.Label} (h : Accounted cfg ⟨s, fs⟩)
    (hl : Server.trailersPlain (inner ⟨s, fs⟩) l)
    (hdropless : l = .resume → Server.dropless (inner ⟨s, fs⟩) = true)
    (hw : ∀ msg cb, l ≠ .event (.op (.writeMessage msg cb))) (hf : Follows cfg l s fs d) :
    Accounted cfg d := by
  have hcount := h.count
  have hissues := issues_of_no_write hw
  obtain ⟨hr, hcount⟩ := follows_account (n := s.w.inFlight) h.core
    ⟨hl, hdropless, fun msg cb heq => absurd heq (hw msg cb)⟩ (by simp only at hcount; omega) hf
  have haccepted : d.st.core.accepted = s.core.accepted :=
    Server.accepted_plain (Server.addressed_reach h.core).1.dispatched hl hw hf.step
  obtain ⟨core, hrest⟩ := hf.rest
  obtain ⟨st, frames⟩ := d
  obtain rfl : st = { s with core } := hrest
  exact ⟨hr, h.truths.trans haccepted.symm, h.wrote, h.returned, hcount⟩

theorem Accounted.passes {o : Option Server.Op} (h : Accounted cfg ⟨s, fs⟩)
    (ho : ∀ msg cb, o ≠ some (.writeMessage msg cb)) (hp : Passes cfg s fs d o) :
    Accounted cfg d := by
  cases hp with
  | none hst hinner hcalls =>
      obtain ⟨st, frames⟩ := d
      obtain rfl : st = s := hst
      have hcount := h.count
      have hinner' : inner ⟨st, frames⟩ = inner ⟨st, fs⟩ := congrArg (Resume.Conf.mk _) hinner
      refine ⟨hinner' ▸ h.core, h.truths, h.wrote, h.returned, ?_⟩
      simp only at hinner hcalls hcount ⊢
      rw [hinner, hcalls, hcount]
  | gone _ hd => exact hd ▸ h
  | some hf =>
      refine h.follows (l := .event (.op _)) trivial (by simp) ?_ hf
      rintro msg cb ⟨⟩
      exact ho msg cb rfl

/-- A frame of the typed layer that is no write callback is over. -/
theorem Accounted.pop {f : Frame} (h : Accounted cfg c) (hc : c.frames = f :: fs)
    (hinner : f.inner = none) (hf : f ≠ .onDelivered) : Accounted cfg ⟨c.st, fs⟩ := by
  obtain ⟨st, frames⟩ := c
  obtain rfl : frames = f :: fs := hc
  have hframes : innerFrames (f :: fs) = innerFrames fs := List.filterMap_cons_none hinner
  have hcalls : deliveries (f :: fs) = deliveries fs := List.count_cons_of_ne hf
  have hcore := h.core
  have hcount := h.count
  simp only [inner] at hcore hcount
  rw [hframes] at hcore hcount
  rw [hcalls] at hcount
  exact ⟨hcore, h.truths, h.wrote, h.returned, hcount⟩

/-- What the typed layer does itself keeps the account, `Write` apart. -/
theorem Accounted.acts {l : Label} {o : Option Server.Op} (h : Accounted cfg c)
    (ha : Acts c l s fs o) (ho : ∀ msg cb, o ≠ some (.writeMessage msg cb)) :
    Accounted cfg ⟨s, fs⟩ := by
  cases ha with
  | dispatched hc | ignored hc | refused hc => exact h.pop hc rfl (by simp)
  | called hc =>
      have hp := h.pop hc rfl (by simp)
      exact ⟨hp.core, hp.truths, hp.wrote, hp.returned, hp.count⟩
  | afterHandler hc =>
      have hp := h.pop hc rfl (by simp)
      obtain ⟨hin, hwrote, hret⟩ := afterHandler_keeps (w := c.st.w)
      refine ⟨hp.core, hp.truths, fun hw => hp.wrote (hwrote.symm.trans hw), fun hr => ?_, ?_⟩
      · exact hwrote.trans ((hret hr).elim hp.returned id)
      · simp only [hin]
        exact hp.count
  | onDelivered hc =>
      obtain ⟨st, frames⟩ := c
      obtain rfl : frames = .onDelivered :: fs := hc
      have hcalls : deliveries (.onDelivered :: fs) = deliveries fs + 1 := List.count_cons_self
      have hcount := h.count
      have hbalance : delivered st.core ≤
          Server.balance (.write delivery) st.core (innerFrames fs) := by
        unfold Server.balance delivered
        omega
      simp only at hcount
      rw [hcalls] at hcount
      change _ = Server.balance _ _ (innerFrames fs) + _ at hcount
      obtain ⟨hin, hwrote, hret⟩ := onDelivered_keeps (w := st.w) (by omega)
      refine ⟨h.core, h.truths, fun hw => h.wrote (hwrote.symm.trans hw),
        fun hr => hwrote.trans (h.returned (hret.symm.trans hr)), ?_⟩
      simp only
      omega
  | wrote => exact absurd rfl (ho _ _)
  | failed => exact h
  | finished => exact ⟨h.core, h.truths, h.wrote, h.returned, h.count⟩

theorem writeReturns_of_ok {m : Outgoing} {w : ServerWriteState} {payload : Bytes}
    (h : w.encode m = .ok payload) : w.writeReturns m = true ∧ m.msg = some (some payload) := by
  refine ⟨by rw [ServerWriteState.writeReturns, h]; rfl, ?_⟩
  simp only [ServerWriteState.encode] at h
  split at h
  · cases h
  · next encoded hm =>
      split at h
      · cases h
      · split at h
        · cases h
        · split at h <;> cases h
          exact hm

/-- A message that the core takes is counted, and its callback is owed. -/
theorem Accounted.writes {payload : Bytes} (h : Accounted cfg c)
    (ht : Server.takes c.st.core = true) (hcore : s.core = c.st.core) (hw : s.w = c.st.w.counted)
    (htruths : s.truths = c.st.truths ++ [payload])
    (hp : Passes cfg s c.frames d (some (.writeMessage payload (some delivery)))) :
    Accounted cfg d := by
  have hinner : inner ⟨s, c.frames⟩ = inner c :=
    congrArg (fun core => (⟨core, innerFrames c.frames⟩ : Server.Conf)) hcore
  cases hp with
  | gone hnone =>
      rw [hcore] at hnone
      simp only [Server.takes, Server.applyOp] at ht hnone
      split at ht
      · next hctx _ => simp [hctx] at hnone
      · cases ht
  | some hf =>
      have hshares : Server.SharesCb delivery (inner ⟨s, c.frames⟩)
          (.event (.op (.writeMessage payload (some delivery)))) := by
        refine ⟨trivial, by simp, ?_⟩
        rintro msg cb ⟨⟩
        rfl
      have hissues : (Server.issues (.event (.op (.writeMessage payload (some delivery))))).count
          (.write delivery) = 1 := rfl
      have hcount := h.count
      obtain ⟨hr, hcount⟩ := follows_account (n := c.st.w.inFlight + 1) (hinner ▸ h.core) hshares
        (by rw [hcore]; omega) hf
      have haccepted : d.st.core.accepted = s.core.accepted ++ [payload] := by
        have := Server.accepted_write hf.step
        rwa [hcore, if_pos ht, ← hcore] at this
      obtain ⟨core, hrest⟩ := hf.rest
      have hw' : d.st.w = c.st.w.counted := hrest ▸ hw
      have htruths' : d.st.truths = c.st.truths ++ [payload] := hrest ▸ htruths
      refine ⟨hr, ?_, fun _ => by simp [htruths'], fun _ => by rw [hw']; rfl, hw' ▸ hcount⟩
      rw [htruths', haccepted, hcore, h.truths]

theorem Passes.typed {o : Option Server.Op} (hp : Passes cfg s fs d o) :
    d.st.autos = s.autos ∧ d.st.w = s.w := by
  cases hp with
  | none hst => simp [hst]
  | gone _ hd => simp [hd]
  | some hf =>
      obtain ⟨core, hrest⟩ := hf.rest
      simp [hrest]

/-- `Write` alone calls `WriteMessage`. -/
theorem Acts.write_or {l : Label} {o : Option Server.Op} (ha : Acts c l s fs o) :
    (∃ m payload, l = .event (.write m) ∧ c.st.w.encode m = .ok payload ∧
      s = { c.st with w := c.st.w.counted, truths := c.st.truths ++ [payload] } ∧
      fs = c.frames ∧ o = some (.writeMessage payload (some delivery))) ∨
    ∀ msg cb, o ≠ some (.writeMessage msg cb) := by
  cases ha with
  | wrote hm => exact .inl ⟨_, _, rfl, hm, rfl, rfl, rfl⟩
  | finished =>
      right
      split <;> simp
  | _ => simp

theorem accounted_step {l : Label} (h : Accounted cfg c) (hl : truthful c l)
    (hs : (machine cfg).step c l = some d) : Accounted cfg d := by
  cases step_cases hs with
  | resumed hc hf =>
      refine h.follows (l := .resume) trivial (fun _ => hl ?_) (by simp) hf
      simp [hc, Frame.inner]
  | event hforeign hf =>
      refine h.follows (l := .event _) hl (by simp) ?_ hf
      rintro msg cb ⟨⟩
      cases hforeign
  | typed ha hp =>
      rcases ha.write_or with ⟨m, payload, rfl, hm, hst, rfl, rfl⟩ | ho
      · exact h.writes (hl (writeReturns_of_ok hm).1) (by rw [hst]) (by rw [hst]) (by rw [hst]) hp
      · exact (h.acts ha ho).passes ho hp

theorem accounted_fresh : Accounted cfg fresh where
  core := .refl
  truths := rfl
  wrote := by simp [fresh]
  returned := by simp [fresh]
  count := rfl

theorem accounted_reach (h : (machine cfg).Reach truthful fresh c) : Accounted cfg c :=
  h.inv accounted_fresh fun _ _ _ hc hl hs => accounted_step hc hl hs

/-- Nothing is outstanding and something was written: all of it went to `SendData`. -/
theorem Accounted.drained (h : Accounted cfg c) (hzero : c.st.w.inFlight = 0)
    (hwrote : c.st.w.wrote = true) :
    bodies c.st.core.h2.subs = c.st.truths.map encodeFrame := by
  have hcount := h.count
  obtain ⟨horder, haddressed⟩ := Server.addressed_reach h.core
  have howed : Server.balance (.write delivery) (inner c).st (inner c).frames =
      (Server.told (inner c).st.log).count (.write delivery) := by
    have hle : delivered c.st.core ≤
        Server.balance (.write delivery) c.st.core (innerFrames c.frames) := by
      unfold Server.balance delivered
      omega
    change Server.balance (.write delivery) c.st.core (innerFrames c.frames) = delivered c.st.core
    omega
  have hsome : (Server.Writer.of (inner c)).accepted ≠ [] :=
    fun hnil => h.wrote hwrote (h.truths.trans hnil)
  have hcontent : Server.Writer.Content (.of (inner c)) := by
    rcases haddressed.undropped.content with hs | ⟨-, -, -, hnil⟩ | ⟨-, hcontent, -⟩
    · exact absurd (haddressed.undropped.unary horder hs).2 hsome
    · exact absurd hnil hsome
    · exact hcontent
  rw [h.truths]
  exact Server.bodies_of_unsentMsgs_nil hcontent (Server.unsentMsgs_nil haddressed howed)

/-- The step that makes an automatic `Finish` leaves nothing outstanding. -/
theorem auto_step {l : Label} (h : Accounted cfg c) (hs : (machine cfg).step c l = some d)
    (hauto : d.st.autos ≠ c.st.autos) : d.st.w.inFlight = 0 ∧ d.st.w.wrote = true := by
  cases step_cases hs with
  | resumed _ hf | event _ hf =>
      obtain ⟨core, hrest⟩ := hf.rest
      exact absurd (by rw [hrest]) hauto
  | typed ha hp =>
      obtain ⟨hautos, hw⟩ := hp.typed
      rw [hautos] at hauto
      rw [hw]
      cases ha with
      | afterHandler => exact afterHandler_okays (by simpa using hauto)
      | onDelivered =>
          obtain ⟨hzero, hret, hwrote⟩ := onDelivered_okays (w := c.st.w) (by simpa using hauto)
          exact ⟨hzero, hwrote.trans (h.returned hret)⟩
      | dispatched | ignored | refused | called | wrote | failed | finished =>
          exact absurd rfl hauto

/-- What a call of `Write` does to the core's send queue. -/
theorem write_entered {m : Outgoing} (hs : (machine cfg).step c (.event (.write m)) = some d) :
    Entered m c d ↔ c.st.w.writeReturns m = true ∧ Server.takes c.st.core = true := by
  cases step_cases hs with
  | typed ha hp =>
      cases ha with
      | failed hm =>
          have hret : c.st.w.writeReturns m = false := by
            rw [ServerWriteState.writeReturns, hm]
            rfl
          cases hp with
          | none hst => simp [Entered, hst, hret]
      | wrote hm =>
          obtain ⟨hret, hmsg⟩ := writeReturns_of_ok hm
          simp only [Entered, hmsg, hret, true_and, Option.some.injEq, exists_eq_left']
          cases hp with
          | gone hnone hd =>
              have hno : Server.takes c.st.core = false := by
                simp only [Server.takes]
                simp only [Server.applyOp] at hnone
                split at hnone
                · cases hnone
                · next hctx =>
                    split
                    · next hc _ => exact absurd hc (hctx _)
                    · rfl
              simp [hd, hno]
          | some hf =>
              have hacc := Server.accepted_write hf.step
              change d.st.core.accepted = c.st.core.accepted ++ _ at hacc
              rw [hacc]
              cases Server.takes c.st.core <;> simp

/-- A call of `Write` is truthful, that is, it returns true exactly when the message enters the
    core's send queue, just when the core takes what `Write` hands to it: in every run. And in
    every run in which all calls of `Write` are, and no close and no loss finds a message in the
    queue, when the automatic `Finish` with OK runs every message whose `Write` returned true has
    gone to `SendData`. -/
theorem write_truthful (cfg : Config) (c d : Conf) :
    (∀ m, (machine cfg).step c (.event (.write m)) = some d →
      ((c.st.w.writeReturns m = true ↔ Entered m c d) ↔ truthfulWrite c m)) ∧
    ((machine cfg).Reach truthful fresh c → ∀ l, truthful c l → (machine cfg).step c l = some d →
      d.st.autos ≠ c.st.autos →
      bodies d.st.core.h2.subs = d.st.truths.map encodeFrame) := by
  refine ⟨fun m hs => ?_, fun hr l hl hs hauto => ?_⟩
  · rw [write_entered hs, truthfulWrite]
    tauto
  · have hacc := accounted_reach hr
    obtain ⟨hzero, hwrote⟩ := auto_step hacc hs hauto
    exact (accounted_step hacc hl hs).drained hzero hwrote

/-- A server with one server-streaming method. -/
def demo : Config where
  path := str "/t/S"
  parse _ := true

/-- A call up to its handler. -/
def demoCall : List Label :=
  [.event (.core (.headers (Server.demoHeaders "/t/S") false)), .resume,
    .event (.core (.data (encodeFrame [7]) true)), .resume, .resume, .resume]

/-- The handler writes a message. -/
def demoWrite : Label := .event (.write ⟨some (some [1]), true⟩)

/-- One message, whose write callback makes the automatic `Finish`. -/
theorem write_truthful_one :
    ∃ c d, (machine demo).Reach truthful fresh c ∧ (machine demo).step c .resume = some d ∧
      c.st.autos = 0 ∧ d.st.autos = 1 ∧
      bodies d.st.core.h2.subs = d.st.truths.map encodeFrame := by
  obtain ⟨c, d, hc, hl, hd, hautos, hautos'⟩ : ∃ c d,
      (machine demo).run truthful fresh (demoCall ++ [demoWrite, .resume, .resume, .resume,
        .event (.core (.credit 100)), .event (.core .consumed)]) = some c ∧
      truthful c .resume ∧ (machine demo).step c .resume = some d ∧ c.st.autos = 0 ∧
      d.st.autos = 1 := ⟨_, _, rfl, by decide, rfl, rfl, rfl⟩
  have hr := Resume.System.reach_of_run _ _ _ hc
  exact ⟨c, d, hr, hd, hautos, hautos',
    (write_truthful demo c d).2 hr .resume hl hd (by simp [hautos, hautos'])⟩

/-- A consumed notification, the write callback, and the next message of the queue. -/
def demoDrain : List Label :=
  [.event (.core .consumed), .resume, .resume, .event (.core .pump)]

/-- A handler writes 66 messages before the peer gives any window. All calls of `Write` return
    true; the core takes 65 messages, and the call ends with OK. -/
theorem sixty_sixth_write_lost :
    ((machine demo).run (fun _ _ => True) fresh (demoCall ++ [demoWrite, .resume] ++
      List.replicate 65 demoWrite ++ [.resume, .resume, .resume, .event (.core (.credit 1000))] ++
      (List.replicate 65 demoDrain).flatten)).map (fun c =>
        (c.st.truths.length, c.st.core.accepted.length, (bodies c.st.core.h2.subs).length,
          c.st.autos, c.st.core.h2.subs.getLast?))
      = some (66, 65, 65, 1, some (.trailers (grpcStatusFields .okay))) := by
  decide +kernel

end Urpc.Api.ServerStream
