/-
  What a stream does not look at once its request is over.

  Only `OnData`, `FinishRequest` and what they call read `request_done` and the decoder, and
  `request_half_closed` is read by `ReadMessage` besides. So after END_STREAM the rest of the run
  is the same whatever these fields hold, as long as `ReadMessage` finds the same
  `request_half_closed`.

  Proved: `run_hide`.
-/
import Urpc.Server.Log

namespace Urpc.Server

open Cxx

/-- The call with other values of the three fields. -/
def Call.hide (done half : Bool) (decoder : FrameDecoder) (k : Call) : Call :=
  { k with requestDone := done, requestHalfClosed := half, decoder }

def State.hide (done half : Bool) (decoder : FrameDecoder) (s : State) : State :=
  { s with call := s.call.map (Call.hide done half decoder) }

theorem hide_self {s : State} {k : Call} (hc : s.call = some k) :
    s.hide k.requestDone k.requestHalfClosed k.decoder = s := by
  obtain ⟨_⟩ := s
  cases hc
  rfl

theorem hide_none {s : State} (hc : s.call = none) (done half : Bool) (decoder : FrameDecoder) :
    s.hide done half decoder = s := by
  obtain ⟨_⟩ := s
  cases hc
  rfl

section Functions

variable (done half : Bool) (decoder : FrameDecoder) (s : State)

theorem hide_finishStream (st : Status) : finishStream (s.hide done half decoder) st =
    (finishStream s st).hide done half decoder := by
  obtain ⟨_ | k⟩ := s
  · rfl
  · simp only [finishStream, State.hide, Option.map_some, Call.hide]
    split_ifs <;> rfl

theorem hide_pumpOut : pumpOut (s.hide done half decoder) =
    ((pumpOut s).1.hide done half decoder, (pumpOut s).2) := by
  obtain ⟨_ | k⟩ := s
  · rfl
  · cases hq : k.outQueue with
    | nil => simp only [pumpOut, State.hide, Option.map_some, Call.hide, hq]
    | cons out queue =>
        simp only [pumpOut, State.hide, Option.map_some, Call.hide, hq]
        split_ifs <;> simp [State.setCall, State.sendHeaders, State.sendData, Call.hide, hq]

theorem hide_onConsumed (cb : Option CbId) : onConsumed (s.hide done half decoder) cb =
    ((onConsumed s cb).1.hide done half decoder, (onConsumed s cb).2) := by
  obtain ⟨_ | k⟩ := s <;> cases cb <;> rfl

theorem hide_respond (st : Status) (payload : Bytes) :
    respond (s.hide done half decoder) st payload =
      ((respond s st payload).1.hide done half decoder, (respond s st payload).2) := by
  obtain ⟨_ | k⟩ := s
  · rfl
  · simp only [respond, State.hide, Option.map_some, Call.hide]
    split_ifs <;> rfl

theorem hide_fireCancel : fireCancel (s.hide done half decoder) =
    (fireCancel s).hide done half decoder := by
  obtain ⟨_ | k⟩ := s
  · rfl
  · simp only [fireCancel, State.hide, Option.map_some, Call.hide]
    split_ifs <;> rfl

theorem hide_onDeadlineRest : onDeadlineRest (s.hide done half decoder) =
    (onDeadlineRest s).hide done half decoder := by
  obtain ⟨_ | k⟩ := s
  · rfl
  · simp only [onDeadlineRest, State.hide, Option.map_some, Call.hide]
    split_ifs <;> rfl

theorem hide_cancelStreamIo : cancelStreamIo (s.hide done half decoder) =
    (cancelStreamIo s).hide done half decoder := by
  obtain ⟨_ | k⟩ := s
  · rfl
  · cases hcb : k.readCb <;>
      simp [cancelStreamIo, State.hide, Call.hide, State.setCall, State.note, hcb]

theorem hide_cancelOut : cancelOut (s.hide done half decoder) =
    ((cancelOut s).1.hide done half decoder, (cancelOut s).2) := by
  obtain ⟨_ | k⟩ := s
  · rfl
  · cases hq : k.outQueue with
    | nil => simp [cancelOut, State.hide, Call.hide, hq]
    | cons out queue =>
        cases hcb : out.cb <;>
          simp [cancelOut, State.hide, Call.hide, State.setCall, State.note, hq, hcb]

theorem hide_closeErase : closeErase (s.hide done half decoder) =
    (closeErase s).hide done half decoder := by
  obtain ⟨_ | k⟩ := s <;> rfl

theorem hide_maybeSendDeferredFinish : maybeSendDeferredFinish (s.hide done half decoder) =
    (maybeSendDeferredFinish s).hide done half decoder := by
  obtain ⟨_ | k⟩ := s
  · rfl
  · simp only [maybeSendDeferredFinish, State.hide, Option.map_some, Call.hide]
    split_ifs <;> rfl

theorem hide_writeMessage (msg : Bytes) (cb : Option CbId) :
    writeMessage (s.hide done half decoder) msg cb =
      ((writeMessage s msg cb).1.hide done half decoder, (writeMessage s msg cb).2) := by
  have htell : ∀ st, tellWriter (s.hide done half decoder) cb st =
      (tellWriter s cb st).hide done half decoder := fun st => by cases cb <;> rfl
  cases hc : s.call with
  | none =>
      have hc' : (s.hide done half decoder).call = none := congrArg (Option.map _) hc
      simp only [writeMessage, hc, hc', htell]
  | some k =>
      have hc' : (s.hide done half decoder).call = some (k.hide done half decoder) :=
        congrArg (Option.map _) hc
      simp only [writeMessage, hc, hc', htell, Call.hide]
      by_cases hclosed : (k.responded || k.writeClosed) = true
      · simp only [if_pos hclosed]
      · by_cases hfull : k.outQueue.length ≥ 64
        · simp only [if_neg hclosed, if_pos hfull]
        · simp only [if_neg hclosed, if_neg hfull]
          exact hide_pumpOut done half decoder
            { s.setCall { k with outQueue := k.outQueue ++ [⟨encodeFrame msg, cb⟩] } with
              accepted := s.accepted ++ [msg] }

theorem hide_onCancel (cb : CbId) : onCancel (s.hide done half decoder) cb =
    (onCancel s cb).hide done half decoder := by
  obtain ⟨_ | k⟩ := s
  · rfl
  · simp only [onCancel, State.hide, Option.map_some, Call.hide]
    split_ifs <;> rfl

/-- `ReadMessage` finds the same `request_half_closed`. -/
theorem hide_readMessage (first : Option Bytes) (cb : CbId)
    (hhalf : ∀ k, s.call = some k → k.requestHalfClosed = half) :
    readMessage (s.hide done half decoder) first cb =
      (readMessage s first cb).hide done half decoder := by
  obtain ⟨_ | k⟩ := s
  · rfl
  · obtain rfl := hhalf k rfl
    cases hp : k.pendingMsgs with
    | cons msg msgs =>
        simp only [readMessage, State.hide, Option.map_some, Call.hide, hp]
        split_ifs
        · simp [State.note, Call.hide, hp]
        · cases first <;> simp [State.note, State.setCall, Call.hide, hp]
    | nil =>
        simp only [readMessage, State.hide, Option.map_some, Call.hide, hp]
        split_ifs <;> cases first <;> simp [State.note, State.setCall, Call.hide, hp]

end Functions

/-! ## Runs -/

/-- No header block and no DATA: the request is over. -/
def requestOver (_ : Conf) : Label → Prop
  | .event (.headers ..) | .event (.data ..) => False
  | _ => True

instance (c : Conf) : (l : Label) → Decidable (requestOver c l)
  | .event (.headers ..) | .event (.data ..) => .isFalse id
  | .event (.deadline _) | .event .pump | .event .connectionLost | .event .streamClose
  | .event (.credit _) | .event .consumed | .event (.op _) | .resume => .isTrue trivial

/-- What is left of `OnHeadersComplete` or `OnData`. -/
def Frame.receives : Frame → Bool
  | .onHeadersRest _ | .onDataRest _ => true
  | _ => false

section Runs

variable {done half : Bool} {decoder : FrameDecoder}

theorem hide_exec {f : Frame} (hf : f.receives = false) (s : State) :
    exec f (s.hide done half decoder) =
      ((exec f s).1.hide done half decoder, (exec f s).2) := by
  cases f with
  | onHeadersRest | onDataRest => cases hf
  | respondData | respondTrailers | pumpOutData => rfl
  | onDeadlineRest => exact Prod.ext (hide_onDeadlineRest done half decoder s) rfl
  | consumedRest =>
      exact Prod.ext (hide_maybeSendDeferredFinish done half decoder
        { s with posted := s.posted + 1 }) rfl
  | cancelOut => exact hide_cancelOut done half decoder s
  | fireCancel => exact Prod.ext (hide_fireCancel done half decoder s) rfl
  | closeErase => exact Prod.ext (hide_closeErase done half decoder s) rfl

theorem hide_applyOp (o : Op) (s : State)
    (hhalf : s.ctx ≠ none → ∀ k, s.call = some k → k.requestHalfClosed = half) :
    applyOp (s.hide done half decoder) o =
      (applyOp s o).map fun r => (r.1.hide done half decoder, r.2) := by
  have hctx : (s.hide done half decoder).ctx = s.ctx := rfl
  cases o with
  | respond st payload =>
      simp only [applyOp, hctx]
      cases hx : s.ctx with
      | none => rfl
      | some x =>
          cases x with
          | unary => exact congrArg some (hide_respond done half decoder s st payload)
          | stream first =>
              exact congrArg some (Prod.ext (hide_finishStream done half decoder
                { s with finishCalls := s.finishCalls ++ [st] } st) rfl)
  | readMessage cb =>
      simp only [applyOp, hctx]
      cases hx : s.ctx with
      | none => rfl
      | some x =>
          cases x with
          | unary => rfl
          | stream first =>
              exact congrArg some (Prod.ext (hide_readMessage done half decoder s first cb
                (hhalf (by simp [hx]))) rfl)
  | writeMessage msg cb =>
      simp only [applyOp, hctx]
      cases hx : s.ctx with
      | none => rfl
      | some x =>
          cases x with
          | unary => rfl
          | stream first => exact congrArg some (hide_writeMessage done half decoder s msg cb)
  | writeDone =>
      simp only [applyOp, hctx]
      cases hx : s.ctx with
      | none => rfl
      | some x =>
          cases x with
          | unary => rfl
          | stream first =>
              obtain ⟨_ | k⟩ := s <;> rfl
  | finish st =>
      simp only [applyOp, hctx]
      cases hx : s.ctx with
      | none => rfl
      | some x =>
          cases x with
          | unary => rfl
          | stream first =>
              exact congrArg some (Prod.ext (hide_finishStream done half decoder
                { s with finishCalls := s.finishCalls ++ [st] } st) rfl)
  | onCancel cb =>
      simp only [applyOp, hctx]
      split
      · exact congrArg some (Prod.ext (hide_onCancel done half decoder s cb) rfl)
      · rfl

theorem hide_fire {cfg : Config} {e : Event} {c : Conf} (he : requestOver c (.event e)) (s : State)
    (hhalf : s.ctx ≠ none → ∀ k, s.call = some k → k.requestHalfClosed = half) :
    fire cfg e (s.hide done half decoder) =
      (fire cfg e s).map fun r => (r.1.hide done half decoder, r.2) := by
  have hsome : (s.hide done half decoder).call.isSome = s.call.isSome := by simp [State.hide]
  cases e with
  | headers | data => exact he.elim
  | deadline t =>
      have hcancel := hide_fireCancel done half decoder { s with timers := s.timers.erase t }
      change (if s.timers.contains t then if (s.hide done half decoder).call.isSome then
        some (fireCancel (State.hide done half decoder { s with timers := s.timers.erase t }),
          [Frame.onDeadlineRest]) else _ else none) = _
      simp only [hsome, hcancel, fire]
      split_ifs <;> rfl
  | pump =>
      have hpump := hide_pumpOut done half decoder { s with posted := s.posted - 1 }
      change (if 0 < s.posted then
        some (pumpOut (State.hide done half decoder { s with posted := s.posted - 1 }))
        else none) = _
      simp only [hpump, fire]
      split_ifs <;> rfl
  | connectionLost =>
      have hcancel := hide_cancelStreamIo done half decoder { s with connClosed := true }
      change (if s.connClosed then none else
        some (cancelStreamIo (State.hide done half decoder { s with connClosed := true }),
          [Frame.cancelOut, Frame.fireCancel])) = _
      simp only [hcancel, fire]
      split_ifs <;> rfl
  | streamClose =>
      have hcancel := hide_cancelStreamIo done half decoder { s with h2 := s.h2.close }
      change (if s.opened && !s.h2.closed then if (s.hide done half decoder).call.isSome then
        some (cancelStreamIo (State.hide done half decoder { s with h2 := s.h2.close }),
          [Frame.cancelOut, Frame.fireCancel, Frame.closeErase]) else _ else none) = _
      simp only [hsome, hcancel, fire]
      split_ifs <;> rfl
  | credit n =>
      simp only [fire]
      change (if s.h2.closed then none else _) = _
      split_ifs <;> rfl
  | consumed =>
      simp only [fire]
      have hnotes : (s.hide done half decoder).h2.notes = s.h2.notes := rfl
      rw [hnotes]
      cases hn : s.h2.notes with
      | nil => rfl
      | cons cb notes =>
          exact congrArg some
            (hide_onConsumed done half decoder { s with h2 := { s.h2 with notes } } cb)
  | op o => exact hide_applyOp o s hhalf

/-! ## What such steps keep -/

/-- A function that does not look at the three fields does not change them. -/
theorem half_of_hide {s s' : State} (h : ∀ done half decoder,
      (∀ k, s.call = some k → k.requestHalfClosed = half) →
      s.hide done half decoder = s → s'.hide done half decoder = s') :
    ∀ k', s'.call = some k' → ∃ k, s.call = some k ∧
      k'.requestHalfClosed = k.requestHalfClosed := by
  intro k' hk'
  have hkeep : ∀ done half decoder, s'.hide done half decoder = s' →
      k'.requestHalfClosed = half := by
    intro done half decoder heq
    have hcall := congrArg State.call heq
    simp only [State.hide, hk', Option.map_some, Option.some.injEq] at hcall
    rw [← hcall]
    rfl
  cases hc : s.call with
  | some k =>
      refine ⟨k, rfl, hkeep _ _ _ (h _ _ _ ?_ (hide_self hc))⟩
      intro k₀ hk₀
      cases hc.symm.trans hk₀
      rfl
  | none =>
      -- two different values at once
      have hnone : ∀ half, ∀ k, s.call = some k → k.requestHalfClosed = half := by simp [hc]
      have htrue := hkeep _ _ _ (h false true k'.decoder (hnone _) (hide_none hc _ _ _))
      have hfalse := hkeep _ _ _ (h false false k'.decoder (hnone _) (hide_none hc _ _ _))
      cases htrue.symm.trans hfalse

theorem ctx_exec {f : Frame} (hf : f.receives = false) {s : State} (h : s.ctx = none) :
    (exec f s).1.ctx = none := by
  cases f with
  | onHeadersRest | onDataRest => cases hf
  | respondData | respondTrailers | pumpOutData => exact h
  | onDeadlineRest | consumedRest | cancelOut | fireCancel | closeErase =>
      simp only [exec, onDeadlineRest, maybeSendDeferredFinish, cancelOut, fireCancel, closeErase]
      repeat' split
      all_goals first | exact h | rfl

theorem ctx_fire {cfg : Config} {e : Event} {c : Conf} (he : requestOver c (.event e)) {s : State}
    {r : State × List Frame} (hr : fire cfg e s = some r) (h : s.ctx = none) : r.1.ctx = none := by
  cases e with
  | headers | data => exact he.elim
  | op o => cases o <;> simp [fire, applyOp, h] at hr
  | credit n =>
      simp only [fire] at hr
      split at hr <;> cases hr
      exact h
  | consumed =>
      simp only [fire] at hr
      split at hr <;> cases hr
      simp only [onConsumed]
      repeat' split
      all_goals exact h
  | pump =>
      simp only [fire] at hr
      split at hr <;> cases hr
      simp only [pumpOut]
      repeat' split
      all_goals exact h
  | deadline t =>
      simp only [fire] at hr
      split at hr
      · split at hr <;> cases hr
        · simp only [fireCancel]
          repeat' split
          all_goals exact h
        · exact h
      · cases hr
  | connectionLost =>
      simp only [fire] at hr
      split at hr <;> cases hr
      simp only [cancelStreamIo]
      repeat' split
      all_goals exact h
  | streamClose =>
      simp only [fire] at hr
      split at hr
      · split at hr <;> cases hr
        · simp only [cancelStreamIo]
          repeat' split
          all_goals exact h
        · exact h
      · cases hr

theorem receives_exec {f : Frame} (hf : f.receives = false) (s : State) :
    ∀ g ∈ (exec f s).2, g.receives = false := by
  cases f with
  | onHeadersRest | onDataRest => cases hf
  | respondData => simp [exec, Frame.receives]
  | cancelOut =>
      simp only [exec, cancelOut]
      repeat' split
      all_goals simp [Frame.receives]
  | _ => simp [exec]

theorem receives_fire {cfg : Config} {e : Event} {c : Conf} (he : requestOver c (.event e))
    {s : State} {r : State × List Frame} (hr : fire cfg e s = some r) :
    ∀ g ∈ r.2, g.receives = false := by
  have hpump : ∀ s : State, ∀ g ∈ (pumpOut s).2, g.receives = false := by
    intro s
    simp only [pumpOut]
    repeat' split
    all_goals simp [Frame.receives]
  cases e with
  | headers | data => exact he.elim
  | op o =>
      cases o with
      | respond st payload =>
          simp only [fire, applyOp, respond] at hr
          repeat' split at hr
          all_goals cases hr
          all_goals simp [Frame.receives]
      | writeMessage msg cb =>
          simp only [fire, applyOp, writeMessage] at hr
          repeat' split at hr
          all_goals cases hr
          all_goals first | exact hpump _ | simp
      | _ =>
          simp only [fire, applyOp] at hr
          repeat' split at hr
          all_goals cases hr
          all_goals simp
  | consumed =>
      simp only [fire, onConsumed] at hr
      repeat' split at hr
      all_goals cases hr
      all_goals simp [Frame.receives]
  | pump =>
      simp only [fire] at hr
      split at hr <;> cases hr
      exact hpump _
  | credit | deadline | connectionLost | streamClose =>
      simp only [fire] at hr
      repeat' split at hr
      all_goals cases hr
      all_goals simp [Frame.receives]

/-- In the middle of a run after the request: nothing of the request side is on the stack. -/
structure Over (half : Bool) (c : Conf) : Prop where
  frames : ∀ f ∈ c.frames, f.receives = false
  half : c.st.ctx ≠ none → ∀ k, c.st.call = some k → k.requestHalfClosed = half

def hideConf (done half : Bool) (decoder : FrameDecoder) (c : Conf) : Conf :=
  ⟨c.st.hide done half decoder, c.frames⟩

variable {cfg : Config} {c d : Conf} {l : Label}

theorem requestOver_step (h : Over half c) (hl : requestOver c l)
    (hstep : (machine cfg).step c l = some d) : Over half d := by
  cases l with
  | resume =>
      obtain ⟨f, fs, hf, rfl⟩ := Resume.System.step_resume hstep
      have hrec : f.receives = false := h.frames f (by rw [hf]; exact .head _)
      refine ⟨fun g hg => ?_, fun hctx k' hk' => ?_⟩
      · rcases List.mem_append.mp hg with hg | hg
        · exact receives_exec hrec c.st g hg
        · exact h.frames g (by rw [hf]; exact .tail _ hg)
      · obtain ⟨k, hk, heq⟩ := half_of_hide (s := c.st) (fun done half decoder _ hs => by
          have hexec : exec f (c.st.hide done half decoder) = _ := hide_exec hrec c.st
          rw [hs] at hexec
          exact (congrArg Prod.fst hexec).symm) k' hk'
        exact heq.trans (h.half (fun hn => hctx (ctx_exec hrec hn)) k hk)
  | event e =>
      obtain ⟨-, s, gs, hfire, rfl⟩ := Resume.System.step_event hstep
      refine ⟨fun g hg => ?_, fun hctx k' hk' => ?_⟩
      · rcases List.mem_append.mp hg with hg | hg
        · exact receives_fire hl hfire g hg
        · exact h.frames g hg
      · obtain ⟨k, hk, heq⟩ := half_of_hide (s := c.st) (fun done half decoder hh hs => by
          have hcomm : fire cfg e (c.st.hide done half decoder) = _ := hide_fire hl c.st fun _ => hh
          rw [hs, show fire cfg e c.st = some (s, gs) from hfire] at hcomm
          exact (congrArg Prod.fst (Option.some.inj hcomm)).symm) k' hk'
        exact heq.trans (h.half (fun hn => hctx (ctx_fire hl hfire hn)) k hk)

theorem step_hide (h : Over half c) (hl : requestOver c l) :
    (machine cfg).step (hideConf done half decoder c) l =
      ((machine cfg).step c l).map (hideConf done half decoder) := by
  cases l with
  | resume =>
      cases hf : c.frames with
      | nil => simp [Resume.System.step, hideConf, hf]
      | cons f fs =>
          have hrec : f.receives = false := h.frames f (by rw [hf]; exact .head _)
          have hexec : (machine cfg).exec f (c.st.hide done half decoder) =
            (((machine cfg).exec f c.st).1.hide done half decoder,
              ((machine cfg).exec f c.st).2) := hide_exec hrec c.st
          simp [Resume.System.step, hideConf, hf, hexec]
  | event e =>
      have hen : (machine cfg).enabled e (hideConf done half decoder c) =
        (machine cfg).enabled e c := rfl
      have hfire : (machine cfg).fire e (c.st.hide done half decoder) =
        ((machine cfg).fire e c.st).map fun r => (r.1.hide done half decoder, r.2) :=
        hide_fire hl c.st h.half
      simp only [Resume.System.step, hen]
      split
      · rw [show (hideConf done half decoder c).st = c.st.hide done half decoder from rfl, hfire,
          Option.map_map, Option.map_map]
        rfl
      · rfl

/-- **After the request the three fields are not read.** Whatever they hold, the rest of the run is
    the same. -/
theorem run_hide (h : Over half c) (ls : List Label) :
    (machine cfg).run requestOver (hideConf done half decoder c) ls =
      ((machine cfg).run requestOver c ls).map (hideConf done half decoder) := by
  refine Resume.System.run_map (I := Over half) ?_ ?_ ?_ ls c h
  · exact fun c l => Iff.rfl
  · exact fun c l => step_hide
  · exact fun c l d => requestOver_step

end Runs

end Urpc.Server
