/-
  The functions of the channel keep its tables in order.

  `Filed` is kept by every function: by those that have a call in hand, which is in no table; by
  the transport's events; by the ends of a call; by the tasks. `tidyEvent` is what its `tidy` half
  needs of an event.

  Proved: `filed_step`, for every step, and `reach_kept`, along every run.
-/
import Urpc.Channel.Filed

namespace Urpc.Channel

open Cxx

variable {tidy : Prop} {owner : Nat → Op} {hand : Option (Nat × Nat)} {s : State}
  {fs : List Frame}

/-! ## Calls in hand -/

/-- `SetTimer` for a call that a function holds. -/
theorem Filed.arm (h : Filed tidy owner none s fs) (id ms : Nat) :
    Filed tidy owner (some (id, s.nextTimer)) (s.setTimer (.call id ms)).1 fs := by
  have hmem : ∀ e ∈ s.timers ++ [(s.nextTimer, Alarm.call id ms)],
      e ∈ s.timers ∨ e = (s.nextTimer, .call id ms) := by
    intro e he
    exact (List.mem_append.mp he).imp_right List.mem_singleton.mp
  have hnew : ∀ e ∈ s.timers ++ [(s.nextTimer, Alarm.call id ms)],
      e ∈ s.timers ∨ s.nextTimer ≤ e.1 :=
    fun e he => (hmem e he).imp_right fun heq => by rw [heq]
  have howns : ∀ {op : Op} {sid t : Nat}, Owns owner s.nextSid s.nextTimer s.timers op sid t →
      Owns owner s.nextSid (s.nextTimer + 1) (s.timers ++ [(s.nextTimer, Alarm.call id ms)]) op
        sid t := fun ho => ho.mono (Nat.le_refl _) (Nat.le_succ _) hnew
  refine { h with
    timerPos := Nat.succ_pos _
    keys := ?_
    call := fun id' call hc => howns (h.call id' call hc)
    stream := fun id' st hst => howns (h.stream id' st hst)
    opening := fun f hf sid op t ho => howns (h.opening f hf sid op t ho)
    pending := fun pc hpc => (h.pending pc hpc).mono (Nat.le_succ _) hnew
    inHand := ?_
    callTimer := ?_
    streamTimer := ?_ }
  · intro e he
    rcases hmem e he with hold | rfl
    · exact ⟨(h.keys e hold).1, Nat.lt_succ_of_lt (h.keys e hold).2⟩
    · exact ⟨h.timerPos, Nat.lt_succ_self _⟩
  · intro id' t hh
    cases hh
    refine ⟨Nat.lt_succ_self _, fun a ha => ?_⟩
    rcases hmem _ ha with hold | heq
    · exact absurd (h.keys _ hold).2 (Nat.lt_irrefl _)
    · cases heq
      rfl
  · intro t id' ms' he
    rcases hmem _ he with hold | heq
    · exact (h.callTimer t id' ms' hold).rehand nofun
    · cases heq
      exact .hand rfl
  · intro ht t id' ms' he
    rcases hmem _ he with hold | heq
    · exact h.streamTimer ht t id' ms' hold
    · cases heq

/-- A function holds a call that has no timer. -/
theorem Filed.hold (h : Filed tidy owner none s fs) (id : Nat) :
    Filed tidy owner (some (id, 0)) s fs := by
  refine { h with inHand := fun id' t hh => ?_, callTimer := fun t id' ms he => ?_ }
  · cases hh
    exact .zero h
  · exact (h.callTimer t id' ms he).rehand nofun

theorem Filed.park {id : Nat} {call : NewCall}
    (h : Filed tidy owner (some (id, call.timeoutTimer)) s fs) (path framed : Bytes) :
    Filed tidy owner none { s with pending := s.pending ++ [⟨id, path, framed, call⟩] } fs := by
  refine { h with pending := fun pc hpc => ?_, inHand := nofun, callTimer := fun t id' ms he => ?_ }
  · rcases List.mem_append.mp hpc with hold | hnew
    · exact h.pending pc hold
    · rw [List.mem_singleton.mp hnew]
      exact h.inHand id call.timeoutTimer rfl
  · refine (h.callTimer t id' ms he).imp (fun hh => ?_) (fun _ => List.mem_append_left _)
      (fun _ hf _ => hf) .call
    cases hh
    exact .pending ⟨id, path, framed, call⟩ (List.mem_append_right _ List.mem_cons_self) rfl rfl

theorem Filed.unpark {pc : PendingCall} {rest : List PendingCall}
    (h : Filed tidy owner none s fs) (hp : s.pending = pc :: rest) :
    Filed tidy owner (some (pc.id, pc.call.timeoutTimer)) { s with pending := rest } fs := by
  refine { h with
    pending := fun pc' hpc => h.pending pc' (hp ▸ List.mem_cons_of_mem _ hpc)
    inHand := fun id t hh => ?_
    callTimer := fun t id ms he => ?_ }
  · cases hh
    exact h.pending pc (hp ▸ List.mem_cons_self)
  · cases h.callTimer t id ms he with
    | hand hh => cases hh
    | pending pc' hpc hid ht =>
        rw [hp] at hpc
        rcases List.mem_cons.mp hpc with rfl | hpc
        · exact .hand (by rw [hid, ht])
        · exact .pending pc' hpc hid ht
    | frame f sid hf ho => exact .frame f sid hf ho
    | call call hc ht hcomp => exact .call call hc ht hcomp

theorem completeNew_eq (s : State) (id : Nat) (call : NewCall) (st : Status) :
    completeNew s id call st = { s with
      timers := if call.timeoutTimer ≠ 0 then (s.cancelTimer call.timeoutTimer).timers else s.timers
      calls := Function.update s.calls id none
      log := s.log ++ [.done id st []] } := by
  unfold Channel.completeNew Channel.complete
  dsimp only
  rw [if_neg (by simp), if_neg (by simp)]
  split <;> rfl

theorem Filed.failPending (h : Filed tidy owner none s fs)
    (hfree : ∀ pc ∈ s.pending, s.calls pc.id = none) (st : Status) :
    Filed tidy owner none (failPending s st) fs := by
  -- the calls that are left, beside the state
  have hfold : ∀ (l : List PendingCall) (s : State),
      Filed tidy owner none { s with pending := l } fs → (∀ pc ∈ l, s.calls pc.id = none) →
      Filed tidy owner none
        (l.foldl (fun s pc => Channel.completeNew s pc.id pc.call st) { s with pending := [] })
        fs := by
    intro l
    induction l with
    | nil => exact fun s h _ => h
    | cons pc l ih =>
        intro s h hfree
        have hone := (h.unpark rfl).completeNew (hfree pc List.mem_cons_self) st
        rw [completeNew_eq] at hone
        rw [List.foldl_cons, completeNew_eq]
        refine ih { s with
          timers := if pc.call.timeoutTimer ≠ 0 then (s.cancelTimer pc.call.timeoutTimer).timers
            else s.timers
          calls := Function.update s.calls pc.id none
          log := s.log ++ [.done pc.id st []] } hone fun pc' hpc' => ?_
        · dsimp only
          rw [Function.update_apply]
          split
          · rfl
          · exact hfree pc' (List.mem_cons_of_mem _ hpc')
  exact hfold s.pending s h hfree

theorem Filed.startPending (h : Filed tidy owner none s fs)
    (hfree : ∀ pc ∈ s.pending, s.calls pc.id = none) :
    ∃ owner', Extends s.nextSid owner owner' ∧ Filed tidy owner' none
      (startPending s).1 ((startPending s).2 ++ fs) := by
  unfold Channel.startPending
  split
  · exact ⟨owner, fun _ _ => rfl, h⟩
  · next pc rest hp =>
      have hpush := (h.unpark hp).push (f := .startPending) rfl
      obtain ⟨owner', hext, hnow⟩ := hpush.callNow pc.path pc.framed
        (hfree pc (hp ▸ List.mem_cons_self))
      refine ⟨owner', hext, ?_⟩
      rw [List.append_assoc]
      exact hnow

theorem Filed.startPendingStreams (h : Filed tidy owner none s fs) :
    ∃ owner', Extends s.nextSid owner owner' ∧ Filed tidy owner' none
      (startPendingStreams s).1 ((startPendingStreams s).2 ++ fs) := by
  unfold Channel.startPendingStreams
  split
  · exact ⟨owner, fun _ _ => rfl, h⟩
  · next ps rest hp =>
      have hrest : Filed tidy owner none { s with pendingStreams := rest } fs := { h with }
      have hpush := hrest.push (f := .startPendingStreams) rfl
      obtain ⟨owner', hext, hnow⟩ := hpush.openStreamNow ps
      refine ⟨owner', hext, ?_⟩
      rw [List.append_assoc]
      exact hnow

/-! ## Transport events -/

theorem Filed.onHeadersComplete {sid : Nat} (h : Filed tidy owner hand s fs)
    (hopen : (s.senders sid).closed = false) (headers : HeaderMap) :
    Filed tidy owner hand (onHeadersComplete s sid headers) fs := by
  unfold Channel.onHeadersComplete
  split
  · next id hid =>
      split
      · exact h
      · next st hst =>
          have hover : ∀ status, Filed tidy owner hand (Channel.completeStream s id st status) fs := by
            refine fun status => h.completeStream hst (fun _ => ?_) st.decoder status
            obtain ⟨st', hst', hsid, -⟩ := h.route sid id hid
            rw [hst] at hst'
            cases hst'
            rw [hsid]
            exact hopen
          split
          · exact h
          · split
            · exact hover _
            · split
              · exact hover _
              · exact h
  · split
    · exact h
    · split
      · exact h
      · next id _ call hcall =>
          have hover := h.complete hcall call.decoder
          split
          · exact hover _ _
          · split
            · exact hover _ _
            · exact h

theorem Filed.onData {sid : Nat} (h : Filed tidy owner hand s fs)
    (hopen : (s.senders sid).closed = false) (chunk : Bytes) :
    Filed tidy owner hand (onData s sid chunk) fs := by
  unfold Channel.onData
  split
  · next id hid =>
      split
      · exact h
      · next st hst =>
          refine h.onStreamData hst ?_
          obtain ⟨st', hst', hsid, -⟩ := h.route sid id hid
          rw [hst] at hst'
          cases hst'
          rw [hsid]
          exact hopen
  · split
    · exact h
    · split
      · exact h
      · next id _ call hcall =>
          unfold Channel.onCallData
          split
          · exact h
          · dsimp only
            split
            · exact h.complete hcall _ _ _
            · refine h.setCall hcall rfl rfl fun hc hend => ?_
              exact absurd hend (by simp [hc])

theorem Filed.eraseStreamBySidAt {sid : Nat} (h : Filed tidy owner hand s fs)
    (hin : tidy → s.streamBySid sid ≠ none) :
    Filed tidy owner hand (s.eraseStreamBySidAt sid) fs := by
  unfold State.eraseStreamBySidAt
  split
  · exact h.eraseStreamBySid sid
  · next hnone => exact { h with stale := fun ht => absurd hnone (hin ht) }

theorem Filed.eraseByStreamAt {sid : Nat} (h : Filed tidy owner hand s fs)
    (hin : tidy → s.byStream sid ≠ none) :
    Filed tidy owner hand (s.eraseByStreamAt sid) fs := by
  unfold State.eraseByStreamAt
  split
  · exact h.eraseByStream sid
  · next hnone => exact { h with stale := fun ht => absurd hnone (hin ht) }

/-- What the close of `sid` finds needs no completion: the stream resets itself, the call is
    completed. -/
def overAt (s : State) (sid : Nat) : Bool :=
  (((s.streamBySid sid).bind s.streams).all fun st => st.completed || st.rstPending) &&
    ((s.byStream sid).bind s.calls).all Call.completed

theorem Filed.onStreamClose {sid : Nat} (h : Filed tidy owner hand s fs)
    (htidy : tidy → overAt s sid = true) : Filed tidy owner hand (onStreamClose s sid) fs := by
  obtain ⟨m, s', heq, hstream, hcall⟩ := onStreamClose_closed s sid
  have hover := fun ht => Bool.and_eq_true_iff.mp (htidy ht)
  rw [heq]
  obtain ⟨hm, hsame⟩ : Filed tidy owner hand m fs ∧
      (tidy → m.byStream = s.byStream ∧ m.calls = s.calls) := by
    cases hstream with
    | unknown => exact ⟨h, fun _ => ⟨rfl, rfl⟩⟩
    | left hid =>
        refine ⟨h.eraseStreamBySidAt (by simp [hid]), fun _ => ?_⟩
        obtain ⟨n, heq⟩ := eraseStreamBySidAt_eq s sid
        rw [heq]
        exact ⟨rfl, rfl⟩
    | @failed id st hid hst hc hr =>
        have hno : ¬ tidy := fun ht => by simpa [hid, hst, hc, hr] using (hover ht).1
        refine ⟨Filed.eraseStreamBySidAt ?_ fun ht => absurd ht hno, fun ht => absurd ht hno⟩
        exact h.completeStream hst (fun ht => absurd ht hno) st.decoder _
  cases hcall with
  | unknown => exact hm
  | left hby => exact hm.eraseByStreamAt (by simp [hby])
  | @failed id call hby hcall hc =>
      refine (hm.complete hcall _ _ _).eraseByStreamAt fun ht => ?_
      obtain ⟨hbys, hcalls⟩ := hsame ht
      rw [hbys] at hby
      rw [hcalls] at hcall
      simpa [hby, hcall, hc] using (hover ht).2

theorem Filed.callLinked {id : Nat} {call : Call} (h : Filed tidy owner hand s fs)
    (hcall : s.calls id = some call) (hready : s.phase = .ready) :
    (decide (call.sid ≠ 0) && s.session) = true := by
  have hsid : call.sid ≠ 0 := Nat.pos_iff_ne_zero.mp (h.call id call hcall).pos
  simp [hsid, h.linked hready]

theorem Filed.callTimeoutRest (h : Filed tidy owner hand s fs) (hready : s.phase = .ready)
    {id : Nat} (hmark : ∀ call, s.calls id = some call → call.completed = true) :
    Filed tidy owner hand (callTimeoutRest s id) fs := by
  unfold Channel.callTimeoutRest
  split
  · exact h
  · next call hcall =>
      rw [if_pos (h.callLinked hcall hready)]
      have hend := h.endCall hcall fun hc => absurd (hmark call hcall) (by simp [hc])
      exact { hend with }

theorem Filed.cancelRest (h : Filed tidy owner hand s fs) (hready : s.phase = .ready)
    {id : Nat} (hmark : ∀ call, s.calls id = some call → call.completed = true) :
    Filed tidy owner hand (cancelRest s id) fs := by
  unfold Channel.cancelRest
  cases hcall : s.calls id with
  | none =>
      have hsame : s.eraseCall id = s := by
        rw [State.eraseCall, ← hcall, Function.update_eq_self]
      dsimp only
      rw [hsame]
      exact { h with }
  | some call =>
      dsimp only
      rw [if_pos (h.callLinked hcall hready)]
      have hend := h.endCall hcall fun hc => absurd (hmark call hcall) (by simp [hc])
      exact { hend with }

/-- The timer of `Call`. -/
theorem Filed.callTimeout {t id ms : Nat} (h : Filed tidy owner none s [])
    (harmed : (t, .call id ms) ∈ s.timers)
    (hfree : ∀ pc ∈ s.pending, s.calls pc.id = none)
    (hready : ∀ call, s.calls id = some call → s.phase = .ready) :
    Filed tidy owner none (callTimeout (s.cancelTimer t) id).1
      (callTimeout (s.cancelTimer t) id).2 := by
  have hoff : Filed tidy owner none (s.cancelTimer t) [] :=
    h.cancelTimer t (fun _ _ hh => hh) fun _ _ _ hh => hh
  unfold Channel.callTimeout
  split
  · exact hoff
  · next call hcall =>
      have hentry : s.calls id = some call := hcall
      have hlinked := h.callLinked hentry (hready call hentry)
      split
      · exact hoff
      · have htimer : call.timeoutTimer = t := by
          cases h.callTimer t id ms harmed with
          | hand hh => cases hh
          | pending pc hpc hid ht =>
              have hnone := hfree pc hpc
              rw [hid, hentry] at hnone
              cases hnone
          | frame f sid hf => cases hf
          | call call' hcall' ht hcomp =>
              rw [hentry] at hcall'
              cases hcall'
              exact ht
        have hmark : Filed tidy owner none ((s.cancelTimer t).setCall id
            { call with completed := true, whole := by simp }) [] := by
          refine hoff.setCall hcall rfl rfl fun _ _ ms' hmem => ?_
          rw [htimer] at hmem
          simp [State.cancelTimer] at hmem
        dsimp only
        split
        · exact (hmark.resetStream call.sid).push rfl
        · next hno => exact absurd hlinked hno

/-- The task of `Cancel`. -/
theorem Filed.cancelTask (h : Filed tidy owner none s [])
    {id : Nat} (hready : ∀ call, s.calls id = some call → s.phase = .ready) :
    Filed tidy owner none (cancelTask s id).1 (cancelTask s id).2 := by
  unfold Channel.cancelTask
  split
  · exact h
  · next call hcall =>
      have hlinked := h.callLinked hcall (hready call hcall)
      split
      · exact h
      · have hcancel := h.cancelSet call.timeoutTimer
        have hoff := fun ms => h.not_armed call.timeoutTimer (.call id ms)
        dsimp only
        generalize hs₁ : (if call.timeoutTimer ≠ 0 then s.cancelTimer call.timeoutTimer else s) = s₁
        rw [hs₁] at hcancel hoff
        obtain ⟨hcalls, hsession⟩ : s₁.calls id = some call ∧ s₁.session = s.session := by
          rw [← hs₁]
          split <;> exact ⟨hcall, rfl⟩
        have hmark : Filed tidy owner none (s₁.setCall id
            { call with completed := true, done := false, whole := by simp }) [] :=
          hcancel.setCall hcalls rfl rfl fun _ _ => hoff
        rw [← hsession] at hlinked
        split
        · exact (hmark.resetStream call.sid).push rfl
        · next hno => exact absurd hlinked hno

/-! ## Connecting -/

theorem Filed.connectFailed (h : Filed tidy owner none s fs)
    (hfree : ∀ pc ∈ s.pending, s.calls pc.id = none) (st : Status) :
    Filed tidy owner none (connectFailed s st) fs := by
  have hbroken : Filed tidy owner none { s with phase := .broken } fs := { h with linked := nofun }
  exact hbroken.failPending hfree st

theorem Filed.connectNow (h : Filed tidy owner none s fs)
    (hfree : ∀ pc ∈ s.pending, s.calls pc.id = none) (tcp : Option Status) :
    Filed tidy owner none (connectNow s tcp) fs := by
  have hgo : Filed tidy owner none { s with phase := .connecting } fs := { h with linked := nofun }
  unfold Channel.connectNow
  dsimp only
  split
  · exact hgo.connectFailed hfree _
  · exact hgo

theorem Filed.onConnectionLost (h : Filed tidy owner none s [])
    (hpending : s.phase ≠ .broken → s.pending = [])
    (hcalls : ∀ id call, s.calls id = some call → id < s.nextCallId)
    (htidy : tidy → ∀ t id ms, (t, .stream id ms) ∈ s.timers → live s id = none) :
    Filed tidy owner none (onConnectionLost s) [] := by
  unfold Channel.onConnectionLost
  split
  · exact h
  · next hphase =>
      have hnil : s.pending = [] := hpending hphase
      refine Filed.failPending ?_ (fun pc hpc => rfl) _
      refine { h with
        linked := (by simp)
        keys := fun e he => h.keys e (List.mem_filter.mp he).1
        call := (by simp)
        stream := (by simp)
        opening := (by simp)
        byStream := (by simp)
        route := (by simp)
        pending := fun pc hpc => absurd (hnil ▸ hpc : pc ∈ []) List.not_mem_nil
        inHand := (by simp)
        callTimer := ?_
        streamTimer := ?_
        leftOpen := fun _ => (by simp) }
      · intro t id ms he
        obtain ⟨hmem, hout⟩ := List.mem_filter.mp he
        cases h.callTimer t id ms hmem with
        | hand hh => cases hh
        | pending pc hpc => exact absurd (hnil ▸ hpc : pc ∈ []) List.not_mem_nil
        | frame f sid hf => cases hf
        | call call hcall ht hcomp =>
            have hne : t ≠ 0 := Nat.pos_iff_ne_zero.mp (h.keys _ hmem).1
            rw [Bool.not_eq_true', Bool.eq_false_iff, ne_eq, List.contains_iff_mem] at hout
            refine absurd (List.mem_filterMap.mpr ⟨(id, call), ?_, ?_⟩) hout
            · exact mem_entries.mpr ⟨hcalls id call hcall, hcall⟩
            · simp [hcomp, ht, hne]
      · intro ht t id ms he
        obtain ⟨hmem, -⟩ := List.mem_filter.mp he
        obtain ⟨st, hst, -, hc⟩ := h.streamTimer ht t id ms hmem
        have hnone := htidy ht t id ms hmem
        rw [live_eq hst hc] at hnone
        cases hnone

/-! ## Tasks -/

/-- The call of a task gets its timer. -/
theorem Filed.callTask {id ms : Nat} {call : NewCall} (h : Filed tidy owner none s [])
    (hfree : s.calls id = none) (hparked : ∀ pc ∈ s.pending, s.calls pc.id = none)
    (hzero : call.timeoutTimer = 0) (tcp : Option Status) (path framed : Bytes) :
    ∃ owner', Extends s.nextSid owner owner' ∧ Filed tidy owner' none
      (callTask s tcp id path framed ms call).1 (callTask s tcp id path framed ms call).2 := by
  -- the rest of the task, with the call in hand
  have hrest : ∀ {s' : State} {call : NewCall},
      Filed tidy owner (some (id, call.timeoutTimer)) s' [] →
      s'.calls = s.calls → s'.pending = s.pending → s'.nextSid = s.nextSid →
      ∃ owner', Extends s.nextSid owner owner' ∧ Filed tidy owner' none
        (Channel.callTask s' tcp id path framed 0 call).1
        (Channel.callTask s' tcp id path framed 0 call).2 := by
    intro s' call h hcalls hpending hsid
    rw [← hcalls] at hfree hparked
    rw [← hpending] at hparked
    simp only [Channel.callTask, Nat.lt_irrefl, gt_iff_lt, if_false]
    split
    · obtain ⟨owner', hext, hnow⟩ := h.callNow path framed hfree
      rw [List.append_nil] at hnow
      exact ⟨owner', hsid ▸ hext, hnow⟩
    · exact ⟨owner, fun _ _ => rfl, h.completeNew hfree _⟩
    · exact ⟨owner, fun _ _ => rfl, h.park path framed⟩
    · refine ⟨owner, fun _ _ => rfl, (h.park path framed).connectNow (fun pc hpc => ?_) tcp⟩
      rcases List.mem_append.mp hpc with hold | hnew
      · exact hparked pc hold
      · rw [List.mem_singleton.mp hnew]
        exact hfree
  by_cases hms : ms > 0
  · have harm : Filed tidy owner
        (some (id, ({ call with timeoutTimer := s.nextTimer } : NewCall).timeoutTimer)) _ [] :=
      h.arm id ms
    simpa [Channel.callTask, State.setTimer, hms] using hrest harm rfl rfl rfl
  · simpa [Channel.callTask, hms] using hrest (hzero ▸ h.hold id) rfl rfl rfl

theorem Filed.openStreamTask (h : Filed tidy owner none s [])
    (hparked : ∀ pc ∈ s.pending, s.calls pc.id = none) (tcp : Option Status) (id : Nat)
    (path : Bytes) (events : StreamEvents) (ms : Nat) :
    ∃ owner', Extends s.nextSid owner owner' ∧ Filed tidy owner' none
      (openStreamTask s tcp id path events ms).1 (openStreamTask s tcp id path events ms).2 := by
  unfold Channel.openStreamTask
  split
  · next hon =>
      dsimp only
      split
      · obtain ⟨owner', hext, hnow⟩ := h.openStreamNow ⟨id, path, events, ms, [], hon⟩
        rw [List.append_nil] at hnow
        exact ⟨owner', hext, hnow⟩
      · exact ⟨owner, fun _ _ => rfl, { h with }⟩
      · exact ⟨owner, fun _ _ => rfl, { h with }⟩
      · refine ⟨owner, fun _ _ => rfl, Filed.connectNow ?_ ?_ tcp⟩
        · exact { h with }
        · exact hparked
  · exact ⟨owner, fun _ _ => rfl, h⟩

theorem Filed.streamSendTask (h : Filed tidy owner hand s fs) (id : Nat) (framed : Bytes)
    (cb : Option CbId) (close : Bool) :
    Filed tidy owner hand (streamSendTask s id framed cb close) fs := by
  unfold Channel.streamSendTask
  split
  · split
    · split
      · exact { h with }
      · exact { h with }
    · exact { h with }
  · next st hlive =>
      obtain ⟨hst, -⟩ := of_live hlive
      split
      · exact { h with }
      · split
        · exact { h with }
        · have hmore : Filed tidy owner hand
              { s with accepted := s.accepted ++ [(id, framed)] } fs := { h with }
          refine Filed.pumpStream ?_ id
          exact hmore.touchStream hst rfl rfl rfl

theorem Filed.streamCloseSendTask (h : Filed tidy owner hand s fs) (id : Nat) :
    Filed tidy owner hand (streamCloseSendTask s id) fs := by
  unfold Channel.streamCloseSendTask
  split
  · exact { h with }
  · next st hlive =>
      obtain ⟨hst, -⟩ := of_live hlive
      split
      · exact h
      · split
        · have hmark : Filed tidy owner hand (s.setStream id { st with sendClosed := true }) fs :=
            h.touchStream hst rfl rfl rfl
          dsimp only
          split
          · exact hmark.setSender (Sender.sendData_closed ..)
          · exact hmark
        · exact h.touchStream hst rfl rfl rfl

/-! ## Steps -/

/-- What the desk says about a channel in the middle of a run. -/
structure Sound (v : Desk) : Prop where
  numbered : v.Numbered
  books : v.Books
  landed : v.Landed
  kinds : v.Kinds

theorem sound_fresh (o : Options) : Sound (desk (fresh o).st (fresh o).frames) :=
  ⟨Desk.numbered_fresh o, Desk.books_fresh o, Desk.landed_fresh o, Desk.kinds_fresh o⟩

theorem sound_move {E : Env} {v w : Desk} (hr : Desk.Rest E v) (h : Sound v)
    (hm : Desk.Move E v w) : Sound w :=
  ⟨Desk.numbered_move h.numbered hm, Desk.books_move hr h.books hm,
    Desk.landed_move h.numbered h.books h.landed hm, Desk.kinds_move h.books.issued h.kinds hm⟩

theorem Sound.parked {s : State} {fs : List Frame} (h : Sound (desk s fs)) :
    ∀ pc ∈ s.pending, s.calls pc.id = none := fun _ hpc =>
  h.landed.call_free (Desk.coming_of_pending (v := desk s fs) hpc)

theorem Filed.exec {f : Frame} (h : Filed tidy owner none s (f :: fs))
    (hs : Sound (desk s (f :: fs))) (hready : s.phase = .ready) :
    ∃ owner', Extends s.nextSid owner owner' ∧ Filed tidy owner' none
      (exec f s).1 ((exec f s).2 ++ fs) := by
  have hmark : ∀ id, f.ends id = true → ∀ call, s.calls id = some call → call.completed = true :=
    fun id he => (hs.landed.ending id f List.mem_cons_self he).2
  have htop : ∀ id, f.brings id = true → 0 < (desk s (f :: fs)).coming id :=
    fun id hb => Desk.coming_of_frame List.mem_cons_self hb
  have hsame : ∀ {s' : State}, Filed tidy owner none s' fs →
      ∃ owner', Extends s.nextSid owner owner' ∧ Filed tidy owner' none s' fs :=
    fun h => ⟨owner, fun _ _ => rfl, h⟩
  cases f with
  | callNowRest sid id call =>
      exact hsame (h.callNowRest (hs.landed.call_free (htop id (by simp [Frame.brings]))))
  | openStreamRest sid ps decoder =>
      exact hsame (h.openStreamRest (hs.landed.stream_free (htop ps.id (by simp [Frame.brings]))))
  | startPending => exact (h.pop rfl).startPending hs.parked
  | startPendingStreams => exact (h.pop rfl).startPendingStreams
  | callTimeoutRest id =>
      exact hsame ((h.pop rfl).callTimeoutRest hready (hmark id (by simp [Frame.ends])))
  | streamTimeoutRest id => exact hsame ((h.pop rfl).streamTimeoutRest hready id)
  | cancelRest id =>
      exact hsame ((h.pop rfl).cancelRest hready (hmark id (by simp [Frame.ends])))

/-- The event leaves nothing of a stream behind and uses no dangling iterator: no HTTP/2 stream
    closes whose stream is over, or whose stream or call ends with it, and no connection is lost
    while a live stream has a timer. -/
def tidyEvent (s : State) : Event → Bool
  | .streamClose sid =>
      ((entries s.nextCallId s.streams).all fun (_, st) => !(st.completed && st.sid == sid)) &&
        overAt s sid
  | .lost => s.timers.all fun
      | (_, .stream id _) => (live s id).isNone
      | (_, .call ..) => true
  | _ => true

def tidyStep (c : Conf) : Label → Bool
  | .event e => tidyEvent c.st e
  | .resume => true

theorem Filed.runTask {t : Task} {ts : List Task} (h : Filed tidy owner none s [])
    (hs : Sound (desk s [])) (hready : ∀ id call, s.calls id = some call → s.phase = .ready)
    (hp : s.posted = t :: ts) (tcp : Option Status) :
    ∃ owner', Extends s.nextSid owner owner' ∧ Filed tidy owner' none
      (runTask { s with posted := ts } tcp t).1 (runTask { s with posted := ts } tcp t).2 := by
  have htail : Filed tidy owner none { s with posted := ts } [] :=
    { h with task := fun id path framed ms call hmem =>
        h.task id path framed ms call (hp ▸ List.mem_cons_of_mem _ hmem) }
  have hsame : ∀ {s' : State} {fs : List Frame}, Filed tidy owner none s' fs →
      ∃ owner', Extends s.nextSid owner owner' ∧ Filed tidy owner' none s' fs :=
    fun h => ⟨owner, fun _ _ => rfl, h⟩
  cases t with
  | call id path framed ms call =>
      have hfree : s.calls id = none := hs.landed.call_free
        (Desk.coming_of_task (v := desk s []) (hp ▸ List.mem_cons_self) (by simp [Task.brings]))
      have hzero := h.task id path framed ms call (hp ▸ List.mem_cons_self)
      exact htail.callTask hfree hs.parked hzero tcp path framed
  | cancel id => exact hsame (htail.cancelTask (hready id))
  | openStream id path events ms => exact htail.openStreamTask hs.parked tcp id path events ms
  | streamSend id framed cb close => exact hsame (htail.streamSendTask id framed cb close)
  | streamCloseSend id => exact hsame (htail.streamCloseSendTask id)
  | pumpStream id => exact hsame (htail.pumpStream id)

/-- The HTTP/2 stream `sid` closes. -/
theorem Filed.close {sid : Nat} (h : Filed tidy owner hand s fs)
    (htidy : tidy → ∀ id st, s.streams id = some st → st.completed = true → st.sid ≠ sid) :
    Filed tidy owner hand (s.setSender sid (s.senders sid).close) fs := by
  refine { h with leftOpen := fun ht id st hst hc => ?_ }
  have hne := htidy ht id st hst hc
  exact (congrArg Sender.closed (Function.update_of_ne hne ..)).trans (h.leftOpen ht id st hst hc)

theorem Filed.fire {E : Env} {e : Event} {s' : State} {gs : List Frame}
    (h : Filed tidy owner none s fs) (hs : Sound (desk s fs)) (hr : Desk.Rest E (desk s fs))
    (hbase : anytime e = false → fs = []) (htidy : tidy → tidyEvent s e = true)
    (hfire : fire e s = some (s', gs)) :
    ∃ owner', Extends s.nextSid owner owner' ∧ Filed tidy owner' none s' (gs ++ fs) := by
  have hsame : ∀ {s' : State} {gs : List Frame}, Filed tidy owner none s' gs →
      ∃ owner', Extends s.nextSid owner owner' ∧ Filed tidy owner' none s' gs :=
    fun h => ⟨owner, fun _ _ => rfl, h⟩
  have hcalls : ∀ id call, s.calls id = some call → s.phase = .ready :=
    fun id call hcall => hr.ready_of_call (v := desk s fs) hcall
  cases e with
  | call path framed ms =>
      cases hfire
      have hmore : Filed tidy owner none { s with
          nextCallId := s.nextCallId + 1, issued := s.issued ++ [.done s.nextCallId] } fs :=
        { h with }
      refine hsame (hmore.post fun id path' framed' ms' call heq => ?_)
      cases heq
      rfl
  | openStream path events ms =>
      cases hfire
      have hmore : Filed tidy owner none { s with
          nextCallId := s.nextCallId + 1
          issued := s.issued ++ if events.onComplete then [.complete s.nextCallId] else [] } fs :=
        { h with }
      exact hsame (hmore.post nofun)
  | streamSend id framed cb close =>
      cases hfire
      have hmore : Filed tidy owner none { s with
          issued := s.issued ++ cb.toList.map (.flushed id) } fs := { h with }
      exact hsame (hmore.post nofun)
  | cancel id | streamCloseSend id =>
      cases hfire
      exact hsame (h.post nofun)
  | setMaxReceiveSize n | refuse b =>
      cases hfire
      exact hsame { h with }
  | streamClose sid =>
      simp only [Channel.fire] at hfire
      split at hfire
      · cases hfire
        have hcond := fun ht => Bool.and_eq_true_iff.mp (htidy ht)
        refine hsame (Filed.onStreamClose (h.close fun ht id st hst hc heq => ?_)
          fun ht => (hcond ht).2)
        have hno := List.all_eq_true.mp (hcond ht).1 (id, st)
          (mem_entries.mpr ⟨hs.books.bounds.stream_lt hst, hst⟩)
        simp [hc, heq] at hno
      · cases hfire
  | credit sid n =>
      simp only [Channel.fire] at hfire
      split at hfire
      · cases hfire
        exact hsame (h.setSender (Sender.credit_closed ..))
      · cases hfire
  | consumed sid =>
      simp only [Channel.fire] at hfire
      split at hfire
      · cases hfire
      · next n notes hn =>
          cases hfire
          refine hsame (Filed.onConsumed ?_ n)
          exact h.setSender rfl
  | task tcp =>
      obtain rfl := hbase rfl
      simp only [Channel.fire] at hfire
      split at hfire
      · cases hfire
      · next t ts hp =>
          split at hfire
          · obtain ⟨rfl, rfl⟩ := Prod.mk.inj (Option.some.inj hfire)
            rw [List.append_nil]
            exact h.runTask hs hcalls hp tcp
          · cases hfire
  | timer t =>
      obtain rfl := hbase rfl
      simp only [Channel.fire] at hfire
      split at hfire
      · cases hfire
      · next id ms hl =>
          obtain ⟨rfl, rfl⟩ := Prod.mk.inj (Option.some.inj hfire)
          obtain ⟨l₁, l₂, heq, -⟩ := List.lookup_eq_some_iff.mp hl
          have harmed : (t, .call id ms) ∈ s.timers := by simp [heq]
          rw [List.append_nil]
          exact hsame (h.callTimeout harmed hs.parked (hcalls id))
      · next id ms hl =>
          obtain ⟨rfl, rfl⟩ := Prod.mk.inj (Option.some.inj hfire)
          rw [List.append_nil]
          refine hsame (h.streamTimeout t id fun hsome => ?_)
          obtain ⟨st, hst⟩ := Option.isSome_iff_exists.mp hsome
          exact hr.ready_of_stream (v := desk s []) hst
  | connected =>
      obtain rfl := hbase rfl
      simp only [Channel.fire] at hfire
      split at hfire
      · cases hfire
        have hready : Filed tidy owner none { s with session := true, phase := .ready } [] :=
          { h with linked := fun _ => rfl }
        have hframe := hready.push (f := .startPendingStreams) rfl
        exact hsame (hframe.push rfl)
      · cases hfire
  | connectFailed st =>
      simp only [Channel.fire] at hfire
      split at hfire
      · cases hfire
        exact hsame (h.connectFailed hs.parked st)
      · cases hfire
  | headers sid fields =>
      simp only [Channel.fire] at hfire
      split at hfire
      · next hopen =>
          cases hfire
          simp only [State.open, Bool.and_eq_true, Bool.not_eq_true'] at hopen
          exact hsame (h.onHeadersComplete hopen.2 fields)
      · cases hfire
  | data sid chunk =>
      simp only [Channel.fire] at hfire
      split at hfire
      · next hopen =>
          cases hfire
          simp only [State.open, Bool.and_eq_true, Bool.not_eq_true'] at hopen
          exact hsame (h.onData hopen.2 chunk)
      · cases hfire
  | lost =>
      obtain rfl := hbase rfl
      simp only [Channel.fire] at hfire
      split at hfire
      · next hses =>
          cases hfire
          have hready : s.phase = .ready := hr.session hses
          refine hsame (h.onConnectionLost (fun _ => ?_) (fun id call => hs.books.bounds.call_lt)
            fun ht t id ms hmem => ?_)
          · exact (hr.pending hready).resolve_left List.not_mem_nil
          · have hnone := List.all_eq_true.mp (htidy ht) _ hmem
            simpa using hnone
      · cases hfire

/-- **Each step keeps the files in order.** -/
theorem filed_step {E : Env} {c d : Conf} {l : Label} (h : Filed tidy owner none c.st c.frames)
    (hs : Sound (desk c.st c.frames)) (hr : Desk.Rest E (desk c.st c.frames))
    (htidy : tidy → tidyStep c l = true) (hstep : machine.step c l = some d) :
    ∃ owner', Extends c.st.nextSid owner owner' ∧ Filed tidy owner' none d.st d.frames := by
  cases l with
  | resume =>
      obtain ⟨f, fs, hf, rfl⟩ := machine.step_resume hstep
      have hready : c.st.phase = .ready := hr.ready_of_frame hf
      rw [hf] at h hs
      exact h.exec hs hready
  | event e =>
      obtain ⟨hen, s', gs, hfire, rfl⟩ := machine.step_event hstep
      exact h.fire hs hr (fun hb => (machine.enabled_base hb hen).1) htidy hfire

/-! ## Runs -/

theorem Desk.nextSid_move {E : Env} {v v' : Desk} (hm : Move E v v') : v.nextSid ≤ v'.nextSid := by
  cases hm with
  | callSubmitted _ _ hn | streamOpened hn =>
      rw [← hn.same.2.2.1]
      exact Nat.le_add_right _ 2
  | callFailed _ hn | streamFailed _ hn => exact Nat.le_of_eq hn.same.2.2.1.symm
  | _ => exact Nat.le_refl _

theorem Extends.trans {n m : Nat} {a b c : Nat → Op} (h : Extends n a b) (h' : Extends m b c)
    (hle : n ≤ m) : Extends n a c :=
  fun sid hlt => (h' sid (Nat.lt_of_lt_of_le hlt hle)).trans (h sid hlt)

/-- All that is known of a channel in the middle of a run. -/
structure Kept (tidy : Prop) (owner : Nat → Op) (c : Conf) : Prop where
  filed : Filed tidy owner none c.st c.frames
  sound : Sound (desk c.st c.frames)
  rest : Desk.Rest .any (desk c.st c.frames)

theorem kept_fresh (tidy : Prop) (owner : Nat → Op) (o : Options) : Kept tidy owner (fresh o) :=
  ⟨filed_fresh tidy owner o, sound_fresh o, Desk.rest_fresh .any o⟩

theorem kept_step {c d : Conf} {l : Label} (h : Kept tidy owner c)
    (htidy : tidy → tidyStep c l = true) (hstep : machine.step c l = some d) :
    c.st.nextSid ≤ d.st.nextSid ∧
      ∃ owner', Extends c.st.nextSid owner owner' ∧ Kept tidy owner' d := by
  obtain ⟨owner', hext, hfiled⟩ := filed_step h.filed h.sound h.rest htidy hstep
  obtain ⟨hrest, hsound, hsid⟩ := step_desk (I := fun v => Sound v ∧ c.st.nextSid ≤ v.nextSid)
    (fun _ _ hr hi hm =>
      ⟨sound_move hr hi.1 hm, Nat.le_trans hi.2 (Desk.nextSid_move hm)⟩)
    h.rest ⟨h.sound, Nat.le_refl _⟩ (Env.any_allows c l) hstep
  exact ⟨hsid, owner', hext, hfiled, hsound, hrest⟩

/-- **Along every run the tables stay in order**, and a stream keeps its owner. -/
theorem reach_kept {ok : Conf → Label → Prop} {c d : Conf}
    (hok : tidy → ∀ c l, ok c l → tidyStep c l = true) (h : Kept tidy owner c)
    (hreach : machine.Reach ok c d) :
    ∃ owner', Extends c.st.nextSid owner owner' ∧ Kept tidy owner' d := by
  refine (hreach.inv (I := fun d => c.st.nextSid ≤ d.st.nextSid ∧
    ∃ owner', Extends c.st.nextSid owner owner' ∧ Kept tidy owner' d)
    ⟨Nat.le_refl _, owner, fun _ _ => rfl, h⟩ ?_).2
  rintro d l e ⟨hle, owner', hext, hd⟩ hl hstep
  obtain ⟨hle', owner'', hext', he⟩ := kept_step hd (fun ht => hok ht d l hl) hstep
  exact ⟨Nat.le_trans hle hle', owner'', hext.trans hext' hle, he⟩

end Urpc.Channel
