/-
  What the steps of the loop do to the queue of tasks.

  `State.ledger` lists every task that is still accounted for: those executed, then those swapped out
  and not begun, then `pending_`. Every step but the `clear` of `Stop` only appends to it, and appends
  what it adds to `pending_`. So the order of execution is the order of the appends, whatever the
  interleaving.

  Proved:
  * `step_queue`: a step appends the same tasks to the ledger and to the record of appends.
  * `dated_step`: a task is never run in a drain that had begun when it was appended.
-/
import Urpc.Loop.Runner

namespace Urpc.Loop

namespace State

/-- The tasks executed, swapped out and waiting, in this order. -/
def ledger (s : State) : List Posted :=
  s.executed.map Done.toPosted ++ (s.thread.ready ++ s.pending)

end State

/-! ## The steps, one by one -/

variable {s t u : State} {l : Label}

/-- What each label does, under what it needs. -/
inductive Step (s : State) : Label → State → Prop where
  | start (hr : s.running = false) (ht : s.thread = .none) (hs : s.stopper = .none) :
      Step s .start { s with
        running := true
        loopExited := false
        thread := .check
        loop := s.loop + 1
        wakeOpen := true
        signal := false }
  | append (name : Nat) :
      Step s (.append name) { s.push (.user name) with loading := s.loading + 1 }
  | load (h : s.loading ≠ 0) :
      Step s .load { s with
        loading := s.loading - 1
        sending := if s.running then s.sending + 1 else s.sending }
  | send (h : s.sending ≠ 0) : Step s .send { s.asyncSend with sending := s.sending - 1 }
  | enter (ht : s.thread = .check) (hr : s.running = true) :
      Step s .check { s with thread := .poll }
  | leave (ht : s.thread = .check) (hr : s.running = false) :
      Step s .check { s with thread := .none, loopExited := true }
  | wakeup (ht : s.thread = .poll) (hs : s.signal = true) :
      Step s .wakeup { s with thread := .woken, signal := false }
  | uvReturn (ht : s.thread = .poll) : Step s .uvReturn { s with thread := .check }
  | swap (ht : s.thread = .woken) :
      Step s .swap { s with thread := .drain s.pending, pending := [], drains := s.drains + 1 }
  | runUser {name during : Nat} {ready : List Posted}
      (ht : s.thread = .drain (⟨.user name, during⟩ :: ready)) (hh : s.held = false) :
      Step s .runTask { s with
        thread := .drain ready
        executed := s.executed ++ [⟨⟨.user name, during⟩, s.loop, s.drains⟩] }
  | runCloseAll {g during : Nat} {ready : List Posted}
      (ht : s.thread = .drain (⟨.closeAll g, during⟩ :: ready)) (hh : s.held = false) :
      Step s .runTask { s with
        thread := .drain ready
        executed := s.executed ++ [⟨⟨.closeAll g, during⟩, s.loop, s.drains⟩]
        wakeOpen := false
        signal := false }
  | drained (ht : s.thread = .drain []) (hh : s.held = false) :
      Step s .drained { s with thread := .check }
  | stop {onLoop : Bool} (hr : s.running = true) (hs : s.stopper = .none)
      (ho : onLoop = true → s.thread.draining = true) :
      Step s (.stop onLoop) { s with running := false, stopper := .exchanged, onLoop }
  | stopClear (hs : s.stopper = .exchanged) :
      Step s .stopClear
        { { s with pending := [] }.push (.closeAll s.loop) with stopper := .queued }
  | stopSend (hs : s.stopper = .queued) : Step s .stopSend { s.asyncSend with stopper := .waiting }
  | stopJoin (hs : s.stopper = .waiting) (he : s.loopExited = true) :
      Step s .stopJoin { s with stopper := .none }
  | stopGiveUp (hs : s.stopper = .waiting) (he : s.loopExited = false) :
      Step s .stopGiveUp { s with stopper := .none }

/-- `runTask`, by the task at the head. -/
theorem step_runTask (h : s.step .runTask = some t) : Step s .runTask t := by
  simp only [State.step] at h
  split at h
  · next e ready ht =>
    obtain ⟨task, during⟩ := e
    split at h
    · cases h
    · next hh =>
      cases Option.some.inj h
      cases task with
      | user name => exact .runUser ht (by simpa using hh)
      | closeAll g => exact .runCloseAll ht (by simpa using hh)
  · cases h

theorem step_cases (h : s.step l = some t) : Step s l t := by
  cases l with
  | runTask => exact step_runTask h
  | check =>
      obtain ⟨ht, h⟩ := Option.ite_none_right_eq_some.mp h
      cases Option.some.inj h
      unfold State.check
      split
      · next hr => exact .enter ht hr
      · next hr => exact .leave ht (by simpa using hr)
  | append name =>
      cases Option.some.inj h
      exact .append name
  | start =>
      obtain ⟨hc, h⟩ := Option.ite_none_left_eq_some.mp h
      cases Option.some.inj h
      simp only [Bool.or_eq_true, bne_iff_ne, not_or, Bool.not_eq_true, not_not] at hc
      exact .start hc.1.1 hc.1.2 hc.2
  | load =>
      obtain ⟨hc, h⟩ := Option.ite_none_left_eq_some.mp h
      cases Option.some.inj h
      exact .load hc
  | send =>
      obtain ⟨hc, h⟩ := Option.ite_none_left_eq_some.mp h
      cases Option.some.inj h
      exact .send hc
  | wakeup =>
      obtain ⟨hc, h⟩ := Option.ite_none_right_eq_some.mp h
      cases Option.some.inj h
      rw [Bool.and_eq_true, decide_eq_true_eq] at hc
      exact .wakeup hc.1 hc.2
  | uvReturn =>
      obtain ⟨hc, h⟩ := Option.ite_none_right_eq_some.mp h
      cases Option.some.inj h
      exact .uvReturn hc
  | swap =>
      obtain ⟨hc, h⟩ := Option.ite_none_right_eq_some.mp h
      cases Option.some.inj h
      exact .swap hc
  | drained =>
      obtain ⟨hc, h⟩ := Option.ite_none_right_eq_some.mp h
      cases Option.some.inj h
      rw [Bool.and_eq_true, decide_eq_true_eq, Bool.not_eq_true'] at hc
      exact .drained hc.1 hc.2
  | stop onLoop =>
      obtain ⟨hc, h⟩ := Option.ite_none_right_eq_some.mp h
      cases Option.some.inj h
      rw [Bool.and_eq_true, Bool.and_eq_true, decide_eq_true_eq] at hc
      exact .stop hc.1.1 hc.1.2 fun ho => by simpa [ho] using hc.2
  | stopClear =>
      obtain ⟨hc, h⟩ := Option.ite_none_right_eq_some.mp h
      cases Option.some.inj h
      exact .stopClear hc
  | stopSend =>
      obtain ⟨hc, h⟩ := Option.ite_none_right_eq_some.mp h
      cases Option.some.inj h
      exact .stopSend hc
  | stopJoin =>
      obtain ⟨hc, h⟩ := Option.ite_none_right_eq_some.mp h
      cases Option.some.inj h
      rw [Bool.and_eq_true, decide_eq_true_eq] at hc
      exact .stopJoin hc.1 hc.2
  | stopGiveUp =>
      obtain ⟨hc, h⟩ := Option.ite_none_right_eq_some.mp h
      cases Option.some.inj h
      rw [Bool.and_eq_true, decide_eq_true_eq, Bool.not_eq_true'] at hc
      exact .stopGiveUp hc.1 hc.2

/-! ## One step, for the queue -/

/-- From `s` to `t`, `new` was appended and `ran` was executed. -/
structure Queued (s t : State) (new : List Posted) (ran : List Done) : Prop where
  appends : t.appends = s.appends ++ new
  executed : t.executed = s.executed ++ ran
  ledger : t.ledger = s.ledger ++ new

/-- A step that keeps the records and moves no task. -/
theorem Queued.still (ha : t.appends = s.appends) (he : t.executed = s.executed)
    (hq : t.thread.ready ++ t.pending = s.thread.ready ++ s.pending) : Queued s t [] [] :=
  ⟨by rw [ha, List.append_nil], by rw [he, List.append_nil],
    by simp only [State.ledger, he, hq, List.append_nil]⟩

theorem Queued.trans {new new' : List Posted} {ran ran' : List Done} (h : Queued s t new ran)
    (h' : Queued t u new' ran') : Queued s u (new ++ new') (ran ++ ran') :=
  ⟨by rw [h'.appends, h.appends, List.append_assoc],
    by rw [h'.executed, h.executed, List.append_assoc],
    by rw [h'.ledger, h.ledger, List.append_assoc]⟩

/-- An append under the lock, with the rest of the step. -/
theorem Queued.push {e : Posted} (ha : t.appends = s.appends ++ [e]) (he : t.executed = s.executed)
    (hr : t.thread = s.thread) (hp : t.pending = s.pending ++ [e]) : Queued s t [e] [] :=
  ⟨ha, by rw [he, List.append_nil],
    by simp only [State.ledger, he, hr, hp, List.append_assoc]⟩

/-- A task is executed. -/
theorem Queued.ran {e : Done} {ready : List Posted} (ha : t.appends = s.appends)
    (hs : s.thread = .drain (e.toPosted :: ready)) (he : t.executed = s.executed ++ [e])
    (ht : t.thread = .drain ready) (hp : t.pending = s.pending) : Queued s t [] [e] :=
  ⟨by rw [ha, List.append_nil], he,
    by simp [State.ledger, he, hs, ht, hp, Thread.ready]⟩

/-- A step appends what it adds to `pending_`, and what it executes was next. -/
theorem step_queue (h : s.step l = some t) (hc : l = .stopClear → s.pending = []) :
    ∃ new ran, Queued s t new ran := by
  cases step_cases h with
  | append name => exact ⟨_, [], .push rfl rfl rfl rfl⟩
  | stopClear hs =>
      refine ⟨_, [], .push rfl rfl rfl ?_⟩
      rw [hc rfl]
      rfl
  | runUser ht | runCloseAll ht => exact ⟨[], _, .ran rfl ht rfl rfl rfl⟩
  | start _ ht | enter ht | leave ht | wakeup ht | uvReturn ht | drained ht =>
      exact ⟨[], [], .still rfl rfl (by rw [ht]; rfl)⟩
  | swap ht => exact ⟨[], [], .still rfl rfl (by simp [ht, Thread.ready])⟩
  | load | send | stop | stopSend | stopJoin | stopGiveUp => exact ⟨[], [], .still rfl rfl rfl⟩

/-! ## Tasks wait for a later drain -/

/-- No task is swapped out, or executed, in a drain that had begun when it was appended. -/
def Dated (s : State) : Prop :=
  (∀ e ∈ s.pending, e.during ≤ s.drains) ∧ (∀ e ∈ s.thread.ready, e.during < s.drains) ∧
    ∀ e ∈ s.executed, e.during < e.drain

theorem dated_fresh : Dated fresh := by simp [Dated, fresh, Thread.ready]

/-- The head of the tasks swapped out is executed in the drain that swapped it. -/
theorem Dated.ran {e : Done} {ready : List Posted} (hd : Dated s) (he : e.drain = s.drains)
    (ht : s.thread = .drain (e.toPosted :: ready)) :
    (∀ e ∈ ready, e.during < s.drains) ∧ ∀ e' ∈ s.executed ++ [e], e'.during < e'.drain := by
  obtain ⟨-, hready, hexec⟩ := hd
  rw [ht] at hready
  refine ⟨fun e' h' => hready e' (List.mem_cons_of_mem _ h'), fun e' h' => ?_⟩
  rcases List.mem_append.mp h' with h' | h'
  · exact hexec e' h'
  · cases List.mem_singleton.mp h'
    exact he ▸ hready e.toPosted List.mem_cons_self

theorem Dated.push {e : Posted} (hd : Dated s) (he : e.during = s.drains) :
    ∀ e' ∈ s.pending ++ [e], e'.during ≤ s.drains := by
  intro e' h'
  rcases List.mem_append.mp h' with h' | h'
  · exact hd.1 e' h'
  · cases List.mem_singleton.mp h'
    exact Nat.le_of_eq he

theorem dated_step (hd : Dated s) (h : s.step l = some t) : Dated t := by
  have hnone : ∀ e ∈ ([] : List Posted), e.during < s.drains := by simp
  cases step_cases h with
  | append name => exact ⟨hd.push rfl, hd.2⟩
  | stopClear hs =>
      refine ⟨fun e he => ?_, hd.2⟩
      cases List.mem_singleton.mp he
      exact Nat.le_refl _
  | swap ht =>
      exact ⟨by simp, fun e he => Nat.lt_succ_of_le (hd.1 e he), hd.2.2⟩
  | runUser ht | runCloseAll ht => exact ⟨hd.1, hd.ran rfl ht⟩
  | start | enter | leave | wakeup | uvReturn | drained => exact ⟨hd.1, hnone, hd.2.2⟩
  | load | send | stop | stopSend | stopJoin | stopGiveUp => exact hd

end Urpc.Loop
