/-
  `Stop` of a `LoopRunner`, and what it leaves to the next `Start`.

  `Stop` clears `pending_`, puts its close-all task there and waits for the loop thread, which tests
  `running_` on its own. So a task can be lost (`Stop` clears it), and the thread can leave before the
  close-all task was run: the task then stays in `pending_`, and the loop of the next `Start` runs it
  and closes its own handles. A task posted after the last swap stays there as well.

  `orderly` excludes these: `Stop` is called by another thread, it clears an empty queue, the loop
  thread does not read `running_ = false` before it has run the close-all task, nothing is posted once
  that task was swapped out, and the wait is not given up.

  Proved:
  * `stop_complete`: in every orderly run, a close-all task is run at most once and by the loop it is
    for, and when `Stop` returns every task posted was executed, with the close-all task of this
    loop, once, and nothing is left in `pending_`.
  * `stop_loses_tasks`: runs in which this fails.
-/
import Urpc.Loop.Queue

namespace Urpc.Loop

variable {s t : State} {l : Label}

/-- The loops that the close-all tasks of a queue are for. -/
def closings (q : List Posted) : List Nat :=
  q.filterMap fun e => match e.task with
    | .closeAll g => some g
    | .user _ => none

/-- `Stop` has pushed its task and has not returned. -/
def Stopper.closing : Stopper → Bool
  | .queued | .waiting => true
  | .none | .exchanged => false

/-- Steps of a `Stop` that does not race with the loop thread or with a `Post`. -/
def orderly (s : State) : Label → Bool
  | .append _ => !s.stopper.closing || closings s.pending != []
  | .check => s.running || (s.stopper.closing && closings s.pending == [])
  | .stop onLoop => !onLoop
  | .stopClear => s.pending == []
  | .stopGiveUp => false
  | _ => true

@[simp] theorem closings_nil : closings [] = [] := rfl

@[simp] theorem closings_append (p q : List Posted) :
    closings (p ++ q) = closings p ++ closings q := List.filterMap_append

@[simp] theorem closings_user (name during : Nat) (q : List Posted) :
    closings (⟨.user name, during⟩ :: q) = closings q := rfl

@[simp] theorem closings_closeAll (g during : Nat) (q : List Posted) :
    closings (⟨.closeAll g, during⟩ :: q) = g :: closings q := rfl

/-! ## Who stops when -/

/-- What `running_`, `loop_exited_` and the progress of `Stop` say of one another. -/
structure Phase (s : State) : Prop where
  stopping : s.stopper ≠ .none → s.running = false
  begun : s.running = true ∨ s.stopper ≠ .none → 0 < s.loop
  queue : s.stopper.closing = true → s.pending = [] ∨ closings s.pending ≠ []
  exited : s.loopExited = true → s.running = false ∧ s.stopper ≠ .exchanged ∧ s.thread = .none ∧
    (s.stopper.closing = true → s.pending = [])

theorem phase_fresh : Phase fresh where
  stopping := by simp [fresh]
  begun := by simp [fresh]
  queue := by simp [fresh]
  exited := by simp [fresh]

/-- A thread that is somewhere has not left. -/
theorem Phase.live (hp : Phase s) (ht : s.thread ≠ .none) : s.loopExited = false := by
  cases he : s.loopExited with
  | false => rfl
  | true => exact absurd (hp.exited he).2.2.1 ht

/-- The loop thread moves on, and may swap the queue out. -/
theorem Phase.move (hp : Phase s) (ht : s.thread ≠ .none) (hr : t.running = s.running)
    (hs : t.stopper = s.stopper) (hl : t.loop = s.loop) (hx : t.loopExited = s.loopExited)
    (hq : t.pending = s.pending ∨ t.pending = []) : Phase t where
  stopping := by
    rw [hs, hr]
    exact hp.stopping
  begun := by
    rw [hs, hr, hl]
    exact hp.begun
  queue := by
    rw [hs]
    intro hc
    rcases hq with hq | hq
    · rw [hq]
      exact hp.queue hc
    · exact .inl hq
  exited := by
    rw [hx, hp.live ht]
    intro he
    cases he

theorem phase_step (hp : Phase s) (ho : orderly s l = true) (h : s.step l = some t) : Phase t := by
  obtain ⟨hstop, hbegun, hqueue, hexit⟩ := id hp
  cases step_cases h with
  | start hr ht hs =>
      exact ⟨by simp [hs], by simp, by simp [hs, Stopper.closing], by simp⟩
  | append name =>
      simp only [orderly, Bool.or_eq_true, Bool.not_eq_true', bne_iff_ne] at ho
      refine ⟨hstop, hbegun, fun hc => .inr ?_, fun he => ?_⟩
      · rcases ho with ho | ho
        · exact absurd (ho.symm.trans hc) (by decide)
        · simpa [State.push] using ho
      · obtain ⟨hr, hx, ht, hempty⟩ := hexit he
        refine ⟨hr, hx, ht, fun hc => ?_⟩
        rcases ho with ho | ho
        · exact absurd (ho.symm.trans hc) (by decide)
        · exact absurd (by rw [hempty hc]; rfl) ho
  | load hl => exact ⟨hstop, hbegun, hqueue, hexit⟩
  | send hs => exact ⟨hstop, hbegun, hqueue, hexit⟩
  | enter ht hr => exact hp.move (by simp [ht]) rfl rfl rfl rfl (.inl rfl)
  | leave ht hr =>
      simp only [orderly, hr, Bool.false_or, Bool.and_eq_true, beq_iff_eq] at ho
      obtain ⟨hc, hclose⟩ := ho
      refine ⟨hstop, hbegun, hqueue, fun _ => ⟨hr, ?_, rfl, fun _ => ?_⟩⟩
      · intro (hx : s.stopper = .exchanged)
        rw [hx] at hc
        cases hc
      · rcases hqueue hc with h | h
        · exact h
        · exact absurd hclose h
  | wakeup ht hs => exact hp.move (by simp [ht]) rfl rfl rfl rfl (.inl rfl)
  | uvReturn ht => exact hp.move (by simp [ht]) rfl rfl rfl rfl (.inl rfl)
  | swap ht => exact hp.move (by simp [ht]) rfl rfl rfl rfl (.inr rfl)
  | runUser ht hh => exact hp.move (by simp [ht]) rfl rfl rfl rfl (.inl rfl)
  | runCloseAll ht hh => exact hp.move (by simp [ht]) rfl rfl rfl rfl (.inl rfl)
  | drained ht hh => exact hp.move (by simp [ht]) rfl rfl rfl rfl (.inl rfl)
  | stop hr hs hd =>
      refine ⟨fun _ => rfl, fun _ => hbegun (.inl hr), by simp [Stopper.closing], fun he => ?_⟩
      exact absurd (hr.symm.trans (hexit he).1) (by decide)
  | stopClear hs =>
      refine ⟨fun _ => hstop (by simp [hs]), fun _ => hbegun (.inr (by simp [hs])),
        fun _ => .inr (by simp [State.push]), fun he => ?_⟩
      exact absurd hs (hexit he).2.1
  | stopSend hs =>
      have hc : s.stopper.closing = true := by rw [hs]; rfl
      refine ⟨fun _ => hstop (by simp [hs]), fun _ => hbegun (.inr (by simp [hs])),
        fun _ => hqueue hc, fun he => ?_⟩
      obtain ⟨hr, -, ht, hempty⟩ := hexit he
      exact ⟨hr, by simp, ht, fun _ => hempty hc⟩
  | stopJoin hs he =>
      obtain ⟨hr, -, ht, -⟩ := hexit he
      exact ⟨by simp, by simp [hr], by simp [Stopper.closing],
        fun _ => ⟨hr, by simp, ht, by simp [Stopper.closing]⟩⟩
  | stopGiveUp => cases ho

/-! ## The close-all tasks -/

namespace State

/-- The loops whose `Stop` has pushed its task. -/
def closed (s : State) : Nat :=
  if s.stopper.closing || (s.stopper == .none && !s.running) then s.loop else s.loop - 1

end State

/-- Each loop gets one close-all task, in its own `Stop`, and runs it itself. -/
structure Closings (s : State) : Prop where
  pushed : closings s.appends = List.range' 1 s.closed
  waiting : closings (s.thread.ready ++ s.pending) = [] ∨
    s.stopper.closing = true ∧ closings (s.thread.ready ++ s.pending) = [s.loop]
  own : ∀ e ∈ s.executed, ∀ g, e.task = .closeAll g → e.loop = g

theorem closings_fresh : Closings fresh where
  pushed := rfl
  waiting := .inl rfl
  own := by simp [fresh]

/-- A step that pushes no close-all task and runs none. -/
theorem Closings.keep (hc : Closings s) (happ : closings t.appends = closings s.appends)
    (hclosed : t.closed = s.closed)
    (hw : closings (t.thread.ready ++ t.pending) = closings (s.thread.ready ++ s.pending))
    (hstop : t.stopper.closing = s.stopper.closing) (hloop : t.loop = s.loop)
    (hown : ∀ e ∈ t.executed, ∀ g, e.task = .closeAll g → e.loop = g) : Closings t where
  pushed := by rw [happ, hclosed, hc.pushed]
  waiting := by
    rw [hw, hstop, hloop]
    exact hc.waiting
  own := hown

/-- The task at the head of the tasks swapped out, where it closes, closes this loop. -/
theorem Closings.head {g during : Nat} {ready : List Posted} (hc : Closings s)
    (ht : s.thread = .drain (⟨.closeAll g, during⟩ :: ready)) :
    g = s.loop ∧ closings (ready ++ s.pending) = [] := by
  rcases hc.waiting with hw | ⟨-, hw⟩
  · simp [ht, Thread.ready] at hw
  · simpa [ht, Thread.ready] using hw

theorem Closings.own_snoc {e : Done} (hc : Closings s)
    (he : ∀ g, e.task = .closeAll g → e.loop = g) :
    ∀ e' ∈ s.executed ++ [e], ∀ g, e'.task = .closeAll g → e'.loop = g := by
  intro e' h' g hg
  rcases List.mem_append.mp h' with h' | h'
  · exact hc.own e' h' g hg
  · cases List.mem_singleton.mp h'
    exact he g hg

theorem closings_step (hp : Phase s) (hc : Closings s) (ho : orderly s l = true)
    (h : s.step l = some t) : Closings t := by
  cases step_cases h with
  | start hr ht hs =>
      refine ⟨?_, .inl ?_, hc.own⟩
      · simpa [State.closed, Stopper.closing, hr, hs] using hc.pushed
      · rcases hc.waiting with hw | ⟨hw, -⟩
        · simpa [ht, Thread.ready] using hw
        · simp [hs, Stopper.closing] at hw
  | append name =>
      exact hc.keep (by simp [State.push]) rfl (by simp [State.push]) rfl rfl hc.own
  | load hl => exact hc.keep rfl rfl rfl rfl rfl hc.own
  | send hs => exact hc.keep rfl rfl rfl rfl rfl hc.own
  | enter ht hr => exact hc.keep rfl rfl (by rw [ht]; rfl) rfl rfl hc.own
  | leave ht hr => exact hc.keep rfl rfl (by rw [ht]; rfl) rfl rfl hc.own
  | wakeup ht hs => exact hc.keep rfl rfl (by rw [ht]; rfl) rfl rfl hc.own
  | uvReturn ht => exact hc.keep rfl rfl (by rw [ht]; rfl) rfl rfl hc.own
  | drained ht hh => exact hc.keep rfl rfl (by rw [ht]; rfl) rfl rfl hc.own
  | swap ht => exact hc.keep rfl rfl (by simp [ht, Thread.ready]) rfl rfl hc.own
  | runUser ht hh =>
      exact hc.keep rfl rfl (by simp [ht, Thread.ready]) rfl rfl (hc.own_snoc (by simp))
  | runCloseAll ht hh =>
      obtain ⟨hg, hrest⟩ := hc.head ht
      refine ⟨hc.pushed, .inl hrest, hc.own_snoc ?_⟩
      intro g' hg'
      cases hg'
      exact hg.symm
  | stop hr hs hd =>
      refine hc.keep rfl ?_ rfl (by rw [hs]; rfl) rfl hc.own
      simp [State.closed, hr, hs, Stopper.closing]
  | stopClear hs =>
      have hpos : 0 < s.loop := hp.begun (.inr (by simp [hs]))
      have hempty : s.pending = [] := by simpa [orderly] using ho
      refine ⟨?_, .inr ⟨rfl, ?_⟩, hc.own⟩
      · have hpushed : closings s.appends = List.range' 1 (s.loop - 1) := by
          simpa [State.closed, hs, Stopper.closing] using hc.pushed
        have hloop : s.loop = s.loop - 1 + 1 := by omega
        simp only [State.push, State.closed, Stopper.closing, closings_append, closings_closeAll,
          closings_nil, hpushed, Bool.true_or, if_true]
        rw [hloop, List.range'_concat]
        simp
        omega
      · have hready : closings s.thread.ready = [] := by
          rcases hc.waiting with hw | ⟨hw, -⟩
          · simpa [hempty] using hw
          · simp [hs, Stopper.closing] at hw
        simp [State.push, hready]
  | stopSend hs =>
      refine hc.keep rfl ?_ rfl (by rw [hs]; rfl) rfl hc.own
      simp [State.closed, hs, Stopper.closing, State.asyncSend]
  | stopJoin hs he =>
      obtain ⟨hr, -, ht, hempty⟩ := hp.exited he
      have hnone : s.pending = [] := hempty (by rw [hs]; rfl)
      refine ⟨?_, .inl ?_, hc.own⟩
      · simpa [State.closed, hs, hr, Stopper.closing] using hc.pushed
      · simp [ht, hnone, Thread.ready]
  | stopGiveUp => cases ho

/-! ## Orderly runs -/

/-- What an orderly run keeps. -/
structure Kept (s : State) : Prop where
  ledger : s.ledger = s.appends
  phase : Phase s
  close : Closings s

theorem kept_step (hk : Kept s) (ho : orderly s l = true) (h : s.step l = some t) : Kept t := by
  refine ⟨?_, phase_step hk.phase ho h, closings_step hk.phase hk.close ho h⟩
  obtain ⟨new, ran, hq⟩ := step_queue h fun hl => by
    subst hl
    simpa [orderly] using ho
  rw [hq.ledger, hq.appends, hk.ledger]

theorem kept_reach (h : Reach (fun s l => orderly s l = true) fresh s) : Kept s :=
  Walk.Reach.inv ⟨rfl, phase_fresh, closings_fresh⟩ (fun _ _ _ hk ho hs => kept_step hk ho hs) h

/-- The close-all tasks executed are, in this order, of different loops. -/
theorem Kept.closings_executed (hk : Kept s) :
    (closings (s.executed.map Done.toPosted)).Nodup := by
  have hpre : (closings (s.executed.map Done.toPosted)).Sublist
      (List.range' 1 s.closed) := by
    rw [← hk.close.pushed, ← hk.ledger, State.ledger, closings_append]
    exact List.sublist_append_left _ _
  exact hpre.nodup List.nodup_range'

/-- When `Stop` returns, everything that was posted was executed. -/
theorem Kept.join (hk : Kept s) (h : s.step .stopJoin = some t) :
    t.pending = [] ∧ t.executed.map Done.toPosted = t.appends ∧
      (closings (t.executed.map Done.toPosted)).count t.loop = 1 := by
  have hk' : Kept t := kept_step hk rfl h
  cases step_cases h with
  | stopJoin hs he =>
      obtain ⟨hr, -, ht, hempty⟩ := hk.phase.exited he
      have hnone : s.pending = [] := hempty (by rw [hs]; rfl)
      have hall : s.executed.map Done.toPosted = s.appends := by
        have hl := hk.ledger
        simpa [State.ledger, ht, hnone, Thread.ready] using hl
      refine ⟨hnone, hall, ?_⟩
      have hpushed : closings s.appends = List.range' 1 s.loop := by
        simpa [State.closed, hs, Stopper.closing] using hk.close.pushed
      have hpos : 0 < s.loop := hk.phase.begun (.inr (by simp [hs]))
      show (closings (s.executed.map Done.toPosted)).count s.loop = 1
      rw [hall, hpushed]
      refine List.count_eq_one_of_mem List.nodup_range' ?_
      rw [List.mem_range'_1]
      omega

/-- In every run whose steps are orderly: a close-all task is executed on the loop it is for and at
    most once; and when `Stop` returns, every task ever posted was executed, once and in the order of
    the appends, the close-all task of this loop among them, and `pending_` is empty. -/
theorem stop_complete (h : Reach (fun s l => orderly s l = true) fresh s) :
    (∀ e ∈ s.executed, ∀ g, e.task = .closeAll g → e.loop = g) ∧
      (closings (s.executed.map Done.toPosted)).Nodup ∧
      ∀ t, s.step .stopJoin = some t →
        t.pending = [] ∧ t.executed.map Done.toPosted = t.appends ∧
          (closings (t.executed.map Done.toPosted)).count t.loop = 1 := by
  have hk := kept_reach h
  exact ⟨hk.close.own, hk.closings_executed, fun t ht => hk.join ht⟩

/-- A task posted before `Start`, another one after it, and a `Stop`. -/
theorem stop_complete_two :
    ∃ s t : State, s.step .stopJoin = some t ∧
      t.appends = [⟨.user 7, 0⟩, ⟨.user 8, 0⟩, ⟨.closeAll 1, 1⟩] ∧
      t.pending = [] ∧ t.executed.map Done.toPosted = t.appends := by
  obtain ⟨s, hs, t, ht, happ⟩ : ∃ s, Walk.run State.step (fun s l => orderly s l = true) fresh
      [.append 7, .load, .start, .check, .append 8, .load, .send, .wakeup, .swap, .runTask,
        .runTask, .drained, .check, .stop false, .stopClear, .stopSend, .wakeup, .swap, .runTask,
        .drained, .check] = some s ∧
      ∃ t, s.step .stopJoin = some t ∧
        t.appends = [⟨.user 7, 0⟩, ⟨.user 8, 0⟩, ⟨.closeAll 1, 1⟩] := ⟨_, rfl, _, rfl, rfl⟩
  obtain ⟨-, -, hjoin⟩ := stop_complete (Walk.reach_of_run _ hs)
  obtain ⟨hnone, hall, -⟩ := hjoin t ht
  exact ⟨s, t, ht, happ, hnone, hall⟩

/-- Two runs of one runner. In the first, a task is posted to a running loop and `Stop` clears it:
    it is never executed. In the second, the loop thread leaves between the exchange of `running_` and
    the push; the close-all task stays behind when `Stop` returns, the next `Start` executes it on its
    own loop, and the task posted after that finds the wake handle closed and stays. -/
theorem stop_loses_tasks :
    (∃ s, Walk.run State.step (fun _ _ => True) fresh
      [.start, .check, .append 7, .load, .stop false, .stopClear, .send, .stopSend, .wakeup, .swap,
        .runTask, .drained, .check, .stopJoin] = some s ∧
      s.appends = [⟨.user 7, 0⟩, ⟨.closeAll 1, 0⟩] ∧ s.pending = [] ∧
      s.executed = [⟨⟨.closeAll 1, 0⟩, 1, 1⟩]) ∧
    (∃ s t, Walk.run State.step (fun _ _ => True) fresh
      [.start, .stop false, .check, .stopClear, .stopSend, .stopJoin] = some s ∧
      s.pending = [⟨.closeAll 1, 0⟩] ∧
      Walk.run State.step (fun _ _ => True) s
        [.start, .append 7, .load, .send, .check, .wakeup, .swap, .runTask, .runTask, .drained,
          .append 8, .load, .send] = some t ∧
      t.executed = [⟨⟨.closeAll 1, 0⟩, 2, 1⟩, ⟨⟨.user 7, 0⟩, 2, 1⟩] ∧
      t.pending = [⟨.user 8, 1⟩] ∧ t.signal = false ∧ t.wakeOpen = false) :=
  ⟨⟨_, rfl, rfl, rfl, rfl⟩, ⟨_, _, rfl, rfl, rfl, rfl, rfl, rfl, rfl⟩⟩

end Urpc.Loop
