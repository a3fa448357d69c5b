/-
  Posted tasks, between a `Start` and the beginning of a `Stop`.

  The threads that post, the tasks that post and the loop thread are interleaved in any way. `Start`
  is assumed to find `pending_` empty, whatever was done with the runner before. A task that it finds
  there is one of a `Post` that saw no running loop, which nothing wakes the loop for, or the
  close-all task of an earlier `Stop`, which closes the wake handle of the new loop.

  Proved:
  * `posted_run_in_order`: tasks are executed in the order of the appends, each at most once and in a
    later drain than the one that ran when it was posted; a quiescent loop has executed all of them;
    and what is in flight reaches such a state.
  * `leftover_starves_posts`: a `Start` that finds a task.
-/
import Urpc.Loop.Queue

namespace Urpc.Loop

open Walk

variable {s t c c0 d : State} {l : Label}

/-- `Stop` does not begin. -/
def noStop (_ : State) : Label → Bool
  | .stop _ => false
  | _ => true

/-- The steps by which calls of `Post` and the loop thread finish what they have begun. -/
def Label.finishing : Label → Bool
  | .load | .send | .check | .wakeup | .swap | .runTask | .drained => true
  | _ => false

namespace State

/-- No signal is on its way or to be served, and no drain is in progress. -/
def quiescent (s : State) : Bool :=
  !s.signal && !s.thread.draining && s.loading = 0 && s.sending = 0

end State

/-! ## What a running loop keeps -/

/-- From the state `c0` that `Start` left, `posted` was appended and `ran` was executed. -/
structure Running (c0 c : State) (posted : List Posted) (ran : List Done) : Prop where
  queued : Queued c0 c posted ran
  running : c.running = true
  stopper : c.stopper = .none
  thread : c.thread ≠ .none
  loop : c.loop = c0.loop
  loops : ∀ e ∈ ran, e.loop = c0.loop
  posts : ∀ e ∈ posted, ∃ name, e.task = .user name
  wakeOpen : c.wakeOpen = true

/-- Tasks wait only where a signal is on its way. -/
def Signalled (c : State) : Prop :=
  c.pending = [] ∨ c.signal = true ∨ c.thread = .woken ∨ 0 < c.loading ∨ 0 < c.sending

theorem running_start (h : s.start = some c0) : Running c0 c0 [] [] := by
  cases step_cases (show s.step .start = some c0 from h) with
  | start hr ht hs =>
      exact ⟨.still rfl rfl rfl, rfl, hs, by simp, rfl, by simp, by simp, rfl⟩

/-- What `Start` leaves where it has found nothing. -/
theorem blank_start (h : s.start = some c0) (hnone : s.pending = []) :
    c0.thread.ready ++ c0.pending = [] := by
  cases step_cases (show s.step .start = some c0 from h) with
  | start => exact hnone

variable {posted : List Posted} {ran : List Done}

/-- What ran and what waits is what was posted. -/
theorem ran_ledger (hq : Queued c0 c posted ran) (h0 : c0.thread.ready ++ c0.pending = []) :
    ran.map Done.toPosted ++ (c.thread.ready ++ c.pending) = posted := by
  have h := hq.ledger
  simp only [State.ledger, hq.executed, h0, List.map_append, List.append_assoc,
    List.nil_append] at h
  exact List.append_cancel_left h

/-- A step that appends and executes nothing. -/
theorem Running.still (hr : Running c0 c posted ran) (hq : Queued c d [] [])
    (hrun : d.running = c.running) (hstop : d.stopper = c.stopper) (ht : d.thread ≠ .none)
    (hloop : d.loop = c.loop) (hwake : d.wakeOpen = c.wakeOpen) : Running c0 d posted ran where
  queued := by simpa only [List.append_nil] using hr.queued.trans hq
  running := hrun.trans hr.running
  stopper := hstop.trans hr.stopper
  thread := ht
  loop := hloop.trans hr.loop
  loops := hr.loops
  posts := hr.posts
  wakeOpen := hwake.trans hr.wakeOpen

/-- `Post` appends. -/
theorem Running.push (hr : Running c0 c posted ran) (name : Nat) :
    Running c0 { c.push (.user name) with loading := c.loading + 1 }
      (posted ++ [⟨.user name, c.drains⟩]) ran where
  queued := by
    have hq : Queued c { c.push (.user name) with loading := c.loading + 1 }
        [⟨.user name, c.drains⟩] [] := .push rfl rfl rfl rfl
    simpa only [List.append_nil] using hr.queued.trans hq
  running := hr.running
  stopper := hr.stopper
  thread := hr.thread
  loop := hr.loop
  loops := hr.loops
  posts := by
    intro e he
    rcases List.mem_append.mp he with he | he
    · exact hr.posts e he
    · cases List.mem_singleton.mp he
      exact ⟨name, rfl⟩
  wakeOpen := hr.wakeOpen

/-- A posted task is run, on the loop of `c0`. -/
theorem Running.execute {e : Done} {ready : List Posted} (hr : Running c0 c posted ran)
    (he : e.loop = c.loop) (ht : c.thread = .drain (e.toPosted :: ready)) :
    Running c0 { c with thread := .drain ready, executed := c.executed ++ [e] } posted
      (ran ++ [e]) where
  queued := by
    have hq : Queued c { c with thread := .drain ready, executed := c.executed ++ [e] } [] [e] :=
      .ran rfl ht rfl rfl rfl
    simpa only [List.append_nil] using hr.queued.trans hq
  running := hr.running
  stopper := hr.stopper
  thread := by simp
  loop := hr.loop
  loops := by
    intro e' he'
    rcases List.mem_append.mp he' with he' | he'
    · exact hr.loops e' he'
    · cases List.mem_singleton.mp he'
      exact he.trans hr.loop
  posts := hr.posts
  wakeOpen := hr.wakeOpen

theorem running_step (h0 : c0.thread.ready ++ c0.pending = []) (hr : Running c0 c posted ran)
    (hsig : Signalled c) (hn : noStop c l = true) (h : c.step l = some d) :
    ∃ posted' ran', Running c0 d posted' ran' ∧ Signalled d := by
  have absurdStopper : ∀ {p : Stopper}, c.stopper = p → p ≠ .none → False := by
    intro p hp hne
    exact hne (hp ▸ hr.stopper)
  cases step_cases h with
  | start hrun | leave _ hrun => exact absurd (hrun.symm.trans hr.running) (by decide)
  | stop => cases hn
  | stopClear hs | stopSend hs | stopJoin hs | stopGiveUp hs =>
      exact (absurdStopper hs (by decide)).elim
  | append name =>
      exact ⟨_, _, hr.push name, .inr (.inr (.inr (.inl (Nat.succ_pos _))))⟩
  | load hl =>
      refine ⟨_, _, hr.still (.still rfl rfl rfl) rfl rfl hr.thread rfl rfl, ?_⟩
      simp [Signalled, hr.running]
  | send hl =>
      refine ⟨_, _, hr.still (.still rfl rfl rfl) rfl rfl hr.thread rfl rfl, ?_⟩
      simp [Signalled, State.asyncSend, hr.wakeOpen]
  | wakeup ht hs =>
      refine ⟨_, _, hr.still (.still rfl rfl (by rw [ht]; rfl)) rfl rfl (by simp) rfl rfl, ?_⟩
      simp [Signalled]
  | swap ht =>
      refine ⟨_, _, hr.still (.still rfl rfl (by simp [ht, Thread.ready])) rfl rfl (by simp) rfl
        rfl, ?_⟩
      simp [Signalled]
  | enter ht | uvReturn ht | drained ht =>
      refine ⟨_, _, hr.still (.still rfl rfl (by rw [ht]; rfl)) rfl rfl (by simp) rfl rfl, ?_⟩
      simpa [Signalled, ht] using hsig
  | runUser ht hh =>
      refine ⟨_, _, hr.execute rfl ht, ?_⟩
      simpa [Signalled, ht] using hsig
  | @runCloseAll g during ready ht hh =>
      -- nobody has posted a close-all task
      have hmem : ⟨.closeAll g, during⟩ ∈ posted := by
        rw [← ran_ledger hr.queued h0, ht]
        exact List.mem_append_right _ List.mem_cons_self
      obtain ⟨name, hn⟩ := hr.posts _ hmem
      cases hn

/-- A run from what `Start` left. -/
theorem running_reach (h0 : s.start = some c0) (hnone : s.pending = [])
    (h : Reach (fun c l => noStop c l = true) c0 c) :
    ∃ posted ran, Running c0 c posted ran ∧ Signalled c := by
  have hblank := blank_start h0 hnone
  refine Walk.Reach.inv (I := fun c => ∃ posted ran, Running c0 c posted ran ∧ Signalled c)
    ⟨[], [], running_start h0, .inl (List.append_eq_nil_iff.mp hblank).2⟩ ?_ h
  rintro t l u ⟨posted, ran, hr, hsig⟩ hn hs
  exact running_step hblank hr hsig hn hs

/-! ## What is in flight comes to an end -/

namespace Thread

/-- How far the loop thread is from `uv_run`. -/
def work : Thread → Nat
  | .none | .poll => 0
  | .check => 1
  | .drain ready => 2 + ready.length
  | .woken => 3

end Thread

namespace State

/-- A bound on the steps that finish what has begun: a signal costs a drain, and each call of `Post`
    that is not over costs a signal. -/
def work (s : State) : Nat :=
  6 * s.loading + 5 * s.sending + 4 * s.signal.toNat + 2 * s.pending.length
    + s.thread.work

end State

theorem work_step (hf : l.finishing = true) (h : s.step l = some t) : t.work < s.work := by
  cases step_cases h with
  | load hl =>
      have : (if s.running then s.sending + 1 else s.sending) ≤ s.sending + 1 := by
        split <;> omega
      simp only [State.work]
      omega
  | send hs =>
      have := Bool.toNat_le (s.signal || s.wakeOpen)
      simp only [State.work, State.asyncSend]
      omega
  | enter ht hr => simp [State.work, ht, Thread.work]
  | leave ht hr => simp [State.work, ht, Thread.work]
  | wakeup ht hs =>
      simp only [State.work, ht, hs, Thread.work, Bool.toNat_true, Bool.toNat_false]
      omega
  | swap ht =>
      simp only [State.work, ht, Thread.work, List.length_nil]
      omega
  | runUser ht hh =>
      simp only [State.work, ht, Thread.work, List.length_cons]
      omega
  | runCloseAll ht hh =>
      simp only [State.work, ht, Thread.work, List.length_cons, Bool.toNat_false]
      omega
  | drained ht hh => simp [State.work, ht, Thread.work]
  | _ => cases hf

/-- Where nothing is left to finish, the loop thread polls and no signal is on its way. -/
theorem quiescent_of_finished (hr : Running c0 c posted ran)
    (h : ∀ l : Label, l.finishing = true → c.step l = none) :
    c.quiescent = true ∧ c.thread.ready = [] := by
  have hheld : c.held = false := by simp [State.held, hr.stopper]
  have hload : c.loading = 0 := by simpa [State.step] using h .load rfl
  have hsend : c.sending = 0 := by simpa [State.step] using h .send rfl
  cases ht : c.thread with
  | none => exact absurd ht hr.thread
  | check =>
      have := h .check rfl
      simp [State.step, ht] at this
  | woken =>
      have := h .swap rfl
      simp [State.step, ht] at this
  | drain ready =>
      cases ready with
      | nil =>
          have := h .drained rfl
          simp [State.step, ht, hheld] at this
      | cons e ready =>
          have := h .runTask rfl
          simp [State.step, ht, hheld] at this
  | poll =>
      have hs : c.signal = false := by simpa [State.step, ht] using h .wakeup rfl
      simp [State.quiescent, hload, hsend, hs, ht, Thread.draining, Thread.ready]

/-- The steps that finish something append nothing. -/
theorem appends_of_finishing (h : Reach (fun _ l => l.finishing = true) c d) :
    d.appends = c.appends := by
  refine Walk.Reach.inv (I := fun t => t.appends = c.appends) rfl ?_ h
  intro t l u ih hf hs
  cases step_cases hs <;> first | exact ih | cases hf

/-! ## The loop while it runs -/

/-- Nothing waits in a quiescent loop. -/
theorem pending_of_quiescent (hsig : Signalled c) (hq : c.quiescent = true) : c.pending = [] := by
  simp only [State.quiescent, Bool.and_eq_true, Bool.not_eq_true', decide_eq_true_eq] at hq
  obtain ⟨⟨⟨hs, hd⟩, hl⟩, hsend⟩ := hq
  rcases hsig with h | h | h | h | h
  · exact h
  · exact absurd (hs.symm.trans h) (by decide)
  · rw [h] at hd
    cases hd
  · omega
  · omega

/-- Between a `Start` that finds no task and the beginning of the next `Stop`, in every interleaving:
    the tasks executed and those that wait are those posted, in the order of the appends; each is
    executed in a drain that begins after its append; a quiescent loop has executed all that was
    posted; and from every state, what has begun ends in such a state, within `work` steps. -/
theorem posted_run_in_order (hs : Reach (fun _ _ => True) fresh s) (hnone : s.pending = [])
    (h0 : s.start = some c0) (h : Reach (fun c l => noStop c l = true) c0 c) :
    ∃ posted ran, c.appends = c0.appends ++ posted ∧ c.executed = c0.executed ++ ran ∧
      ran.map Done.toPosted ++ (c.thread.ready ++ c.pending) = posted ∧
      (∀ e ∈ ran, e.during < e.drain ∧ e.loop = c0.loop) ∧
      (c.quiescent = true → c.pending = []) ∧
      ∀ ls d, Walk.run State.step (fun _ l => l.finishing = true) c ls = some d →
        ls.length ≤ c.work ∧
        ((∀ l : Label, l.finishing = true → d.step l = none) →
          d.executed.map Done.toPosted = c0.executed.map Done.toPosted ++ posted) := by
  have hblank := blank_start h0 hnone
  have hdated : Dated c := by
    have hd0 : Dated s := Walk.Reach.inv dated_fresh (fun t l u hd _ hs => dated_step hd hs) hs
    exact Walk.Reach.inv (dated_step hd0 (l := .start) h0)
      (fun t l u hd _ hs => dated_step hd hs) h
  obtain ⟨posted, ran, hr, hsig⟩ := running_reach h0 hnone h
  refine ⟨posted, ran, hr.queued.appends, hr.queued.executed, ran_ledger hr.queued hblank,
    fun e he => ⟨hdated.2.2 e ?_, hr.loops e he⟩, pending_of_quiescent hsig,
    fun ls d hrun => ⟨?_, ?_⟩⟩
  · rw [hr.queued.executed]
    exact List.mem_append_right _ he
  · exact Walk.length_le_of_run (fun s l t hf hs => work_step hf hs) ls hrun
  · intro hdone
    have hreach : Reach (fun c l => noStop c l = true) c0 d := by
      refine h.trans ((Walk.reach_of_run ls hrun).mono ?_)
      intro s l hf
      cases l <;> first | rfl | cases hf
    have happ : d.appends = c.appends := appends_of_finishing (Walk.reach_of_run ls hrun)
    obtain ⟨posted', ran', hr', hsig'⟩ := running_reach h0 hnone hreach
    have hsame : posted' = posted := by
      rw [hr'.queued.appends, hr.queued.appends] at happ
      exact List.append_cancel_left happ
    subst hsame
    obtain ⟨hq, hready⟩ := quiescent_of_finished hr' hdone
    have hall := ran_ledger hr'.queued hblank
    rw [hready, pending_of_quiescent hsig' hq, List.append_nil, List.append_nil] at hall
    rw [hr'.queued.executed, List.map_append, hall]

/-- A task that posts: its own task waits for the second drain. -/
theorem posted_run_in_order_nested :
    ∃ c0 c : State, fresh.start = some c0 ∧ c.executed = [⟨⟨.user 7, 0⟩, 1, 1⟩] ∧
      c.pending = [⟨.user 8, 1⟩] ∧
      ∃ posted ran, c.appends = c0.appends ++ posted ∧ c.executed = c0.executed ++ ran ∧
        ran.map Done.toPosted ++ (c.thread.ready ++ c.pending) = posted ∧
        ∀ e ∈ ran, e.during < e.drain ∧ e.loop = c0.loop := by
  obtain ⟨c0, h0⟩ : ∃ c0, fresh.start = some c0 := ⟨_, rfl⟩
  obtain ⟨c, hc, hdone, hwait⟩ : ∃ c, Walk.run State.step (fun c l => noStop c l = true) c0
      [.append 7, .load, .check, .send, .wakeup, .swap, .append 8, .runTask] = some c ∧
      c.executed = [⟨⟨.user 7, 0⟩, 1, 1⟩] ∧ c.pending = [⟨.user 8, 1⟩] := by
    cases h0
    exact ⟨_, rfl, rfl, rfl⟩
  obtain ⟨posted, ran, happ, hexec, hall, hran, -⟩ :=
    posted_run_in_order .refl rfl h0 (Walk.reach_of_run _ hc)
  exact ⟨c0, c, h0, hdone, hwait, posted, ran, happ, hexec, hall, hran⟩

/-- A task that was posted before `Start` waits in a quiescent loop. And a `Stop` whose loop thread
    leaves early: the next loop runs the close-all task, with a task 7 that wakes it, and a task 8
    that is posted then is never run. -/
theorem leftover_starves_posts :
    (∃ s c0, Reach (fun _ _ => True) fresh s ∧ s.start = some c0 ∧ c0.quiescent = true ∧
      c0.pending = [⟨.user 7, 0⟩]) ∧
    ∃ s c0 c, Reach (fun _ _ => True) fresh s ∧ s.start = some c0 ∧
      Reach (fun c l => noStop c l = true) c0 c ∧ c.quiescent = true ∧
      c.executed.map (·.task) = [.closeAll 1, .user 7] ∧ c.pending = [⟨.user 8, 1⟩] := by
  constructor
  · obtain ⟨s, hs, c0, h0⟩ : ∃ s, Walk.run State.step (fun _ _ => True) fresh
        [.append 7, .load] = some s ∧ ∃ c0, s.start = some c0 ∧ c0.quiescent = true ∧
        c0.pending = [⟨.user 7, 0⟩] := ⟨_, rfl, _, rfl, rfl, rfl⟩
    exact ⟨s, c0, Walk.reach_of_run _ hs, h0⟩
  · obtain ⟨s, hs, c0, h0, c, hc, hend⟩ : ∃ s, Walk.run State.step (fun _ _ => True) fresh
        [.start, .stop false, .stopClear, .stopSend, .check, .stopJoin] = some s ∧
        ∃ c0, s.start = some c0 ∧ ∃ c, Walk.run State.step (fun c l => noStop c l = true) c0
          [.append 7, .load, .send, .check, .wakeup, .swap, .runTask, .runTask, .drained, .check,
            .append 8, .load, .send] = some c ∧ c.quiescent = true ∧
        c.executed.map (·.task) = [.closeAll 1, .user 7] ∧ c.pending = [⟨.user 8, 1⟩] :=
      ⟨_, rfl, _, rfl, _, rfl, rfl, rfl, rfl⟩
    exact ⟨s, c0, c, Walk.reach_of_run _ hs, h0, Walk.reach_of_run _ hc, hend⟩

end Urpc.Loop
