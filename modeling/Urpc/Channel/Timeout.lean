/-
  What the timeout of an operation covers.

  The task of `Call` sets the timer at once, but the timer looks the call up in `calls`: while the
  call still waits for the connection it finds nothing, and it fires once. The timer of a stream is
  set by `OpenStreamNow`, so a stream that waits for the connection has none
  (`timeout_passes_unnoticed`). If the tasks of operations with a timeout run on a channel that
  does not have to connect first, a timer that fires finds its operation (`Timed`).

  Proved: `timeout_covers`.
-/
import Urpc.Channel.Aside
import Urpc.Channel.Place
import Urpc.Channel.Terminal
import Urpc.Channel.Timers

namespace Urpc.Channel

open Cxx

/-- The callback that a timer is about. -/
def Alarm.token : Alarm → Token
  | .call id _ => .done id
  | .stream id _ => .complete id

/-- What a timer should tell. -/
def Alarm.expired : Alarm → Obs
  | .call id _ => .done id deadlineExceeded []
  | .stream id _ => .complete id deadlineExceeded

theorem Alarm.terminal_token (a : Alarm) : a.token.terminal = true := by
  cases a <;> rfl

theorem Alarm.token_expired (a : Alarm) : a.expired.token = some a.token := by
  cases a <;> rfl

/-- The timer that the operation of a task asks for. -/
def Task.alarm : Task → Option Alarm
  | .call id _ _ timeoutMs _ => if timeoutMs > 0 then some (.call id timeoutMs) else none
  | .openStream id _ events timeoutMs =>
      if events.onComplete && timeoutMs > 0 then some (.stream id timeoutMs) else none
  | _ => none

/-! ## Timers find their operation -/

/-- The operation of the timer has been issued and has left the queues. -/
structure Covered (v : Desk) (a : Alarm) : Prop where
  issued : a.token ∈ v.issued
  given : a.token.id < v.nextCallId
  queued : v.queued a.token.id = 0

theorem covered_move {E : Env} {v v' : Desk} {a : Alarm} (h : Covered v a)
    (hm : Desk.Move E v v') : Covered v' a := by
  obtain ⟨new, hissued, -⟩ := Desk.issued_new_move hm
  have hnext := Desk.nextCallId_move hm
  have hlt := h.given
  exact ⟨hissued ▸ List.mem_append_left _ h.issued, by omega,
    Desk.queued_zero_move hm h.given h.queued⟩

/-- The tasks of calls with a timeout run on a channel that is ready or broken, those of streams
    on a channel that is ready and whose session takes the request. -/
def timelyStep (c : Conf) : Label → Bool
  | .event (.task _) =>
      match c.st.posted.head? with
      | some (.call _ _ _ timeoutMs _) =>
          timeoutMs = 0 || c.st.phase = .ready || c.st.phase = .broken
      | some (.openStream _ _ events timeoutMs) =>
          !events.onComplete || timeoutMs = 0 || (c.st.phase = .ready && !c.st.refusing)
      | _ => true
  | _ => true

def timely (c : Conf) (l : Label) : Prop := timelyStep c l = true

instance (c : Conf) (l : Label) : Decidable (timely c l) :=
  inferInstanceAs (Decidable (timelyStep c l = true))

structure Timed (c : Conf) : Prop where
  rest : Desk.Rest Env.any (desk c.st c.frames)
  books : Desk.Books (desk c.st c.frames)
  numbered : Desk.Numbered (desk c.st c.frames)
  covered : ∀ e ∈ c.st.timers, Covered (desk c.st c.frames) e.2

/-- The queues are the same. -/
structure SameQueues (s s' : State) : Prop where
  posted : s'.posted = s.posted
  pending : s'.pending = s.pending
  parked : s'.pendingStreams = s.pendingStreams

theorem completeNew_queues (s : State) (id : Nat) (call : NewCall) (status : Status) :
    SameQueues s (completeNew s id call status) := by
  have hd := desk_complete s [] id { call with sid := 0 } status [] rfl
  exact ⟨congrArg Desk.posted hd, congrArg Desk.pending hd, congrArg Desk.parked hd⟩

theorem callNow_queues (s : State) (id : Nat) (path framed : Bytes) (call : NewCall) :
    SameQueues s (callNow s id path framed call).1 := by
  unfold callNow State.submit
  split
  · exact completeNew_queues s id call submitFailed
  · next h =>
      split at h
      · cases h
      · cases h
        exact ⟨rfl, rfl, rfl⟩

/-- On a channel that does not have to connect the task of `Call` puts the call in no queue. -/
theorem callTask_queues {s : State} (tcp : Option Status) (id : Nat) (path framed : Bytes)
    (timeoutMs : Nat) (call : NewCall) (hphase : s.phase = .ready ∨ s.phase = .broken) :
    SameQueues s (callTask s tcp id path framed timeoutMs call).1 := by
  unfold callTask
  generalize hr : (if timeoutMs > 0 then s.setTimer (.call id timeoutMs)
    else (s, call.timeoutTimer)) = r
  obtain ⟨s₁, timer⟩ := r
  obtain ⟨hsame, hphase₁⟩ : SameQueues s s₁ ∧ s₁.phase = s.phase := by
    split at hr <;> cases hr <;> exact ⟨⟨rfl, rfl, rfl⟩, rfl⟩
  have hthen : ∀ {s₂ : State}, SameQueues s₁ s₂ → SameQueues s s₂ := fun h =>
    ⟨h.posted.trans hsame.posted, h.pending.trans hsame.pending, h.parked.trans hsame.parked⟩
  dsimp only
  rw [hphase₁]
  rcases hphase with hready | hbroken
  · rw [hready]
    exact hthen (callNow_queues _ _ _ _ _)
  · rw [hbroken]
    exact hthen (completeNew_queues _ _ _ _)

/-- The operation that the next frame registers has left the queues. -/
theorem covered_frame {c : Conf} {f : Frame} {fs : List Frame} {a : Alarm} (h : Timed c)
    (hf : c.frames = f :: fs) (hset : f.sets = some a) : Covered (desk c.st c.frames) a := by
  cases f with
  | openStreamRest sid ps decoder =>
      simp only [Frame.sets] at hset
      split at hset
      · cases hset
        have hpos : 0 < (desk c.st c.frames).waiting (single (.complete ps.id)) := by
          have hone : single (.complete ps.id) (.complete ps.id) = 1 := if_pos rfl
          simp only [Desk.waiting, desk, hf, List.map_cons, List.sum_cons, frameWeight,
            parkedWeight]
          omega
        have hissued := h.books.mem_issued (t := .complete ps.id) (by omega)
        refine ⟨hissued, h.books.issued.fresh _ hissued rfl, ?_⟩
        have honce := h.numbered.once ps.id
        rw [Desk.coming_eq] at honce
        simp only [desk, hf, List.countP_cons, Frame.brings, decide_true, if_true] at honce
        have hqueued : (desk c.st c.frames).queued ps.id = 0 := by
          simp only [desk, hf]
          omega
        exact hqueued
      · cases hset
  | _ => cases hset

/-- The call whose task is next has been issued; it is in no other place. -/
theorem covered_task {c : Conf} {id : Nat} {path framed : Bytes} {ms : Nat} {call : NewCall}
    {ts : List Task} (h : Timed c) (hp : c.st.posted = .call id path framed ms call :: ts) :
    .done id ∈ c.st.issued ∧ (desk { c.st with posted := ts } c.frames).queued id = 0 := by
  have hpos : 0 < (desk c.st c.frames).waiting (single (.done id)) := by
    have hone : single (.done id) (.done id) = 1 := if_pos rfl
    simp only [Desk.waiting, desk, hp, List.map_cons, List.sum_cons, taskWeight]
    omega
  refine ⟨h.books.mem_issued (by omega), ?_⟩
  have honce := h.numbered.once id
  simp only [Desk.coming, desk, hp, List.countP_cons, Task.brings, decide_true, if_true] at honce
  simp only [Desk.queued, desk]
  omega

/-- The timer of the task that runs finds the call in no queue. -/
theorem covered_ran {c d : Conf} {tcp : Option Status} {t : Task} {ts : List Task} {a : Alarm}
    (h : Timed c) (hl : timely c (.event (.task tcp))) (hp : c.st.posted = t :: ts)
    (hset : t.sets = some a) (hs : machine.step c (.event (.task tcp)) = some d) :
    Covered (desk d.st d.frames) a := by
  cases t with
  | call id path framed ms call =>
      simp only [Task.sets] at hset
      split at hset
      · next hms =>
          cases hset
          obtain ⟨hissued, hqueued⟩ := covered_task h hp
          have hphase : c.st.phase = .ready ∨ c.st.phase = .broken := by
            have hne : ms ≠ 0 := by omega
            simpa [timely, timelyStep, hp, hne] using hl
          obtain ⟨hold, hnext⟩ := (step_desk (I := fun v => .done id ∈ v.issued ∧ id < v.nextCallId)
            (fun v w _ hi hm => by
              obtain ⟨new, hnew, -⟩ := Desk.issued_new_move hm
              have hle := Desk.nextCallId_move hm
              exact ⟨hnew ▸ List.mem_append_left _ hi.1, by omega⟩)
            h.rest ⟨hissued, h.books.issued.fresh _ hissued rfl⟩ (Env.any_allows c _) hs).2
          obtain ⟨-, rfl⟩ := step_task hs hp
          have hsame := callTask_queues (s := { c.st with posted := ts }) tcp id path framed ms
            call hphase
          refine ⟨hold, hnext, ?_⟩
          simp only [Desk.queued, desk, runTask, hsame.posted, hsame.pending, hsame.parked]
          exact hqueued
      · cases hset
  | _ => cases hset

theorem timed_step {c d : Conf} {l : Label} (h : Timed c) (hl : timely c l)
    (hs : machine.step c l = some d) : Timed d := by
  have hallow := Env.any_allows c l
  obtain ⟨hrest, hbooks, hnumbered⟩ := step_desk
    (I := fun v => Desk.Books v ∧ Desk.Numbered v)
    (fun _ _ hr hi hm => ⟨Desk.books_move hr hi.1 hm, Desk.numbered_move hi.2 hm⟩)
    h.rest ⟨h.books, h.numbered⟩ hallow hs
  refine ⟨hrest, hbooks, hnumbered, fun e he => ?_⟩
  have hkeep : Covered (desk c.st c.frames) e.2 → Covered (desk d.st d.frames) e.2 := fun hc =>
    (step_desk (fun _ _ _ => covered_move) h.rest hc hallow hs).2
  rcases (step_sets hs).timers e he with hold | hnew
  · exact hkeep (h.covered e hold)
  · cases l with
    | resume =>
        obtain ⟨f, fs, hf, -⟩ := machine.step_resume hs
        exact hkeep (covered_frame h hf (by simpa [sets, hf] using hnew))
    | event ev =>
        cases ev with
        | task tcp =>
            cases hp : c.st.posted with
            | nil => simp [sets, hp] at hnew
            | cons t ts => exact covered_ran h hl hp (by simpa [sets, hp] using hnew) hs
        | _ => cases hnew

theorem reach_timed {o : Options} {c : Conf} (h : machine.Reach timely (fresh o) c) : Timed c :=
  h.inv ⟨Desk.rest_fresh _ o, Desk.books_fresh o, Desk.numbered_fresh o, fun _ h => by cases h⟩
    fun _ _ _ hc hl hs => timed_step hc hl hs

/-! ## A timer fires -/

theorem callTimeoutRest_told {s : State} {id : Nat} {call : Call} (hcall : s.calls id = some call)
    (hdone : call.done = true) : .done id deadlineExceeded [] ∈ (callTimeoutRest s id).log := by
  simp [callTimeoutRest, hcall, State.note, hdone]

/-- The timer of a live call. -/
theorem callTimeout_told {s : State} {id : Nat} {call : Call} {d : Conf}
    (hcall : s.calls id = some call) (hc : call.completed = false)
    (hd : machine.Completes ⟨(callTimeout s id).1, (callTimeout s id).2⟩ d) :
    .done id deadlineExceeded [] ∈ d.st.log := by
  have hdone := call.whole hc
  simp only [callTimeout, hcall, hc, Bool.false_eq_true, if_false] at hd
  split at hd
  · -- the call is marked, so the flush of the reset leaves it alone
    obtain ⟨s₁, ⟨call₁, hcall₁, -, hdone₁⟩, hst⟩ := hd.of_frame (f := .callTimeoutRest id)
      (I := fun s => ∃ call, s.calls id = some call ∧ call.completed = true ∧ call.done = true)
      rfl ⟨_, Function.update_self .., rfl, hdone⟩
      (fun e s s' gs he hi hf => by
        obtain ⟨call, hcall, hc, hdone⟩ := hi
        exact ⟨(fire_aside he hf).1, call, (fire_aside he hf).2.calls _ _ hcall hc, hc, hdone⟩)
      fun _ _ => rfl
    rw [hst]
    exact callTimeoutRest_told hcall₁ hdone₁
  · obtain rfl := hd.eq_of_nil rfl
    exact callTimeoutRest_told (Function.update_self ..) hdone

theorem streamTimeoutRest_told {s : State} {id : Nat} {st : Stream}
    (hst : s.streams id = some st) (hc : st.completed = false) :
    .complete id deadlineExceeded ∈ (streamTimeoutRest s id).log := by
  simp only [streamTimeoutRest, hst, completeStream, hc, Bool.false_eq_true, if_false]
  simp [State.note, State.eraseStream, tellFail, tellComplete, st.terminal]

/-- The timer of a live stream. -/
theorem streamTimeout_told {s : State} {id : Nat} {st : Stream} {d : Conf}
    (hst : s.streams id = some st) (hc : st.completed = false)
    (hd : machine.Completes ⟨(streamTimeout s id).1, (streamTimeout s id).2⟩ d) :
    .complete id deadlineExceeded ∈ d.st.log := by
  simp only [streamTimeout, hst, hc, Bool.false_eq_true, if_false] at hd
  split at hd
  · -- `rst_pending` keeps `OnStreamClose` away from the stream
    obtain ⟨s₁, ⟨st₁, hst₁, hc₁, -⟩, hd⟩ := hd.of_frame (f := .streamTimeoutRest id)
      (I := fun s => ∃ st, s.streams id = some st ∧ st.completed = false ∧ st.rstPending = true) rfl
      ⟨_, Function.update_self .., rfl, rfl⟩
      (fun e s s' gs he hi hf => by
        obtain ⟨st, hst, hc, hr⟩ := hi
        exact ⟨(fire_aside he hf).1, (fire_aside he hf).2.streams _ _ hst hc hr⟩)
      fun _ _ => rfl
    rw [hd]
    exact streamTimeoutRest_told hst₁ hc₁
  · obtain rfl := hd.eq_of_nil rfl
    exact streamTimeoutRest_told (Function.update_self ..) rfl

/-- The loop runs a timer. -/
theorem step_timer {c d : Conf} {t : Nat} {a : Alarm}
    (h : machine.step c (.event (.timer t)) = some d) (ht : c.st.timers.lookup t = some a) :
    c.frames = [] ∧ match a with
      | .call id _ => d = ⟨(callTimeout (c.st.cancelTimer t) id).1,
          (callTimeout (c.st.cancelTimer t) id).2⟩
      | .stream id _ => d = ⟨(streamTimeout (c.st.cancelTimer t) id).1,
          (streamTimeout (c.st.cancelTimer t) id).2⟩ := by
  obtain ⟨hen, s', gs, hfire, rfl⟩ := machine.step_event h
  obtain ⟨hframes, -⟩ := machine.enabled_base rfl hen
  change fire (.timer t) c.st = some (s', gs) at hfire
  refine ⟨hframes, ?_⟩
  cases a <;>
    · simp only [fire, ht] at hfire
      dsimp only
      rw [hframes, List.append_nil, Option.some.inj hfire]

/-- A timer that fires before its operation is terminal ends it. -/
theorem timer_told {c c' d : Conf} {t : Nat} {a : Alarm} (h : Timed c)
    (ht : c.st.timers.lookup t = some a) (hnot : a.token ∉ called c.st.log)
    (hs : machine.step c (.event (.timer t)) = some c') (hd : machine.Completes c' d) :
    a.expired ∈ d.st.log := by
  obtain ⟨hframes, hc'⟩ := step_timer hs ht
  have hmem : (t, a) ∈ c.st.timers := by
    obtain ⟨l₁, l₂, hl, -⟩ := List.lookup_eq_some_iff.mp ht
    simp [hl]
  have hcov := h.covered (t, a) hmem
  have hbooks := h.books
  rw [hframes] at hcov hbooks
  have hzero := List.count_eq_zero.mpr hnot
  cases a with
  | call id ms =>
      subst hc'
      have hcount : (called c.st.log).count (.done id) = if (c.st.calls id).isSome then 0 else 1 :=
        hbooks.count_done hcov.issued hcov.queued rfl
      obtain ⟨call, hcall⟩ : ∃ call, c.st.calls id = some call := by
        refine Option.isSome_iff_exists.mp ?_
        by_contra hnone
        rw [if_neg hnone] at hcount
        exact absurd (hzero.symm.trans hcount) (by decide)
      exact callTimeout_told (s := c.st.cancelTimer t) hcall (hbooks.call_live rfl hcall) hd
  | stream id ms =>
      subst hc'
      obtain ⟨st, hst, hc⟩ : ∃ st, c.st.streams id = some st ∧ st.completed = false := by
        by_contra hdead
        have hcount := hbooks.count_complete hcov.issued hcov.queued rfl fun st hst => by
          by_contra hc
          exact hdead ⟨st, hst, by simpa using hc⟩
        exact absurd (hzero.symm.trans hcount) (by decide)
      exact streamTimeout_told (s := c.st.cancelTimer t) hst hc hd

/-! ## A task sets its timer -/

/-- Until the one frame that is left has run, its timer is the only one that is set. -/
theorem completes_armed {c d : Conf} {f : Frame} (hf : c.frames = [f])
    (hexec : ∀ s, (exec f s).2 = []) (hd : machine.Completes c d) :
    d.st.armed = c.st.armed ++ f.sets.toList := by
  obtain ⟨s, hs, hst⟩ := hd.of_frame (I := fun s => s.armed = c.st.armed) hf rfl
    (fun e s s' gs he hi hfire => by
      have hne : ∀ tcp, e ≠ .task tcp := by
        rintro tcp rfl
        cases he
      exact ⟨(fire_aside he hfire).1, (fire_disarms hne hfire).armed.trans hi⟩)
    fun s _ => hexec s
  have hst : d.st = (exec f s).1 := hst
  rw [hst, (exec_sets f s).armed, hs]

theorem callTask_frames (s : State) (tcp : Option Status) (id : Nat) (path framed : Bytes)
    (timeoutMs : Nat) (call : NewCall) :
    (callTask s tcp id path framed timeoutMs call).2 = [] ∨
      ∃ sid call', (callTask s tcp id path framed timeoutMs call).2 = [.callNowRest sid id call'] := by
  unfold callTask
  dsimp only
  split
  · unfold callNow
    split
    · exact .inl rfl
    · exact .inr ⟨_, _, rfl⟩
  · exact .inl rfl
  · exact .inl rfl
  · exact .inl rfl

theorem openStreamTask_frames {s : State} (tcp : Option Status) (id : Nat) (path : Bytes)
    (timeoutMs : Nat) {events : StreamEvents} (hevents : events.onComplete = true)
    (hphase : s.phase = .ready) (htakes : s.refusing = false) :
    ∃ sid ps decoder, (openStreamTask s tcp id path events timeoutMs).2 =
      [.openStreamRest sid ps decoder] ∧ ps.id = id ∧ ps.timeoutMs = timeoutMs := by
  simp only [openStreamTask, hevents, hphase, openStreamNow, State.submit, htakes]
  exact ⟨_, _, _, rfl, rfl, rfl⟩

/-- The task of an operation with a timeout has run: its timer has been set, and no other. -/
theorem task_armed {c c' d : Conf} {tcp : Option Status} {t : Task} {ts : List Task} {a : Alarm}
    (hp : c.st.posted = t :: ts) (ha : t.alarm = some a) (hl : timely c (.event (.task tcp)))
    (hs : machine.step c (.event (.task tcp)) = some c') (hd : machine.Completes c' d) :
    d.st.armed = c.st.armed ++ [a] := by
  have harmed := (step_sets hs).armed
  obtain ⟨-, hc'⟩ := step_task hs hp
  cases t with
  | call id path framed ms call =>
      simp only [sets, hp, List.head?_cons, Option.bind_some] at harmed
      have hsets : (Task.call id path framed ms call).sets = some a := ha
      rw [hsets] at harmed
      have hframes := congrArg Resume.Conf.frames hc'
      rcases callTask_frames { c.st with posted := ts } tcp id path framed ms call with
        hnil | ⟨sid, call', hone⟩
      · rw [hd.eq_of_nil (hframes.trans hnil), harmed]
        rfl
      · rw [completes_armed (hframes.trans hone) (fun _ => rfl) hd, harmed]
        simp [Frame.sets]
  | openStream id path events ms =>
      simp only [Task.alarm] at ha
      split at ha
      · next hasked =>
          cases ha
          obtain ⟨hevents, hms⟩ : events.onComplete = true ∧ 0 < ms := by simpa using hasked
          have hne : ms ≠ 0 := by omega
          obtain ⟨hphase, htakes⟩ : c.st.phase = .ready ∧ c.st.refusing = false := by
            simpa [timely, timelyStep, hp, hevents, hne] using hl
          obtain ⟨sid, ps, decoder, hone, hid, htimeout⟩ := openStreamTask_frames
            (s := { c.st with posted := ts }) tcp id path ms hevents hphase htakes
          have hframes := congrArg Resume.Conf.frames hc'
          rw [completes_armed (hframes.trans hone) (fun _ => rfl) hd, harmed]
          simp [sets, hp, Task.sets, Frame.sets, hid, htimeout, hms]
      · cases ha
  | _ => cases ha

theorem mem_log_reach {c d : Conf} {o : Obs} (hrest : Desk.Rest Env.any (desk c.st c.frames))
    (hmem : o ∈ c.st.log) (h : machine.Reach anyStep c d) : o ∈ d.st.log :=
  (reach_desk_from (I := fun v => o ∈ v.log) (fun c l _ => Env.any_allows c l) hrest hmem
    (fun v w _ hi hm => by
      obtain ⟨os, hlog, -⟩ := Desk.log_move hm
      rw [hlog]
      exact List.mem_append_left _ hi) h).2

/-- **What the timeout covers**, in a run in which the tasks of operations with a timeout run on a
    channel that does not have to connect: such a task sets one timer, that of its operation and
    of its `timeout_ms`. A timer that fires before its operation is terminal tells
    DEADLINE_EXCEEDED by the time it has run, and the callback is never called again. -/
theorem timeout_covers (o : Options) {c : Conf} (h : machine.Reach timely (fresh o) c) :
    (∀ {t : Task} {ts : List Task} {a : Alarm} {tcp : Option Status} {c' d : Conf},
      c.st.posted = t :: ts → t.alarm = some a → timely c (.event (.task tcp)) →
      machine.step c (.event (.task tcp)) = some c' → machine.Completes c' d →
      d.st.armed = c.st.armed ++ [a]) ∧
    ∀ {t : Nat} {a : Alarm} {c' d : Conf}, c.st.timers.lookup t = some a →
      a.token ∉ called c.st.log → machine.step c (.event (.timer t)) = some c' →
      machine.Completes c' d → a.expired ∈ d.st.log ∧
        ∀ e, machine.Reach anyStep d e → (called e.st.log).count a.token = 1 := by
  have htimed := reach_timed h
  refine ⟨fun hp ha hl hs hd => task_armed hp ha hl hs hd, fun {t a c' d} ht hnot hs hd => ?_⟩
  have htold := timer_told htimed ht hnot hs hd
  refine ⟨htold, fun e he => ?_⟩
  have hd' : machine.Reach anyStep (fresh o) d :=
    ((h.mono fun _ _ _ => trivial).tail trivial hs).trans (hd.1.mono fun _ _ _ => trivial)
  have hrest := (reach_books (fun c l _ => Env.any_allows c l) hd').1
  have hmem : a.token ∈ called e.st.log :=
    List.mem_filterMap.mpr ⟨_, mem_log_reach hrest htold he, a.token_expired⟩
  have hpos := List.count_pos_iff.mpr hmem
  have hone := (reach_ordered (hd'.trans he)).1.alone a.terminal_token
  rw [Desk.spent, calledWeight, Desk.sum_single] at hone
  have hlog : (desk e.st e.frames).log = e.st.log := rfl
  rw [hlog] at hone
  omega

/-- A call on a connected channel: its timer fires. -/
theorem timeout_covers_call :
    ∃ c c' d : Conf, machine.Reach timely (fresh demo) c ∧ c.st.armed = [.call 3 50] ∧
      machine.step c (.event (.timer 1)) = some c' ∧ machine.Completes c' d ∧
      .done 3 deadlineExceeded [] ∈ d.st.log := by
  obtain ⟨c, hc, harmed, htimer, hnot, c', hc', d, hd, hframes, hframes'⟩ :
      ∃ c, machine.run timely (fresh demo) (callAndStream ++ [.event (.call (str "/c") [] 50),
        .event (.task none), .resume]) = some c ∧ c.st.armed = [.call 3 50] ∧
        c.st.timers.lookup 1 = some (.call 3 50) ∧ called c.st.log = [] ∧
        ∃ c', machine.step c (.event (.timer 1)) = some c' ∧
        ∃ d, machine.step c' .resume = some d ∧ c'.frames.isEmpty = false ∧ d.frames = [] :=
    ⟨_, rfl, rfl, rfl, rfl, _, rfl, _, rfl, rfl, rfl⟩
  have hr := Resume.System.reach_of_run _ _ _ hc
  have hrun : machine.Completes c' d :=
    ⟨.tail .refl (by simpa using hframes) hd, hframes'⟩
  have hfires := ((timeout_covers demo hr).2 htimer (by simp [hnot]) hc' hrun).1
  exact ⟨c, c', d, hr, harmed, hc', hrun, hfires⟩

/-- The timer of a call that waits for the connection has fired and the call goes on without one;
    the task of a stream that has to wait has run and has set none. -/
theorem timeout_passes_unnoticed :
    (∃ c d, machine.Reach anyStep (fresh demo) c ∧
      c.st.timers.lookup 1 = some (.call 1 50) ∧ .done 1 ∈ c.st.issued ∧ called c.st.log = [] ∧
      machine.step c (.event (.timer 1)) = some d ∧ d.frames = [] ∧ d.st.log = [] ∧
      d.st.timers = []) ∧
    ∃ c d, machine.Reach anyStep (fresh demo) c ∧
      c.st.posted = [.openStream 1 (str "/b") ⟨true, true⟩ 50] ∧
      machine.step c (.event (.task none)) = some d ∧ d.frames = [] ∧ d.st.log = [] ∧
      d.st.armed = [] := by
  refine ⟨?_, ?_⟩
  · obtain ⟨c, hc, htimer, hissued, hcalled, d, hd, hframes, hlog, htimers⟩ :
        ∃ c, machine.run anyStep (fresh demo) [.event (.call (str "/a") [] 50),
          .event (.task none)] = some c ∧ c.st.timers.lookup 1 = some (.call 1 50) ∧
          c.st.issued = [.done 1] ∧ called c.st.log = [] ∧
          ∃ d, machine.step c (.event (.timer 1)) = some d ∧ d.frames = [] ∧ d.st.log = [] ∧
            d.st.timers = [] := ⟨_, rfl, rfl, rfl, rfl, _, rfl, rfl, rfl, rfl⟩
    exact ⟨c, d, Resume.System.reach_of_run _ _ _ hc, htimer, by simp [hissued], hcalled, hd,
      hframes, hlog, htimers⟩
  · obtain ⟨c, hc, hposted, d, hd, hframes, hlog, harmed⟩ :
        ∃ c, machine.run anyStep (fresh demo) [.event (.openStream (str "/b") ⟨true, true⟩ 50)] =
          some c ∧ c.st.posted = [.openStream 1 (str "/b") ⟨true, true⟩ 50] ∧
          ∃ d, machine.step c (.event (.task none)) = some d ∧ d.frames = [] ∧ d.st.log = [] ∧
            d.st.armed = [] := ⟨_, rfl, rfl, _, rfl, rfl, rfl, rfl⟩
    exact ⟨c, d, Resume.System.reach_of_run _ _ _ hc, hposted, hd, hframes, hlog, harmed⟩

end Urpc.Channel
