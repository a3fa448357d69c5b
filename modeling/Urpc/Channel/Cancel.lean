/-
  What `Cancel` reaches.

  The task of `Cancel` looks the id up in `calls` and nowhere else. A call that waits for the
  connection is in `pending`, a stream in `pending_streams` or in `streams`: none of these is
  found, and the operation goes on as if nobody had cancelled it (`missed`). Whatever `Cancel`
  does find is terminal when the task has run, and what is in no table was terminal before.

  Tasks run in the order in which they are posted, so the task of the operation itself has run
  by then (`Behind`).

  Proved: `cancel_ends_iff`.
-/
import Urpc.Channel.Aside
import Urpc.Channel.Place
import Urpc.Channel.Terminal

namespace Urpc.Channel

open Cxx

namespace Desk

variable {v v' : Desk} {E : Env}

/-! ## The queue of tasks -/

/-- A move leaves the tasks alone, posts one at the end or takes the first. -/
theorem posted_move (hm : Move E v v') :
    v'.posted = v.posted ∨
    (∃ t, v'.posted = v.posted ++ [t] ∧ (∀ id, t.brings id = true → v.nextCallId ≤ id) ∧
      ∀ id, E.early id → t = .cancel id → id < v.nextCallId) ∨
    ∃ t, v.posted = t :: v'.posted := by
  cases hm with
  | call => exact .inr (.inl ⟨_, rfl, by simp [Task.brings], fun _ _ h => by cases h⟩)
  | openStream => exact .inr (.inl ⟨_, rfl, by simp [Task.brings], fun _ _ h => by cases h⟩)
  | streamSend | consumed =>
      exact .inr (.inl ⟨_, rfl, by simp [Task.brings], fun _ _ h => by cases h⟩)
  | post ht hearly =>
      refine .inr (.inl ⟨_, rfl, fun id h => ?_, hearly⟩)
      rw [Task.plain_brings ht] at h
      cases h
  | skip hp | callParked _ hp | streamParked hp | sendParked hp | sendQueued hp
  | sendRefused _ hp => exact .inr (.inr ⟨_, hp⟩)
  | callSubmitted _ _ hn | callFailed _ hn =>
      cases hn with
      | posted timer hp => exact .inr (.inr ⟨_, hp⟩)
      | pending => exact .inl rfl
  | streamOpened hn | streamFailed _ hn =>
      cases hn with
      | posted hp => exact .inr (.inr ⟨_, hp⟩)
      | parked => exact .inl rfl
  | _ => exact .inl rfl

/-- Behind a `Cancel` of the operation there is no task that starts it. -/
structure Behind (id : Nat) (v : Desk) : Prop where
  given : .cancel id ∈ v.posted → id < v.nextCallId
  order : v.posted.Pairwise fun t u => t = .cancel id → u.brings id = false

theorem behind_move {id : Nat} (he : E.early id) (h : Behind id v) (hm : Move E v v') :
    Behind id v' := by
  have hnext := nextCallId_move hm
  rcases posted_move hm with hp | ⟨t, hp, hbrings, hearly⟩ | ⟨t, hp⟩
  · refine ⟨fun hmem => ?_, hp ▸ h.order⟩
    have := h.given (hp ▸ hmem)
    omega
  · refine ⟨fun hmem => ?_, ?_⟩
    · rw [hp] at hmem
      rcases List.mem_append.mp hmem with hmem | hmem
      · have := h.given hmem
        omega
      · have := hearly id he (List.mem_singleton.mp hmem).symm
        omega
    · rw [hp, List.pairwise_append]
      refine ⟨h.order, List.pairwise_singleton _ _, fun u hu u' hu' hcancel => ?_⟩
      obtain rfl := List.mem_singleton.mp hu'
      subst hcancel
      have hlt := h.given hu
      by_contra hb
      have := hbrings id (by simpa using hb)
      omega
  · have hold := h.order
    rw [hp] at hold
    refine ⟨fun hmem => ?_, (List.pairwise_cons.mp hold).2⟩
    have := h.given (hp ▸ List.mem_cons_of_mem _ hmem)
    omega

end Desk

/-- Runs in which `Cancel` is called with this id only once the id has been returned. -/
def cancelsGiven (id : Nat) (c : Conf) (l : Label) : Prop :=
  l = .event (.cancel id) → id < c.st.nextCallId

instance (id : Nat) (c : Conf) (l : Label) : Decidable (cancelsGiven id c l) :=
  inferInstanceAs (Decidable (_ → _))

/-- All that is known of such a run. -/
structure Known (id : Nat) (v : Desk) : Prop where
  books : Desk.Books v
  kinds : Desk.Kinds v
  behind : Desk.Behind id v

theorem reach_known {o : Options} {id : Nat} {c : Conf}
    (h : machine.Reach (cancelsGiven id) (fresh o) c) :
    Desk.Rest { Env.any with early := (· = id) } (desk c.st c.frames) ∧
      Known id (desk c.st c.frames) := by
  refine reach_desk (I := Known id) (fun c l hl => { early := ?_ }) ?_ ?_ h
  · rintro _ rfl heq
    exact hl heq
  · exact ⟨Desk.books_fresh o, Desk.kinds_fresh o, ⟨by simp [desk, fresh], List.Pairwise.nil⟩⟩
  · intro v w hr hk hm
    exact ⟨Desk.books_move hr hk.books hm, Desk.kinds_move hk.books.issued hk.kinds hm,
      Desk.behind_move rfl hk.behind hm⟩

/-! ## The task of `Cancel` -/

theorem cancelRest_ends (s : State) (id : Nat) :
    (cancelRest s id).calls id = none ∧ .done id cancelled [] ∈ (cancelRest s id).log ∧
      (cancelRest s id).senders = s.senders := by
  unfold cancelRest
  split
  · split <;> simp [State.note, State.eraseCall, State.eraseByStream]
  · simp [State.note, State.eraseCall]

/-- The task of `Cancel` on a call that it finds. -/
theorem cancelTask_ends {s : State} {id : Nat} {call : Call} {d : Conf}
    (hcall : s.calls id = some call) (hc : call.completed = false)
    (hd : machine.Completes ⟨(cancelTask s id).1, (cancelTask s id).2⟩ d) :
    d.st.calls id = none ∧ .done id cancelled [] ∈ d.st.log ∧
      (s.open call.sid = true → .reset ∈ (d.st.senders call.sid).subs) := by
  simp only [cancelTask, hcall, hc, Bool.false_eq_true, if_false] at hd
  generalize hs₁ : State.setCall (if call.timeoutTimer ≠ 0 then s.cancelTimer call.timeoutTimer
    else s) id { call with completed := true, done := false, whole := by simp } = s₁ at hd
  have hses : s₁.session = s.session := by
    rw [← hs₁]
    split <;> rfl
  rw [hses] at hd
  split at hd
  · obtain ⟨s₂, hreset, hst⟩ := hd.of_frame (f := .cancelRest id)
      (I := fun s => .reset ∈ (s.senders call.sid).subs) rfl
      (by simp [State.resetStream, State.setSender])
      (fun e s s' gs he hi hf => ⟨(fire_aside he hf).1, (fire_aside he hf).2.resets _ hi⟩)
      fun _ _ => rfl
    have hst : d.st = cancelRest s₂ id := hst
    obtain ⟨hnone, hlog, hsenders⟩ := cancelRest_ends s₂ id
    rw [hst, hsenders]
    exact ⟨hnone, hlog, fun _ => hreset⟩
  · next hgo =>
      obtain rfl := hd.eq_of_nil rfl
      obtain ⟨hnone, hlog, -⟩ := cancelRest_ends s₁ id
      refine ⟨hnone, hlog, fun hopen => absurd ?_ hgo⟩
      simp only [State.open, Bool.and_eq_true, beq_iff_eq] at hopen
      have hsid : call.sid ≠ 0 := by omega
      simp [hsid, hopen.1.1.1]

/-! ## What it misses -/

/-- Calls that wait for the connection, and streams that wait for it or are live. -/
def missed (s : State) (id : Nat) : Bool :=
  s.pending.any (fun pc => pc.id = id) || s.pendingStreams.any (fun ps => ps.id = id) ||
    (live s id).isSome

def Obs.status : Obs → Status
  | .done _ st _ | .message _ st _ | .complete _ st | .flushed _ _ st => st

/-- The operation of the callback `t` is terminal in `d`, after a `Cancel` run from `c`. -/
structure Ended (c d : Conf) (t : Token) : Prop where
  once : (called d.st.log).count t = 1
  told : t ∉ called c.st.log →
    ∃ o ∈ d.st.log, o.token = some t ∧ o.status.code = .unavailable
  calls : d.st.calls t.id = none
  streams : live d.st t.id = none
  pending : ∀ pc ∈ d.st.pending, pc.id ≠ t.id
  parked : ∀ ps ∈ d.st.pendingStreams, ps.id ≠ t.id
  reset : ∀ sid, ((∃ call, c.st.calls t.id = some call ∧ call.sid = sid) ∨
    ∃ st, live c.st t.id = some st ∧ st.sid = sid) → c.st.open sid = true →
    .reset ∈ (d.st.senders sid).subs

/-- What `Cancel` misses is not in `calls`. -/
theorem Known.calls_none {id : Nat} {s : State} (h : Known id (desk s []))
    (hm : missed s id = true) : s.calls id = none := by
  by_contra hsome
  obtain ⟨call, hcall⟩ := Option.ne_none_iff_exists'.mp hsome
  have hlive := h.books.call_live rfl hcall
  have hdone : (desk s []).tabled (single (.done id)) = 1 := by
    rw [Desk.tabled_done h.books.bounds]
    simp [desk, hcall, callWeight, call.whole hlive, single]
  have hnot : .complete id ∉ s.issued := h.kinds id (h.books.mem_issued (by omega))
  have hone := h.books.alone (t := .done id) rfl
  simp only [missed, Bool.or_eq_true, List.any_eq_true, decide_eq_true_eq] at hm
  rcases hm with (⟨pc, hmem, rfl⟩ | ⟨ps, hmem, rfl⟩) | hm
  · have hpos := Desk.waiting_pending (v := desk s []) hmem
    omega
  · have hpos := Desk.waiting_parked (v := desk s []) hmem
    exact hnot (h.books.mem_issued (by omega))
  · obtain ⟨st, hst⟩ := Option.isSome_iff_exists.mp hm
    obtain ⟨hst, hc⟩ := of_live hst
    have hpos : (desk s []).tabled (single (.complete id)) ≠ 0 := by
      rw [Desk.tabled_complete h.books.bounds]
      simp [desk, hst, streamWeight, hc, single]
    exact hnot (h.books.mem_issued (by omega))

theorem missed_eq_false {s : State} {id : Nat} : missed s id = false ↔
    (∀ pc ∈ s.pending, pc.id ≠ id) ∧ (∀ ps ∈ s.pendingStreams, ps.id ≠ id) ∧
      live s id = none := by
  simp [missed, and_assoc]

/-- Behind the `Cancel` that runs, an operation that it does not miss has left the queues. -/
theorem Known.arrived {id : Nat} {s : State} {ts : List Task} (h : Known id (desk s []))
    (hposted : s.posted = .cancel id :: ts) (hm : missed s id = false) :
    (desk s []).Arrived id := by
  obtain ⟨hpending, hparked, -⟩ := missed_eq_false.mp hm
  have horder := h.behind.order
  simp only [desk, hposted, List.pairwise_cons] at horder
  have htasks : ts.countP (Task.brings id) = 0 :=
    List.countP_eq_zero.mpr fun t ht => by simp [horder.1 t ht trivial]
  have hzero : s.pending.countP (fun pc => pc.id = id) = 0 :=
    List.countP_eq_zero.mpr fun pc hpc => by simp [hpending pc hpc]
  have hzero' : s.pendingStreams.countP (fun ps => ps.id = id) = 0 :=
    List.countP_eq_zero.mpr fun ps hps => by simp [hparked ps hps]
  refine ⟨h.behind.given (by simp [desk, hposted]), ?_⟩
  simp [Desk.coming, desk, hposted, htasks, hzero, hzero', Task.brings]

/-- An operation that is in no table and no queue has been told. -/
theorem Desk.Books.told {v : Desk} {t : Token} (hb : Books v) (ht : t.terminal = true)
    (hi : t ∈ v.issued) (ha : v.Arrived t.id) (htodo : v.todo = []) (hcalls : v.calls t.id = none)
    (hdead : ∀ st, v.streams t.id = some st → st.completed = true) :
    (called v.log).count t = 1 := by
  cases t with
  | done id =>
      have hcalls : v.calls id = none := hcalls
      simpa [hcalls] using hb.count_done hi ha.queued htodo
  | complete id => exact hb.count_complete hi ha.queued htodo hdead
  | flushed => cases ht

/-- From here on `t` is issued, its operation does not come any more and is no live stream. -/
structure Settled (t : Token) (v : Desk) : Prop where
  issued : t ∈ v.issued
  arrived : v.Arrived t.id
  dead : ∀ st, v.streams t.id = some st → st.completed = true

theorem settled_move {E : Env} {v v' : Desk} {t : Token} (h : Settled t v)
    (hm : Desk.Move E v v') : Settled t v' := by
  obtain ⟨new, hissued, -⟩ := Desk.issued_new_move hm
  exact ⟨hissued ▸ List.mem_append_left _ h.issued, Desk.arrived_move hm h.arrived,
    Desk.dead_move h.arrived h.dead hm⟩

theorem settled_known {t : Token} {s : State} {ts : List Task} (h : Known t.id (desk s []))
    (hi : t ∈ s.issued) (hposted : s.posted = .cancel t.id :: ts)
    (hm : missed s t.id = false) : Settled t (desk s []) := by
  obtain ⟨-, -, hlive⟩ := missed_eq_false.mp hm
  refine ⟨hi, h.arrived hposted hm, fun st hst => ?_⟩
  by_contra hc
  rw [live_eq hst (by simpa using hc)] at hlive
  cases hlive

/-- Such an operation is terminal, if it is not in `calls`. -/
theorem Settled.ended {c d : Conf} {t : Token} (ht : t.terminal = true)
    (hb : Desk.Books (desk d.st [])) (h : Settled t (desk d.st [])) (hlive : live c.st t.id = none)
    (hnone : d.st.calls t.id = none)
    (htold : t ∉ called c.st.log →
      ∃ o ∈ d.st.log, o.token = some t ∧ o.status.code = .unavailable)
    (hreset : ∀ call, c.st.calls t.id = some call → c.st.open call.sid = true →
      .reset ∈ (d.st.senders call.sid).subs) : Ended c d t := by
  have hzero := h.arrived.2
  simp only [Desk.coming, desk] at hzero
  refine ⟨hb.told ht h.issued h.arrived rfl hnone h.dead, htold, hnone, ?_, ?_, ?_, ?_⟩
  · by_contra hsome
    obtain ⟨st, hst⟩ := Option.ne_none_iff_exists'.mp hsome
    obtain ⟨hst, hc⟩ := of_live hst
    rw [h.dead st hst] at hc
    cases hc
  · intro pc hpc
    simpa using List.countP_eq_zero.mp
      (show d.st.pending.countP (fun pc => pc.id = t.id) = 0 by omega) pc hpc
  · intro ps hps
    simpa using List.countP_eq_zero.mp
      (show d.st.pendingStreams.countP (fun ps => ps.id = t.id) = 0 by omega) ps hps
  · rintro sid (⟨call, hcall, rfl⟩ | ⟨st, hst, -⟩) hopen
    · exact hreset call hcall hopen
    · rw [hlive] at hst
      cases hst

/-- **What `Cancel` reaches.** After the task of `Cancel` has run, the operation is terminal:
    exactly if, when the task was run, it was not a call that waited for the connection, nor a
    stream that waited for it or was live. -/
theorem cancel_ends_iff (o : Options) {c c' d : Conf} {ts : List Task} {tcp : Option Status}
    {t : Token} (ht : t.terminal = true) (h : machine.Reach (cancelsGiven t.id) (fresh o) c)
    (hi : t ∈ c.st.issued) (hposted : c.st.posted = .cancel t.id :: ts)
    (hs : machine.step c (.event (.task tcp)) = some c') (hd : machine.Completes c' d) :
    Ended c d t ↔ missed c.st t.id = false := by
  obtain ⟨hrest, hknown⟩ := reach_known h
  obtain ⟨hframes, hc'⟩ := step_task hs hposted
  rw [hframes] at hknown
  constructor
  · intro hended
    by_contra hmissed
    have hmissed : missed c.st t.id = true := by simpa using hmissed
    have hnone := hknown.calls_none hmissed
    simp only [runTask, cancelTask, hnone] at hc'
    subst hc'
    obtain rfl := hd.eq_of_nil rfl
    have hno : missed c.st t.id = false :=
      missed_eq_false.mpr ⟨hended.pending, hended.parked, hended.streams⟩
    rw [hno] at hmissed
    cases hmissed
  · intro hmissed
    have hall : machine.Reach anyStep c d :=
      (Resume.System.Reach.tail .refl trivial hs).trans (hd.1.mono fun _ _ _ => trivial)
    have hset := settled_known hknown hi hposted hmissed
    have hrest : Desk.Rest Env.any (desk c.st c.frames) := { hrest with clear := False.elim }
    obtain ⟨-, hset'⟩ := reach_desk_from (fun c l _ => Env.any_allows c l) hrest
      (hframes ▸ hset) (fun _ _ _ => settled_move) hall
    have hbooks := (reach_ordered ((h.mono fun _ _ _ => trivial).trans hall)).1
    rw [hd.2] at hbooks hset'
    suffices key : d.st.calls t.id = none ∧
        (t ∉ called c.st.log → ∃ o ∈ d.st.log, o.token = some t ∧ o.status.code = .unavailable) ∧
        ∀ call, c.st.calls t.id = some call → c.st.open call.sid = true →
          .reset ∈ (d.st.senders call.sid).subs from
      Settled.ended ht hbooks hset' (missed_eq_false.mp hmissed).2.2 key.1 key.2.1 key.2.2
    cases hcall : c.st.calls t.id with
    | none =>
        have hnone := (reach_desk_from (I := fun v => v.Arrived t.id ∧ v.calls t.id = none)
          (fun c l _ => Env.any_allows c l) hrest ⟨hframes ▸ hset.arrived, hcall⟩
          (fun _ _ _ hi hm => ⟨Desk.arrived_move hm hi.1, Desk.calls_none_move hi.1 hi.2 hm⟩)
          hall).2.2
        refine ⟨hnone, fun hnot => ?_, fun _ h => by cases h⟩
        have hone : (called c.st.log).count t = 1 :=
          hknown.books.told ht hi hset.arrived rfl hcall hset.dead
        exact absurd (List.count_pos_iff.mp (by omega)) hnot
    | some call =>
        have hlive := hknown.books.call_live rfl hcall
        rw [hc'] at hd
        obtain ⟨hnone, hlog, hreset⟩ := cancelTask_ends (s := { c.st with posted := ts }) hcall
          hlive hd
        refine ⟨hnone, fun hnot => ?_, fun call' heq => ?_⟩
        · cases t with
          | done id => exact ⟨_, hlog, rfl, rfl⟩
          | complete id =>
              have hone : (called c.st.log).count (.complete id) = 1 :=
                hknown.books.count_complete hi hset.arrived.queued rfl hset.dead
              exact absurd (List.count_pos_iff.mp (by omega)) hnot
          | flushed => cases ht
        · cases heq
          exact hreset

/-- A call that has been submitted. -/
theorem cancel_ends_submitted : ∃ c d, Ended c d (.done 1) ∧ called d.st.log = [.done 1] := by
  obtain ⟨c, hc, c', hc', d, hd, hframes, hframes', hposted, hissued, hmissed, hlog⟩ :
      ∃ c, machine.run (cancelsGiven 1) (fresh demo) (callAndStream ++ [.event (.cancel 1)]) =
        some c ∧ ∃ c', machine.step c (.event (.task none)) = some c' ∧
        ∃ d, machine.step c' .resume = some d ∧ c'.frames.isEmpty = false ∧ d.frames = [] ∧
        c.st.posted = [.cancel 1] ∧ c.st.issued = [.done 1, .complete 2] ∧
        missed c.st 1 = false ∧ called d.st.log = [.done 1] :=
    ⟨_, rfl, _, rfl, _, rfl, rfl, rfl, rfl, rfl, rfl, rfl⟩
  have hrun : machine.Completes c' d :=
    ⟨.tail .refl (by simpa using hframes) hd, hframes'⟩
  exact ⟨c, d, (cancel_ends_iff demo (t := .done 1) rfl (Resume.System.reach_of_run _ _ _ hc)
    (by simp [hissued]) hposted hc' hrun).mpr hmissed, hlog⟩

/-- `Cancel` of a call that waits for the connection, of a stream that waits for it and of a
    live stream: the task has run and nobody has been told. -/
theorem cancel_misses :
    (∃ c d, machine.Reach (cancelsGiven 1) (fresh demo) c ∧ c.st.posted = [.cancel 1] ∧
      machine.step c (.event (.task none)) = some d ∧ d.frames = [] ∧ called d.st.log = [] ∧
      ¬ Ended c d (.done 1)) ∧
    (∃ c d, machine.Reach (cancelsGiven 1) (fresh demo) c ∧ c.st.posted = [.cancel 1] ∧
      machine.step c (.event (.task none)) = some d ∧ d.frames = [] ∧ called d.st.log = [] ∧
      ¬ Ended c d (.complete 1)) ∧
    ∃ c d, machine.Reach (cancelsGiven 2) (fresh demo) c ∧ c.st.posted = [.cancel 2] ∧
      machine.step c (.event (.task none)) = some d ∧ d.frames = [] ∧ called d.st.log = [] ∧
      ¬ Ended c d (.complete 2) := by
  have hnot : ∀ {c d : Conf} {t : Token}, called d.st.log = [] → ¬ Ended c d t := by
    intro c d t hlog hended
    have := hended.once
    simp [hlog] at this
  refine ⟨?_, ?_, ?_⟩
  · obtain ⟨c, hc, hposted, d, hd, hframes, hlog⟩ : ∃ c, machine.run (cancelsGiven 1) (fresh demo)
        [.event (.call (str "/a") [] 0), .event (.task none), .event (.cancel 1)] = some c ∧
        c.st.posted = [.cancel 1] ∧ ∃ d, machine.step c (.event (.task none)) = some d ∧
        d.frames = [] ∧ called d.st.log = [] := ⟨_, rfl, rfl, _, rfl, rfl, rfl⟩
    exact ⟨c, d, Resume.System.reach_of_run _ _ _ hc, hposted, hd, hframes, hlog, hnot hlog⟩
  · obtain ⟨c, hc, hposted, d, hd, hframes, hlog⟩ : ∃ c, machine.run (cancelsGiven 1) (fresh demo)
        [.event (.openStream (str "/b") ⟨true, true⟩ 0), .event (.task none),
          .event (.cancel 1)] = some c ∧
        c.st.posted = [.cancel 1] ∧ ∃ d, machine.step c (.event (.task none)) = some d ∧
        d.frames = [] ∧ called d.st.log = [] := ⟨_, rfl, rfl, _, rfl, rfl, rfl⟩
    exact ⟨c, d, Resume.System.reach_of_run _ _ _ hc, hposted, hd, hframes, hlog, hnot hlog⟩
  · obtain ⟨c, hc, hposted, d, hd, hframes, hlog⟩ : ∃ c, machine.run (cancelsGiven 2) (fresh demo)
        (callAndStream ++ [.event (.cancel 2)]) = some c ∧
        c.st.posted = [.cancel 2] ∧ ∃ d, machine.step c (.event (.task none)) = some d ∧
        d.frames = [] ∧ called d.st.log = [] := ⟨_, rfl, rfl, _, rfl, rfl, rfl⟩
    exact ⟨c, d, Resume.System.reach_of_run _ _ _ hc, hposted, hd, hframes, hlog, hnot hlog⟩

end Urpc.Channel
