/-
  Half-closing a client stream.

  The intent to close is a flag: `send_closed` of an open stream, or `close` of a queued
  message. `StreamSend` looks at the first only. A message that is accepted behind a queued
  close goes out after the body with END_STREAM, or with a second END_STREAM
  (`send_overtakes_close`). If every message that is accepted joins a queue that no message
  closes, a half-close is final, happens once, and later sends are refused.

  Proved: `half_close_final`.
-/
import Urpc.Channel.Outbox

namespace Urpc.Channel

open Cxx

/-- A body with END_STREAM. -/
def halfCloses : Submission → Bool
  | .data _ endStream => endStream
  | _ => false

/-- No body is submitted after a body with END_STREAM. -/
def Final (subs : List Submission) : Prop :=
  ∀ before body after, subs = before ++ .data body true :: after → bodies after = []

/-- Only the last message closes the stream. -/
def ClosesLast (queue : List OutMsg) : Prop := ∀ m ∈ queue.dropLast, m.close = false

/-! ## Submissions -/

section Submissions

variable {subs : List Submission}

theorem Final.once (h : Final subs) : (subs.filter halfCloses).length ≤ 1 := by
  induction subs with
  | nil => simp
  | cons s subs ih =>
      have htail : Final subs := by
        intro before body after heq
        exact h (s :: before) body after (by rw [heq]; rfl)
      by_cases hs : halfCloses s = true
      · have hbodies : bodies subs = [] := by
          cases s with
          | data body endStream =>
              obtain rfl : endStream = true := hs
              exact h [] body subs rfl
          | _ => cases hs
        have hnone : subs.filter halfCloses = [] := by
          refine List.filter_eq_nil_iff.mpr ?_
          intro t ht hclose
          cases t with
          | data body endStream =>
              obtain ⟨before, after, heq⟩ := List.append_of_mem ht
              rw [heq, bodies_append, List.append_eq_nil_iff] at hbodies
              cases hbodies.2
          | _ => cases hclose
        simp [hs, hnone]
      · simpa [hs] using ih htail

/-- Where a half-close can be among the submissions and one more. -/
theorem split_push {s : Submission} {before after : List Submission} {body : Bytes}
    (h : subs ++ [s] = before ++ .data body true :: after) :
    after = [] ∨ ∃ init, subs = before ++ .data body true :: init ∧ after = init ++ [s] := by
  rcases List.eq_nil_or_concat after with rfl | ⟨init, x, rfl⟩
  · exact .inl rfl
  · refine .inr ⟨init, ?_⟩
    have heq : subs ++ [s] = (before ++ .data body true :: init) ++ [x] := by simpa using h
    obtain ⟨hinit, hlast⟩ := List.append_inj' heq rfl
    exact ⟨hinit, by rw [List.cons.inj hlast |>.1, List.concat_eq_append]⟩

/-- The first half-close may come at any time. -/
theorem Final.push (h : ∀ body, .data body true ∉ subs) (s : Submission) : Final (subs ++ [s]) := by
  intro before body after heq
  rcases split_push heq with rfl | ⟨init, hinit, -⟩
  · rfl
  · exact absurd (hinit ▸ by simp) (h body)

theorem Final.reset (h : Final subs) : Final (subs ++ [.reset]) := by
  intro before body after heq
  rcases split_push heq with rfl | ⟨init, hinit, rfl⟩
  · rfl
  · rw [bodies_append, h before body init hinit]
    rfl

end Submissions

/-! ## Queues -/

theorem closeLast_dropLast (queue : List OutMsg) :
    (closeLast queue).dropLast = queue.dropLast ∧ (closeLast queue = [] ↔ queue = []) := by
  induction queue using closeLast.induct with
  | case1 => exact ⟨rfl, Iff.rfl⟩
  | case2 m => exact ⟨rfl, by simp [closeLast]⟩
  | case3 m ms hne ih =>
      have hms : ms ≠ [] := fun h => hne h
      rw [closeLast]
      · refine ⟨?_, by simp⟩
        rw [List.dropLast_cons_of_ne_nil hms, List.dropLast_cons_of_ne_nil (ih.2.not.mpr hms), ih.1]
      · exact hne

theorem ClosesLast.closeLast {queue : List OutMsg} (h : ClosesLast queue) :
    ClosesLast (closeLast queue) := by
  rw [ClosesLast, (closeLast_dropLast queue).1]
  exact h

theorem ClosesLast.closeQueue {queue : List OutMsg} (h : ClosesLast queue) :
    ClosesLast (closeQueue queue) := by
  unfold Channel.closeQueue
  split
  · intro m hm
    cases hm
  · exact h.closeLast

theorem ClosesLast.seedQueue {queue : List OutMsg} (h : ClosesLast queue) :
    ClosesLast (seedQueue queue) := by
  unfold Channel.seedQueue
  split
  · exact h.closeLast
  · exact h

theorem ClosesLast.tail {m : OutMsg} {queue : List OutMsg} (h : ClosesLast (m :: queue)) :
    ClosesLast queue ∧ (m.close = true → queue = []) := by
  by_cases hq : queue = []
  · exact ⟨by simp [hq, ClosesLast], fun _ => hq⟩
  · rw [ClosesLast, List.dropLast_cons_of_ne_nil hq] at h
    refine ⟨fun m' hm => h m' (List.mem_cons_of_mem _ hm), fun hc => ?_⟩
    rw [h m List.mem_cons_self] at hc
    cases hc

/-! ## Outboxes -/

namespace Outbox

structure Closing (b : Outbox) : Prop where
  final : Final b.h2.subs
  first : b.sendClosed = false → ∀ body, .data body true ∉ b.h2.subs
  spent : b.sendClosed = true → b.queue = []
  last : ClosesLast b.queue
  early : b.stage ≠ .open → b.sendClosed = false

/-- Runs in which messages join open queues only. -/
def sending : Env := { Env.any with final := True }

theorem Closing.keep {a b : Outbox} (h : Closing a) (hstage : b.stage = a.stage)
    (hqueue : b.queue = a.queue) (hclosed : b.sendClosed = a.sendClosed)
    (hsubs : b.h2.subs = a.h2.subs) : Closing b := by
  obtain ⟨hf, h1, hs, hl, he⟩ := h
  rw [← hsubs] at hf h1
  rw [← hclosed] at h1 hs he
  rw [← hqueue] at hs hl
  rw [← hstage] at he
  exact ⟨hf, h1, hs, hl, he⟩

theorem closing_step {a b : Outbox} (hs : Step sending a b) (h : Closing a) : Closing b := by
  cases hs with
  | send m hstage hopen =>
      have hno : a.sendClosed = false := by
        rcases hstage with hp | ⟨-, hc⟩
        · exact h.early (by simp [hp])
        · exact hc
      refine ⟨h.final, h.first, fun hc => ?_, ?_, h.early⟩
      · rw [show a.sendClosed = true from hc] at hno
        cases hno
      · intro m' hm
        rw [List.dropLast_concat] at hm
        exact hopen trivial m' hm
  | closeParked hp =>
      have hno : a.sendClosed = false := h.early (by simp [hp])
      refine ⟨h.final, h.first, fun hc => ?_, h.last.closeQueue, h.early⟩
      rw [show a.sendClosed = true from hc] at hno
      cases hno
  | opened fields hp =>
      have hno : a.sendClosed = false := h.early (by simp [hp])
      refine ⟨?_, fun _ body => by simp, h.spent, h.last, fun _ => hno⟩
      rw [Sender.sendHeaders_subs]
      exact Final.push (by simp) _
  | registered hp =>
      have hno : a.sendClosed = false := h.early (by simp [hp])
      refine ⟨h.final, h.first, fun hc => ?_, h.last.seedQueue, fun _ => hno⟩
      rw [show a.sendClosed = true from hc] at hno
      cases hno
  | credit n => exact h.keep rfl rfl rfl (Sender.credit_subs _ n)
  | close => exact h.keep rfl rfl rfl (Sender.close_subs _)
  | reset =>
      refine ⟨h.final.reset, ?_, h.spent, h.last, h.early⟩
      intro hc body
      simpa using h.first hc body
  | consumed => exact h.keep rfl rfl rfl rfl
  | closeQueued hst hq =>
      refine ⟨h.final, h.first, fun hc => ?_, h.last.closeLast, h.early⟩
      exact absurd (h.spent hc) hq
  | closeMarked hst hq =>
      exact ⟨h.final, nofun, fun _ => hq, h.last, fun hne => absurd hst hne⟩
  | closeSent hst hq hsc =>
      refine ⟨?_, nofun, fun _ => hq, h.last, fun hne => absurd hst hne⟩
      rw [Sender.sendData_subs]
      exact Final.push (h.first hsc) _
  | @pumped out queue hst hq hi =>
      have hno : a.sendClosed = false := by
        by_contra hc
        rw [h.spent (by simpa using hc)] at hq
        cases hq
      obtain ⟨hlast, hend⟩ := (hq ▸ h.last).tail
      refine ⟨?_, ?_, ?_, hlast, fun hne => absurd hst hne⟩
      · rw [Sender.sendData_subs]
        exact Final.push (h.first hno) _
      · intro hc body
        simp only [hno, Bool.false_or] at hc
        simpa [hc] using h.first hno body
      · intro hc
        simp only [hno, Bool.false_or] at hc
        exact hend hc

theorem closing_kept : Kept sending Closing fun h2 => Final h2.subs where
  new id := by
    refine ⟨?_, nofun, nofun, nofun, fun _ => rfl⟩
    intro before body after h
    simp at h
  step _ _ hs h := closing_step hs h
  sender _ h := h.final
  quiet h2 _ hq h := by
    cases hq with
    | credit n => rwa [Sender.credit_subs]
    | close => exact h
    | reset => exact h.reset
    | noted => exact h
  request fields body := by
    unfold submitRequest
    dsimp only
    split
    · rw [Sender.sendHeaders_subs]
      exact Final.push (by simp) _
    · rw [Sender.sendData_subs]
      exact Final.push (by simp) _

end Outbox

/-! ## A side that is closed stays closed -/

/-- Some message of the queue closes the stream. -/
def Closed (queue : List OutMsg) : Prop := ∃ m ∈ queue, m.close = true

theorem closed_closeLast {queue : List OutMsg} (h : queue ≠ []) : Closed (closeLast queue) := by
  induction queue using closeLast.induct with
  | case1 => exact absurd rfl h
  | case2 m => exact ⟨_, List.mem_cons_self, rfl⟩
  | case3 m ms hne ih =>
      obtain ⟨m', hm, hc⟩ := ih fun hms => hne hms
      rw [closeLast]
      · exact ⟨m', List.mem_cons_of_mem _ hm, hc⟩
      · exact hne

theorem closed_closeQueue (queue : List OutMsg) : Closed (closeQueue queue) := by
  unfold closeQueue
  split
  · exact ⟨_, List.mem_cons_self, rfl⟩
  · next hq => exact closed_closeLast (by simpa using hq)

theorem Closed.seedQueue {queue : List OutMsg} (h : Closed queue) : Closed (seedQueue queue) := by
  have hany : queue.any OutMsg.close = true := List.any_eq_true.mpr h
  rw [Channel.seedQueue, if_pos hany]
  obtain ⟨m, hm, -⟩ := h
  exact closed_closeLast (List.ne_nil_of_mem hm)

/-- The user has closed the sending side. -/
def Outbox.Shut (b : Outbox) : Prop := b.sendClosed = true ∨ Closed b.queue

theorem Outbox.shut_step {E : Env} {a b : Outbox} (hs : Step E a b) (h : Shut a) : Shut b := by
  cases hs with
  | send m =>
      rcases h with h | ⟨m', hm, hc⟩
      · exact .inl h
      · exact .inr ⟨m', List.mem_append_left _ hm, hc⟩
  | closeParked => exact .inr (closed_closeQueue _)
  | registered => exact h.imp_right Closed.seedQueue
  | closeQueued hst hq => exact .inr (closed_closeLast hq)
  | closeMarked | closeSent => exact .inl rfl
  | pumped hst hq hi =>
      rcases h with h | ⟨m, hm, hc⟩
      · exact .inl (by simp [h])
      · rw [hq] at hm
        rcases List.mem_cons.mp hm with rfl | hm
        · exact .inl (by simp [hc])
        · exact .inr ⟨m, hm, hc⟩
  | _ => exact h

namespace Desk

variable {v v' : Desk} {E : Env} {id : Nat}

/-- The sending side of the stream `id` is closed, or the stream is over. -/
structure Shut (v : Desk) (id : Nat) : Prop where
  fresh : id < v.nextCallId
  left : (v.posted.map (taskWeight (single (.complete id)))).sum = 0
  boxes : ∀ b, v.Holds b → b.id = id → b.Shut

theorem shut_move (ht : Ties v) (h : Shut v id) (hm : Move E v v') : Shut v' id := by
  have hposted := posted_complete_move h.fresh hm
  have hzero := h.left
  refine ⟨Nat.lt_of_lt_of_le h.fresh (nextCallId_move hm), by omega, ?_⟩
  intro b hb hid
  obtain ⟨a, ha, hab⟩ := holds_move ht.toBooks ht.toOwned ht.toBegun hm hb
  have hid : a.id = id := by
    cases hab with
    | refl => exact hid
    | single hs => rw [← hs.id_eq, hid]
  have hshut : a.Shut := by
    rcases ha with ha | ⟨-, hpos⟩
    · exact h.boxes a ha hid
    · rw [hid] at hpos
      exact absurd hzero hpos
  cases hab with
  | refl => exact hshut
  | single hs => exact Outbox.shut_step hs hshut

/-- A live stream is marked or gets a closing message. -/
theorem Shut.ofLive (ht : Ties v) {st st' : Stream} (hst : v.streams id = some st)
    (hc : st.completed = false) (hparked : v'.parked = v.parked) (htodo : v'.todo = v.todo)
    (hstreams : v'.streams = Function.update v.streams id (some st'))
    (hposted : (v'.posted.map (taskWeight (single (.complete id)))).sum ≤
      (v.posted.map (taskWeight (single (.complete id)))).sum)
    (hnext : v'.nextCallId = v.nextCallId) (hshut : st'.sendClosed = true ∨ Closed st'.outQueue) :
    Shut v' id := by
  obtain ⟨hzero, hnotParked, hnotOpening⟩ := ht.live_alone hst hc
  refine ⟨hnext ▸ ht.bounds.stream_lt hst, by omega, ?_⟩
  intro b hb hid
  cases hb with
  | @parked ps hps => exact absurd hid (hnotParked ps (hparked ▸ hps))
  | @opening sid ps decoder hf => exact absurd hid (hnotOpening sid ps decoder (htodo ▸ hf))
  | @live id' st2 hst2 hc2 =>
      obtain rfl : id' = id := hid
      rw [hstreams, Function.update_self, Option.some.injEq] at hst2
      subst hst2
      exact hshut

/-- A parked stream gets a closing message. -/
theorem Shut.ofParked (ht : Ties v) {ps : PendingStream} {f : PendingStream → PendingStream}
    (hps : v.parked.find? (fun ps => ps.id = id) = some ps)
    (hparked : v'.parked = updateParked id f v.parked) (htodo : v'.todo = v.todo)
    (hstreams : v'.streams = v.streams)
    (hposted : (v'.posted.map (taskWeight (single (.complete id)))).sum ≤
      (v.posted.map (taskWeight (single (.complete id)))).sum)
    (hnext : v'.nextCallId = v.nextCallId) (hshut : Closed (f ps).outQueue) : Shut v' id := by
  have hmem := List.mem_of_find?_eq_some hps
  obtain rfl : ps.id = id := by simpa using List.find?_some hps
  obtain ⟨hzero, hone, hnotLive, hnotOpening⟩ := ht.parked_alone hmem
  refine ⟨hnext ▸ ht.parked_lt hmem, by omega, ?_⟩
  intro b hb hid
  cases hb with
  | @parked ps' hps' =>
      rw [hparked] at hps'
      rcases mem_updateParked hone hps' with ⟨old, hfind, rfl⟩ | ⟨-, hne⟩
      · rw [hps, Option.some.injEq] at hfind
        subst hfind
        exact .inr hshut
      · exact absurd hid hne
  | @opening sid ps' decoder hf => exact absurd hid (hnotOpening sid ps' decoder (htodo ▸ hf))
  | @live id' st hst hc =>
      obtain rfl : id' = ps.id := hid
      rw [hnotLive st (hstreams ▸ hst)] at hc
      cases hc

end Desk

/-! ## Tasks that close -/

/-- The stream is parked or live. -/
def known (s : State) (id : Nat) : Bool :=
  (live s id).isSome || (s.pendingStreams.find? fun ps => ps.id = id).isSome

/-- `StreamSend` puts the message in a queue. -/
def accepts (s : State) (id : Nat) : Bool :=
  match live s id with
  | some st => !st.sendClosed && st.outQueue.length < 64
  | none => (s.pendingStreams.find? fun ps => ps.id = id).any fun ps => ps.outQueue.length < 64

/-- The task closes the sending side of the stream `id`. -/
def closesSide (s : State) (id : Nat) : Task → Bool
  | .streamCloseSend id' => id' == id && known s id
  | .streamSend id' _ _ close => id' == id && close && accepts s id
  | _ => false

theorem Desk.Shut.pumped {s : State} {fs : List Frame} {id id' : Nat}
    (hr : Desk.Rest .any (desk s fs)) (ht : Desk.Ties (desk s fs)) (h : Desk.Shut (desk s fs) id) :
    Desk.Shut (desk (pumpStream s id') fs) id :=
  (hr.moves (I := fun v => Desk.Ties v ∧ Desk.Shut v id) ⟨ht, h⟩
    (fun _ _ hr hi hm => ⟨Desk.ties_move hr hi.1 hm, Desk.shut_move hi.1 hi.2 hm⟩)
    (pumpStream_moves id' not_false)).2.2

theorem streamCloseSendTask_shut {s : State} {ts : List Task} {fs : List Frame} {id : Nat}
    (ht : Desk.Ties (desk s fs)) (hp : s.posted = .streamCloseSend id :: ts)
    (hknown : known s id = true) :
    Desk.Shut (desk (streamCloseSendTask { s with posted := ts } id) fs) id := by
  have hposted : (ts.map (taskWeight (single (.complete id)))).sum ≤
      (s.posted.map (taskWeight (single (.complete id)))).sum := by
    rw [hp, List.map_cons, List.sum_cons]
    omega
  unfold streamCloseSendTask
  split
  · next hlive =>
      have hlive : live s id = none := hlive
      obtain ⟨ps, hps⟩ : ∃ ps, s.pendingStreams.find? (fun ps => ps.id = id) = some ps :=
        Option.isSome_iff_exists.mp (by simpa [known, hlive] using hknown)
      exact .ofParked ht hps rfl rfl rfl hposted rfl (closed_closeQueue _)
  · next st hlive =>
      have hlive : live s id = some st := hlive
      obtain ⟨hst, hc⟩ := of_live hlive
      split
      · next hsc =>
          have hsame : s.streams = Function.update s.streams id (some st) :=
            (Function.update_eq_self_iff.mpr hst.symm).symm
          exact .ofLive ht hst hc rfl rfl hsame hposted rfl (.inl hsc)
      · split
        · dsimp only
          split <;> exact .ofLive ht hst hc rfl rfl rfl hposted rfl (.inl rfl)
        · next hq =>
            exact .ofLive ht hst hc rfl rfl rfl hposted rfl
              (.inr (closed_closeLast (by simpa using hq)))

theorem streamSendTask_shut {s : State} {ts : List Task} {fs : List Frame} {id : Nat}
    {framed : Bytes} {cb : Option CbId} (hr : Desk.Rest .any (desk s fs))
    (ht : Desk.Ties (desk s fs)) (hp : s.posted = .streamSend id framed cb true :: ts)
    (hacc : accepts s id = true) :
    Desk.Shut (desk (streamSendTask { s with posted := ts } id framed cb true) fs) id := by
  have hposted : (ts.map (taskWeight (single (.complete id)))).sum ≤
      (s.posted.map (taskWeight (single (.complete id)))).sum := by
    rw [hp, List.map_cons, List.sum_cons]
    omega
  have hclosed : ∀ queue : List OutMsg, Closed (queue ++ [⟨framed, true, cb⟩]) :=
    fun queue => ⟨_, List.mem_append_right _ List.mem_cons_self, rfl⟩
  unfold streamSendTask
  split
  · next hlive =>
      have hlive : live s id = none := hlive
      rw [accepts, hlive] at hacc
      cases hps : s.pendingStreams.find? (fun ps => ps.id = id) with
      | none =>
          rw [hps] at hacc
          cases hacc
      | some ps =>
          have hroom : ps.outQueue.length < 64 := by simpa [hps] using hacc
          simp only
          rw [if_neg (by omega)]
          exact .ofParked ht hps rfl rfl rfl hposted rfl (hclosed _)
  · next st hlive =>
      have hlive : live s id = some st := hlive
      obtain ⟨hst, hc⟩ := of_live hlive
      rw [accepts, hlive] at hacc
      obtain ⟨hsc, hroom⟩ : st.sendClosed = false ∧ st.outQueue.length < 64 := by simpa using hacc
      rw [if_neg (by simp [hsc]), if_neg (by omega)]
      -- the message joins the queue, then the queue is pumped
      have hmove : Desk.Move .any (desk s fs) (desk (State.setStream { s with
          posted := ts, accepted := s.accepted ++ [(id, framed)] } id { st with
            outQueue := st.outQueue ++ [⟨framed, true, cb⟩] }) fs) :=
        .sendQueued hp hst hc hsc False.elim hroom not_false
      refine .pumped (Desk.rest_move hr hmove) (Desk.ties_move hr ht hmove) ?_
      exact .ofLive ht hst hc rfl rfl rfl hposted rfl (.inr (hclosed _))

/-! ## Runs -/

/-- Steps in which every message that is accepted joins a queue that no message closes. -/
def sendsBeforeClose (c : Conf) (l : Label) : Prop := sendsOpen c l = true

instance (c : Conf) (l : Label) : Decidable (sendsBeforeClose c l) :=
  inferInstanceAs (Decidable (sendsOpen c l = true))

theorem sendsBeforeClose_allows (c : Conf) (l : Label) (h : sendsBeforeClose c l) :
    Outbox.sending.Allows c l :=
  { final := fun _ => h }

/-- A message that is sent when the side is closed is refused. -/
theorem streamSendTask_refused {s : State} {ts : List Task} {fs : List Frame} {id : Nat}
    {framed : Bytes} {cb : CbId} {close : Bool} (hshut : Desk.Shut (desk s fs) id)
    (hopen : joinsOpen s id = true) :
    ∃ st, st.ok = false ∧ (streamSendTask { s with posted := ts } id framed (some cb) close).log =
      s.log ++ [.flushed id cb st] := by
  have hnone : ∀ {queue : List OutMsg}, Closed queue → (queue.all fun m => !m.close) = false := by
    intro queue h
    obtain ⟨m, hm, hc⟩ := h
    rw [Bool.eq_false_iff]
    intro hall
    have := List.all_eq_true.mp hall m hm
    simp [hc] at this
  unfold streamSendTask
  split
  · next hlive =>
      have hlive : live s id = none := hlive
      split
      · next ps hps =>
          have hps : s.pendingStreams.find? (fun ps => ps.id = id) = some ps := hps
          have hid : ps.id = id := by simpa using List.find?_some hps
          have hclosed : Closed ps.outQueue := by
            rcases hshut.boxes _ (.parked (List.mem_of_find?_eq_some hps)) hid with h | h
            · cases h
            · exact h
          rw [joinsOpen, hlive, hps] at hopen
          have hfull : ps.outQueue.length ≥ 64 := by
            simpa [hnone hclosed] using hopen
          rw [if_pos hfull]
          exact ⟨sendQueueFull, rfl, rfl⟩
      · exact ⟨streamClosed, rfl, rfl⟩
  · next st hlive =>
      have hlive : live s id = some st := hlive
      obtain ⟨hst, hc⟩ := of_live hlive
      split
      · exact ⟨alreadyClosed, rfl, rfl⟩
      · next hsc =>
          have hclosed : Closed st.outQueue := (hshut.boxes _ (.live hst hc) rfl).resolve_left hsc
          rw [joinsOpen, hlive] at hopen
          have hfull : st.outQueue.length ≥ 64 := by
            simpa [hsc, hnone hclosed] using hopen
          rw [if_pos hfull]
          exact ⟨sendQueueFull, rfl, rfl⟩

/-- A task that closes the side leaves it closed. -/
theorem closesSide_shut {c d : Conf} {id : Nat} {tcp : Option Status} {t : Task} {ts : List Task}
    (hr : Desk.Rest .any (desk c.st c.frames)) (ht : Desk.Ties (desk c.st c.frames))
    (hp : c.st.posted = t :: ts) (hcloses : closesSide c.st id t = true)
    (h : machine.step c (.event (.task tcp)) = some d) : Desk.Shut (desk d.st d.frames) id := by
  obtain ⟨-, s, gs, hfire, rfl⟩ := Resume.System.step_event h
  have hfire : fire (.task tcp) c.st = some (s, gs) := hfire
  simp only [fire, hp] at hfire
  split at hfire
  · cases t with
    | streamCloseSend id' =>
        cases hfire
        obtain ⟨rfl, hknown⟩ : id' = id ∧ known c.st id = true := by simpa [closesSide] using hcloses
        exact streamCloseSendTask_shut ht hp hknown
    | streamSend id' framed cb close =>
        cases hfire
        obtain ⟨⟨rfl, rfl⟩, hacc⟩ : (id' = id ∧ close = true) ∧ accepts c.st id = true := by
          simpa [closesSide] using hcloses
        exact streamSendTask_shut hr ht hp hacc
    | _ => cases hcloses
  · cases hfire

/-- **A half-close is final and happens once**, in a run in which every message that is accepted
    joins a queue that no message closes. On every HTTP/2 stream at most one body with END_STREAM
    is submitted, and no body after it. Once a task has closed the sending side of a stream, every
    later `StreamSend` on the stream tells its `on_flushed` a status that is not OK. -/
theorem half_close_final (o : Options) (c : Conf)
    (h : machine.Reach sendsBeforeClose (fresh o) c) :
    (∀ sid, ((c.st.senders sid).subs.filter halfCloses).length ≤ 1 ∧
      Final (c.st.senders sid).subs) ∧
    ∀ id t ts tcp c', c.st.posted = t :: ts → closesSide c.st id t = true →
      machine.step c (.event (.task tcp)) = some c' →
      ∀ d, machine.Reach sendsBeforeClose c' d →
        ∀ framed cb close rest tcp' d', d.st.posted = .streamSend id framed (some cb) close :: rest →
          sendsBeforeClose d (.event (.task tcp')) →
          machine.step d (.event (.task tcp')) = some d' →
          ∃ st, st.ok = false ∧ d'.st.log = d.st.log ++ [.flushed id cb st] := by
  obtain ⟨-, hheld⟩ := reach_outbox Outbox.closing_kept sendsBeforeClose_allows h
  refine ⟨fun sid => ⟨(hheld.senders sid).once, hheld.senders sid⟩, ?_⟩
  intro id t ts tcp c' hp hcloses hstep d hd framed cb close rest tcp' d' hposted hok hstep'
  obtain ⟨hrest, hties⟩ := reach_desk (I := Desk.Ties) (fun c l _ => Env.any_allows c l)
    (Desk.ties_fresh o) (fun _ _ hr hi hm => Desk.ties_move hr hi hm) h
  -- the side is closed, and stays closed until the message is sent
  have hshut : Desk.Shut (desk d.st d.frames) id := by
    have hnext := step_desk (fun _ _ hr hi hm => Desk.ties_move hr hi hm) hrest hties
      (Env.any_allows c _) hstep
    have hall := hd.inv (I := fun e => Desk.Rest .any (desk e.st e.frames) ∧
        Desk.Ties (desk e.st e.frames) ∧ Desk.Shut (desk e.st e.frames) id)
      ⟨hnext.1, hnext.2, closesSide_shut hrest hties hp hcloses hstep⟩ ?_
    · exact hall.2.2
    · intro e l e' hi _ hs
      exact step_desk (I := fun v => Desk.Ties v ∧ Desk.Shut v id)
        (fun _ _ hr hi hm => ⟨Desk.ties_move hr hi.1 hm, Desk.shut_move hi.1 hi.2 hm⟩)
        hi.1 hi.2 (Env.any_allows e l) hs
  obtain ⟨-, s, gs, hfire, rfl⟩ := Resume.System.step_event hstep'
  have hfire : fire (.task tcp') d.st = some (s, gs) := hfire
  simp only [fire, hposted] at hfire
  split at hfire
  · cases hfire
    exact streamSendTask_refused hshut (by simpa [sendsBeforeClose, sendsOpen, hposted] using hok)
  · cases hfire

/-- The stream 1 on the HTTP/2 stream 1. -/
def openOne : List Label :=
  [.event (.openStream (str "/b") ⟨true, true⟩ 0), .event (.task none), .event .connected,
    .resume, .resume, .resume, .resume]

/-- A half-close, then a message: the message is refused. -/
theorem half_close_final_refuses :
    ∃ d d', machine.Reach sendsBeforeClose (fresh demo) d ∧
      machine.step d (.event (.task none)) = some d' ∧
      ((d.st.senders 1).subs.filter halfCloses).length = 1 ∧
      ∃ st, st.ok = false ∧ d'.st.log = d.st.log ++ [.flushed 1 7 st] := by
  obtain ⟨c, hc, c', hc', d, hd, d', hd', hposted, hcloses, hsend, hok, hok', hsome⟩ : ∃ c,
      machine.run sendsBeforeClose (fresh demo) (openOne ++ [.event (.streamCloseSend 1)]) =
        some c ∧
      ∃ c', machine.step c (.event (.task none)) = some c' ∧
      ∃ d, machine.run sendsBeforeClose c' [.event (.streamSend 1 [0, 0, 0, 0, 0] (some 7) false)] =
        some d ∧
      ∃ d', machine.step d (.event (.task none)) = some d' ∧
        c.st.posted = [.streamCloseSend 1] ∧ closesSide c.st 1 (.streamCloseSend 1) = true ∧
        d.st.posted = [.streamSend 1 [0, 0, 0, 0, 0] (some 7) false] ∧
        decide (sendsBeforeClose c (.event (.task none))) = true ∧
        decide (sendsBeforeClose d (.event (.task none))) = true ∧
        decide (0 < ((d.st.senders 1).subs.filter halfCloses).length) = true :=
    ⟨_, rfl, _, rfl, _, rfl, _, rfl, rfl, rfl, rfl, rfl, rfl, rfl⟩
  have hrc := Resume.System.reach_of_run _ _ _ hc
  have hrd := Resume.System.reach_of_run _ _ _ hd
  have hr := (hrc.tail (of_decide_eq_true hok) hc').trans hrd
  have honce := ((half_close_final demo d hr).1 1).1
  refine ⟨d, d', hr, hd', le_antisymm honce (of_decide_eq_true hsome), ?_⟩
  exact (half_close_final demo c hrc).2 1 _ _ none c' hposted hcloses hc' d hrd _ 7 _ _ none d'
    hsend (of_decide_eq_true hok') hd'

/-- The window is closed. The second message half-closes the stream and waits behind the first;
    the third is accepted behind it, its callback is not called, and it is submitted after
    END_STREAM. -/
theorem send_overtakes_close :
    ∃ d, machine.Reach anyStep (fresh demo) d ∧
      .flushed 1 9 ∈ d.st.issued ∧ .flushed 1 9 ∉ called d.st.log ∧ d.st.posted.length = 0 ∧
      ¬ Final (d.st.senders 1).subs := by
  obtain ⟨d, hd, hfacts⟩ := Option.map_eq_some_iff.mp (show
    (machine.run anyStep (fresh demo) (openOne ++
      [.event (.streamSend 1 [0, 0, 0, 0, 0] (some 7) false), .event (.task none),
        .event (.streamSend 1 [0, 0, 0, 0, 1, 5] (some 8) true), .event (.task none),
        .event (.streamSend 1 [0, 0, 0, 0, 1, 6] (some 9) false), .event (.task none),
        .event (.credit 1 100), .event (.consumed 1), .event (.task none),
        .event (.consumed 1), .event (.task none)])).map (fun d =>
        decide ((.flushed 1 9 ∈ d.st.issued ∧ .flushed 1 9 ∉ called d.st.log ∧
          d.st.posted.length = 0) ∧ (d.st.senders 1).subs.tail =
            [.data [0, 0, 0, 0, 0] false, .data [0, 0, 0, 0, 1, 5] true,
              .data [0, 0, 0, 0, 1, 6] false])) = some true by decide)
  obtain ⟨⟨hissued, hcalled, hposted⟩, hsubs⟩ := of_decide_eq_true hfacts
  refine ⟨d, Resume.System.reach_of_run _ _ _ hd, hissued, hcalled, hposted, ?_⟩
  intro hfinal
  cases hlist : (d.st.senders 1).subs with
  | nil => simp [hlist] at hsubs
  | cons hdrs rest =>
      rw [hlist, List.tail_cons] at hsubs
      have hnone := hfinal [hdrs, .data [0, 0, 0, 0, 0] false] _ _ (hlist.trans (by rw [hsubs]; rfl))
      simp [bodies] at hnone

end Urpc.Channel
