/-
  The send queue of a client stream.

  A message that `StreamSend` accepts joins the queue of the parked or open stream, and
  `PumpStream` takes it from there to `SendData`. Nothing else enters or leaves, except one empty
  body that `StreamCloseSend` adds where there is no message to ride on. Tasks run in the order
  they are posted, so messages are accepted in the order of the calls.

  Proved: `client_queue_conserved`.
-/
import Urpc.Channel.HalfClose

namespace Urpc.Channel

open Cxx

/-! ## One stream -/

theorem closeLast_framed (queue : List OutMsg) :
    (closeLast queue).map OutMsg.framed = queue.map OutMsg.framed := by
  induction queue using closeLast.induct with
  | case1 => rfl
  | case2 m => rfl
  | case3 m ms hne ih =>
      rw [closeLast]
      · rw [List.map_cons, List.map_cons, ih]
      · exact hne

theorem seedQueue_framed (queue : List OutMsg) :
    (seedQueue queue).map OutMsg.framed = queue.map OutMsg.framed := by
  unfold seedQueue
  split
  · exact closeLast_framed queue
  · rfl

theorem closeLast_length (queue : List OutMsg) : (closeLast queue).length = queue.length := by
  simpa using congrArg List.length (closeLast_framed queue)

theorem seedQueue_length (queue : List OutMsg) : (seedQueue queue).length = queue.length := by
  simpa using congrArg List.length (seedQueue_framed queue)

theorem closeQueue_length (queue : List OutMsg) :
    (closeQueue queue).length = max queue.length 1 := by
  unfold closeQueue
  split
  · next hq =>
      rw [List.isEmpty_iff.mp hq]
      rfl
  · next hq =>
      have hpos := List.length_pos_iff.mpr fun h => hq (List.isEmpty_iff.mpr h)
      rw [closeLast_length]
      omega

namespace Outbox

/-- The bodies submitted, then the messages queued. -/
def passed (b : Outbox) : List Bytes := bodies b.h2.subs ++ b.queue.map OutMsg.framed

/-- What was submitted or is queued is what was accepted, up to one empty body of a stream whose
    sending side is closed. -/
def Exact (b : Outbox) : Prop :=
  b.passed = b.taken ∨
    b.Shut ∧ ∃ before after, b.taken = before ++ after ∧ b.passed = before ++ [] :: after

structure Counted (b : Outbox) : Prop where
  exact : b.Exact
  short : b.queue.length ≤ 64
  waits : b.stage = .parked → b.h2.subs = [] ∧ b.sendClosed = false

theorem Exact.keep {a b : Outbox} (h : a.Exact) (htaken : b.taken = a.taken)
    (hpassed : b.passed = a.passed) (hshut : a.Shut → b.Shut) : b.Exact := by
  unfold Exact
  rw [htaken, hpassed]
  exact h.imp_right (And.imp_left hshut)

/-- The empty body is the first thing to close the stream. -/
theorem Exact.pad {a b : Outbox} (h : a.Exact) (hopen : ¬ a.Shut) (htaken : b.taken = a.taken)
    (hpassed : b.passed = a.passed ++ [[]]) (hshut : b.Shut) : b.Exact := by
  have heq : a.passed = a.taken := h.resolve_right fun hpadded => hopen hpadded.1
  refine .inr ⟨hshut, a.taken, [], ?_, ?_⟩
  · rw [htaken, List.append_nil]
  · rw [hpassed, heq]

theorem Exact.push {a b : Outbox} {framed : Bytes} (h : a.Exact)
    (htaken : b.taken = a.taken ++ [framed]) (hpassed : b.passed = a.passed ++ [framed])
    (hshut : a.Shut → b.Shut) : b.Exact := by
  unfold Exact
  rw [htaken, hpassed]
  rcases h with heq | ⟨hs, before, after, hb, ha⟩
  · exact .inl (by rw [heq])
  · refine .inr ⟨hshut hs, before, after ++ [framed], ?_, ?_⟩
    · rw [hb, List.append_assoc]
    · rw [ha, List.append_assoc, List.cons_append]

theorem exact_step {E : Env} {a b : Outbox} (hs : Step E a b) (h : Counted a) : b.Exact := by
  have hshut := shut_step hs
  cases hs with
  | send m =>
      exact h.exact.push rfl (by simp [passed]) hshut
  | closeParked hp =>
      obtain ⟨hsubs, hclosed⟩ := h.waits hp
      by_cases hq : a.queue = []
      · refine h.exact.pad ?_ rfl ?_ (.inr (closed_closeQueue _))
        · simp [Shut, Closed, hclosed, hq]
        · simp [passed, closeQueue, hq]
      · refine h.exact.keep rfl ?_ hshut
        simp [passed, closeQueue, hq, closeLast_framed]
  | opened fields hp =>
      refine h.exact.keep rfl ?_ hshut
      simp [passed, (h.waits hp).1, bodies]
  | registered hp =>
      exact h.exact.keep rfl (by simp [passed, seedQueue_framed]) hshut
  | credit n => exact h.exact.keep rfl (by simp [passed]) hshut
  | close => exact h.exact.keep rfl (by simp [passed]) hshut
  | reset => exact h.exact.keep rfl (by simp [passed, bodies]) hshut
  | consumed => exact h.exact.keep rfl rfl hshut
  | closeQueued => exact h.exact.keep rfl (by simp [passed, closeLast_framed]) hshut
  | closeMarked => exact h.exact.keep rfl rfl hshut
  | closeSent hst hq hsc =>
      refine h.exact.pad ?_ rfl ?_ (.inl rfl)
      · simp [Shut, Closed, hsc, hq]
      · simp [passed, hq, bodies]
  | pumped hst hq hi =>
      exact h.exact.keep rfl (by simp [passed, hq, bodies]) hshut

theorem counted_step {E : Env} {a b : Outbox} (hs : Step E a b) (h : Counted a) : Counted b := by
  have hexact := exact_step hs h
  have hparked : a.stage ≠ .parked → b.stage = a.stage →
      b.stage = .parked → b.h2.subs = [] ∧ b.sendClosed = false :=
    fun hne heq hp => absurd (heq.symm.trans hp) hne
  have hopen : a.stage = .open → a.stage ≠ .parked := fun hst => by simp [hst]
  cases hs with
  | send m hstage hfinal hroom =>
      refine ⟨hexact, ?_, h.waits⟩
      rw [List.length_append, List.length_singleton]
      exact hroom
  | closeParked hp =>
      refine ⟨hexact, ?_, h.waits⟩
      rw [closeQueue_length]
      exact Nat.max_le.mpr ⟨h.short, by omega⟩
  | opened fields hp => exact ⟨hexact, h.short, nofun⟩
  | registered hp =>
      refine ⟨hexact, ?_, nofun⟩
      rw [seedQueue_length]
      exact h.short
  | credit n hne => exact ⟨hexact, h.short, hparked hne rfl⟩
  | close hne => exact ⟨hexact, h.short, hparked hne rfl⟩
  | reset hne => exact ⟨hexact, h.short, hparked hne rfl⟩
  | consumed hst => exact ⟨hexact, h.short, hparked (hopen hst) rfl⟩
  | closeQueued hst =>
      refine ⟨hexact, ?_, hparked (hopen hst) rfl⟩
      rw [closeLast_length]
      exact h.short
  | closeMarked hst => exact ⟨hexact, h.short, hparked (hopen hst) rfl⟩
  | closeSent hst => exact ⟨hexact, h.short, hparked (hopen hst) rfl⟩
  | pumped hst hq =>
      have hshort := h.short
      rw [hq, List.length_cons] at hshort
      exact ⟨hexact, Nat.le_of_succ_le hshort, hparked (hopen hst) rfl⟩

theorem counted_kept : Kept Env.any Counted fun _ => True where
  new _ := ⟨.inl rfl, by simp, fun _ => ⟨rfl, rfl⟩⟩
  step _ _ hs h := counted_step hs h
  sender _ _ := trivial
  quiet _ _ _ _ := trivial
  request _ _ := trivial

end Outbox

/-! ## The calls -/

/-- The messages that wait in tasks. -/
def sendsOf (ts : List Task) : List (Nat × Bytes) :=
  ts.flatMap fun
    | .streamSend id framed _ _ => [(id, framed)]
    | _ => []

theorem sendsOf_post {t : Task} (ht : sendsOf [t] = []) (ts : List Task) :
    sendsOf (ts ++ [t]) = sendsOf ts := by
  rw [sendsOf, List.flatMap_append]
  exact (congrArg _ ht).trans (List.append_nil _)

theorem sendsOf_take {t : Task} {ts ts' : List Task} (ht : sendsOf [t] = []) (hp : ts = t :: ts') :
    sendsOf ts' = sendsOf ts := by
  have happ : sendsOf ts = sendsOf [t] ++ sendsOf ts' := by
    rw [hp, ← List.singleton_append, sendsOf, List.flatMap_append]
    rfl
  rw [happ, ht, List.nil_append]

theorem Task.plain_sends {t : Task} (ht : t.plain = true) : sendsOf [t] = [] := by
  cases t with
  | streamSend => cases ht
  | _ => rfl

namespace Desk

variable {v v' : Desk} {E : Env} {calls : List (Nat × Bytes)}

/-- The calls of `StreamSend`, of which some wait in tasks; those accepted are among the rest. -/
def Called (calls : List (Nat × Bytes)) (v : Desk) : Prop :=
  ∃ ran, calls = ran ++ sendsOf v.posted ∧ v.accepted.Sublist ran

theorem Called.keep (h : Called calls v) (hposted : sendsOf v'.posted = sendsOf v.posted)
    (haccepted : v'.accepted = v.accepted) : Called calls v' := by
  unfold Called
  rw [hposted, haccepted]
  exact h

theorem Called.ran (h : Called calls v) {id : Nat} {framed : Bytes} {cb : Option CbId}
    {close : Bool} (hp : v.posted = .streamSend id framed cb close :: v'.posted)
    (haccepted : v'.accepted = v.accepted ∨ v'.accepted = v.accepted ++ [(id, framed)]) :
    Called calls v' := by
  obtain ⟨ran, hcalls, hsub⟩ := h
  refine ⟨ran ++ [(id, framed)], ?_, ?_⟩
  · rw [hcalls, hp]
    simp [sendsOf]
  · rcases haccepted with heq | heq
    · rw [heq]
      exact hsub.trans (List.sublist_append_left ..)
    · rw [heq]
      exact hsub.append (List.Sublist.refl _)

theorem called_move (hmute : E.mute) (h : Called calls v) (hm : Move E v v') :
    Called calls v' := by
  cases hm with
  | streamSend id framed cb close hs hm => exact absurd hmute hm
  | call | openStream | consumed => exact h.keep (sendsOf_post rfl _) rfl
  | post ht => exact h.keep (sendsOf_post (Task.plain_sends ht) _) rfl
  | skip hp ht => exact h.keep (sendsOf_take (Task.plain_sends ht) hp) rfl
  | callParked timer hp | streamParked hp => exact h.keep (sendsOf_take rfl hp) rfl
  | sendParked hp | sendQueued hp => exact h.ran hp (.inr rfl)
  | sendRefused status hp => exact h.ran hp (.inl rfl)
  | callSubmitted _ _ hn | callFailed _ hn =>
      cases hn with
      | posted timer hp => exact h.keep (sendsOf_take rfl hp) rfl
      | pending => exact h.keep rfl rfl
  | streamOpened hn | streamFailed _ hn =>
      cases hn with
      | posted hp => exact h.keep (sendsOf_take rfl hp) rfl
      | parked => exact h.keep rfl rfl
  | _ => exact h.keep rfl rfl

end Desk

/-- The messages given to `StreamSend`, with their streams. -/
def callSend (calls : List (Nat × Bytes)) : Label → List (Nat × Bytes)
  | .event (.streamSend id framed _ _) => calls ++ [(id, framed)]
  | _ => calls

section Runs

variable {o : Options} {c d : Conf} {l : Label} {calls : List (Nat × Bytes)}

theorem called_step (hrest : Desk.Rest Env.any (desk c.st c.frames))
    (h : Desk.Called calls (desk c.st c.frames)) (hs : machine.step c l = some d) :
    Desk.Called (callSend calls l) (desk d.st d.frames) := by
  by_cases hl : ∃ id framed cb close, l = .event (.streamSend id framed cb close)
  · obtain ⟨id, framed, cb, close, rfl⟩ := hl
    obtain ⟨-, s, gs, hfire, rfl⟩ := Resume.System.step_event hs
    cases hfire
    obtain ⟨ran, hcalls, hsub⟩ := h
    refine ⟨ran, ?_, hsub⟩
    have hpost : sendsOf (c.st.posted ++ [.streamSend id framed cb close]) =
        sendsOf c.st.posted ++ [(id, framed)] := by
      rw [sendsOf, List.flatMap_append]
      rfl
    calc calls ++ [(id, framed)]
        = ran ++ (sendsOf c.st.posted ++ [(id, framed)]) := by rw [hcalls, List.append_assoc]; rfl
      _ = ran ++ sendsOf (c.st.posted ++ [.streamSend id framed cb close]) := by rw [hpost]
  · have hsame : callSend calls l = calls := by
      unfold callSend
      split
      · next id framed cb close => exact absurd ⟨id, framed, cb, close, rfl⟩ hl
      · rfl
    rw [hsame]
    have hrest' : Desk.Rest { Env.any with mute := True } (desk c.st c.frames) :=
      { hrest with clear := False.elim }
    refine (step_desk (E := { Env.any with mute := True }) (I := Desk.Called calls)
      (fun _ _ _ hi hm => Desk.called_move trivial hi hm) hrest' h ?_ hs).2
    exact { mute := fun _ id framed cb close heq => hl ⟨id, framed, cb, close, heq⟩ }

theorem called_hist (h : machine.Hist callSend anyStep (fresh o) [] c calls) :
    Desk.Called calls (desk c.st c.frames) := by
  refine (h.inv (I := fun c calls => Desk.Rest Env.any (desk c.st c.frames) ∧
    Desk.Called calls (desk c.st c.frames)) ⟨Desk.rest_fresh _ o, [], rfl, .slnil⟩ ?_).2
  intro c l d calls ⟨hrest, hcalled⟩ hok hs
  refine ⟨(step_desk (I := fun _ => True) (fun _ _ _ _ _ => trivial) hrest trivial
    (Env.any_allows c l) hs).1, called_step hrest hcalled hs⟩

theorem pumpStream_accepted (s : State) (id : Nat) :
    (pumpStream s id).accepted = s.accepted := by
  unfold pumpStream
  repeat' split
  all_goals rfl

/-- A task of `StreamSend` accepts its message, or it tells a status that is not OK and changes
    nothing else. -/
theorem streamSend_task {id : Nat} {framed : Bytes} {cb : Option CbId} {close : Bool}
    {ts : List Task} {tcp : Option Status} (hp : c.st.posted = .streamSend id framed cb close :: ts)
    (hs : machine.step c (.event (.task tcp)) = some d) :
    d.st.accepted = c.st.accepted ++ [(id, framed)] ∨
      ∃ status : Status, status.ok = false ∧
        d = ⟨State.note { c.st with posted := ts } (tellFlushed id cb status), c.frames⟩ := by
  obtain ⟨-, s, gs, hfire, rfl⟩ := Resume.System.step_event hs
  have hfire : fire (.task tcp) c.st = some (s, gs) := hfire
  simp only [fire, hp] at hfire
  split at hfire
  · cases hfire
    simp only [streamSendTask]
    split
    · split
      · split
        · exact .inr ⟨_, rfl, rfl⟩
        · exact .inl rfl
      · exact .inr ⟨_, rfl, rfl⟩
    · split
      · exact .inr ⟨_, rfl, rfl⟩
      · split
        · exact .inr ⟨_, rfl, rfl⟩
        · exact .inl (pumpStream_accepted _ _)
  · cases hfire

end Runs

/-- **The send queue of a client stream loses, adds and reorders nothing.** In every run, as long
    as a stream is not over: the bodies given to `SendData`, then the messages in its queue, are
    the messages accepted for it (and one empty body, if its sending side was closed), in the
    order of the calls of `StreamSend`; the queue has at most 64 messages. A message that is not
    accepted changes nothing but the log, which gets one `on_flushed` that is not OK. -/
theorem client_queue_conserved (o : Options) (c : Conf) (calls : List (Nat × Bytes))
    (h : machine.Hist callSend anyStep (fresh o) [] c calls) :
    (∃ ran, calls = ran ++ sendsOf c.st.posted ∧ c.st.accepted.Sublist ran) ∧
    (∀ b, (desk c.st c.frames).Holds b → b.Exact ∧ b.queue.length ≤ 64) ∧
    ∀ id framed cb close ts tcp d, c.st.posted = .streamSend id framed cb close :: ts →
      machine.step c (.event (.task tcp)) = some d →
      d.st.accepted = c.st.accepted ++ [(id, framed)] ∨
        ∃ status : Status, status.ok = false ∧
          d = ⟨State.note { c.st with posted := ts } (tellFlushed id cb status), c.frames⟩ := by
  obtain ⟨-, hheld⟩ := reach_outbox Outbox.counted_kept (fun c l _ => Env.any_allows c l) h.reach
  refine ⟨called_hist h, fun b hb => ?_, fun id framed cb close ts tcp d => streamSend_task⟩
  have hcounted := hheld.boxes b hb
  exact ⟨hcounted.exact, hcounted.short⟩

/-- One message is sent while the stream is parked, one when it is open. -/
theorem client_queue_conserved_two :
    ∃ c calls b, machine.Hist callSend anyStep (fresh demo) [] c calls ∧
      (desk c.st c.frames).Holds b ∧ b.taken = [[0, 0, 0, 0, 0], [0, 0, 0, 0, 1, 42]] ∧
      b.queue.length = 1 ∧ b.Exact := by
  obtain ⟨c, st, hc, hst, hover, htaken, hqueue⟩ : ∃ (c : Conf) (st : Stream),
      machine.run anyStep (fresh demo)
        [.event (.openStream (str "/b") ⟨true, true⟩ 0), .event (.task none),
          .event (.streamSend 1 [0, 0, 0, 0, 0] none false), .event (.task none),
          .event .connected, .resume, .resume, .resume, .resume,
          .event (.streamSend 1 [0, 0, 0, 0, 1, 42] none false), .event (.task none)] = some c ∧
      c.st.streams 1 = some st ∧ st.completed = false ∧
      (desk c.st c.frames).takenOf 1 = [[0, 0, 0, 0, 0], [0, 0, 0, 0, 1, 42]] ∧
      st.outQueue.length = 1 := ⟨_, _, rfl, rfl, rfl, rfl, rfl⟩
  have hist := Resume.System.hist_of_run callSend [] _ hc
  have hbox : (desk c.st c.frames).Holds ((desk c.st c.frames).openBox 1 st) := .live hst hover
  exact ⟨c, _, _, hist, hbox, htaken, hqueue,
    ((client_queue_conserved demo c _ hist).2.1 _ hbox).1⟩

end Urpc.Channel
