/-
  Where every callback is. A callback handed to the channel is in exactly one place, or has been
  called exactly once: no move loses one and no move copies one.

  The places are weighed: a weight `w` on `Token`s gives every place the sum over the callbacks
  it holds. `Ledger`: what is held and what has been called add up to what was issued, for every
  `w`. A weight that singles one token out counts its occurrences (`due_single`).

  `Bounds` (ids in use are below the counters) and `Issued` (no terminal callback is issued
  twice) go with it.
-/
import Urpc.Lib.Total
import Urpc.Channel.Rest

namespace Urpc.Channel

open Cxx Total

/-- The callback that an entry of the log called, if it is one that is called once. -/
def Obs.token : Obs → Option Token
  | .done id .. => some (.done id)
  | .complete id _ => some (.complete id)
  | .flushed id cb _ => some (.flushed id cb)
  | .message .. => none

/-- The callbacks called, in order. -/
def called (log : List Obs) : List Token := log.filterMap Obs.token

/-! ## Weights -/

section Weights

variable (w : Token → Nat)

def cbWeight (id : Nat) (cb : Option CbId) : Nat := (cb.toList.map fun cb => w (.flushed id cb)).sum

def queueWeight (id : Nat) (queue : List OutMsg) : Nat :=
  (queue.map fun m => cbWeight w id m.cb).sum

def parkedWeight (ps : PendingStream) : Nat :=
  w (.complete ps.id) + queueWeight w ps.id ps.outQueue

def closureWeight (n : Closure) : Nat := cbWeight w n.id n.cb

def callWeight (id : Nat) : Option Call → Nat
  | some call => if call.done then w (.done id) else 0
  | none => 0

/-- A completed stream holds nothing. -/
def streamWeight (id : Nat) : Option Stream → Nat
  | some st => if st.completed then 0 else w (.complete id) + queueWeight w id st.outQueue
  | none => 0

def taskWeight : Task → Nat
  | .call id .. => w (.done id)
  | .openStream id _ events _ => if events.onComplete then w (.complete id) else 0
  | .streamSend id _ cb _ => cbWeight w id cb
  | _ => 0

def frameWeight : Frame → Nat
  | .callNowRest _ id _ | .cancelRest id => w (.done id)
  | .openStreamRest _ ps _ => parkedWeight w ps
  | _ => 0

/-- The weight of the callbacks that a piece of the log calls. -/
def calledWeight (os : List Obs) : Nat := ((called os).map w).sum

namespace Desk

variable (v : Desk)

/-- Held by tasks, queues and frames. -/
def waiting : Nat :=
  (v.posted.map (taskWeight w)).sum + (v.pending.map fun pc => w (.done pc.id)).sum +
    (v.parked.map (parkedWeight w)).sum + (v.todo.map (frameWeight w)).sum

/-- Held by the tables and the session. -/
def tabled : Nat :=
  total (callWeight w) v.nextCallId v.calls + total (streamWeight w) v.nextCallId v.streams +
    total (fun _ h2 => h2.carried (closureWeight w)) v.nextSid v.senders

def spent : Nat := calledWeight w v.log

def due : Nat := (v.issued.map w).sum

end Desk

/-! ### What the user is told -/

theorem calledWeight_append (os ps : List Obs) :
    calledWeight w (os ++ ps) = calledWeight w os + calledWeight w ps := by
  simp [calledWeight, called]

theorem tellFlushed_weight (id : Nat) (cb : Option CbId) (st : Status) :
    calledWeight w (tellFlushed id cb st) = cbWeight w id cb := by
  cases cb <;> rfl

theorem tellComplete_weight (id : Nat) (events : StreamEvents) (st : Status)
    (h : events.onComplete = true) :
    calledWeight w (tellComplete id events st) = w (.complete id) := by
  simp [tellComplete, h, calledWeight, called, Obs.token]

theorem failQueue_weight (id : Nat) (queue : List OutMsg) (st : Status) :
    calledWeight w (failQueue id queue st) = queueWeight w id queue := by
  induction queue with
  | nil => rfl
  | cons m queue ih =>
      have hcons : failQueue id (m :: queue) st = tellFlushed id m.cb st ++ failQueue id queue st :=
        rfl
      rw [hcons, calledWeight_append, ih, tellFlushed_weight]
      rfl

theorem tellFail_weight (id : Nat) (queue : List OutMsg) (events : StreamEvents) (st : Status)
    (h : events.onComplete = true) :
    calledWeight w (tellFail id queue events st) = w (.complete id) + queueWeight w id queue := by
  rw [tellFail, calledWeight_append, failQueue_weight, tellComplete_weight w _ _ _ h]
  omega

theorem done_weight (id : Nat) (st : Status) (payload : Bytes) :
    calledWeight w [.done id st payload] = w (.done id) := rfl

theorem message_weight (id : Nat) (st : Status) (msgs : List Bytes) :
    calledWeight w (msgs.map (.message id st)) = 0 := by
  induction msgs with
  | nil => rfl
  | cons m msgs ih => exact ih

/-! ### What the loss of the connection tells -/

theorem entries_succ {α : Type} (n : Nat) (table : Nat → Option α) :
    entries (n + 1) table = entries n table ++ (table n).toList.map fun a => (n, a) := by
  rw [entries, List.range_succ, List.filterMap_append, entries]
  cases h : table n <;> simp [h]

theorem lostStreams_weight (n : Nat) (streams : Nat → Option Stream) :
    calledWeight w (lostStreams (entries n streams)) = total (streamWeight w) n streams := by
  induction n with
  | zero => rfl
  | succ n ih =>
      rw [entries_succ, lostStreams, List.flatMap_append, calledWeight_append, total_succ, ← ih,
        lostStreams]
      congr 1
      cases streams n with
      | none => rfl
      | some st =>
          simp only [Option.toList_some, List.map_cons, List.map_nil, List.flatMap_cons,
            List.flatMap_nil, List.append_nil, streamWeight]
          split
          · rfl
          · exact tellFail_weight w _ _ _ _ st.terminal

/-- Every call is told that still holds its `done`, if none is marked as completed with it. -/
theorem lostCalls_weight (n : Nat) (calls : Nat → Option Call)
    (h : ∀ id call, calls id = some call → call.completed = true → call.done = false) :
    calledWeight w (lostCalls (entries n calls)) = total (callWeight w) n calls := by
  induction n with
  | zero => rfl
  | succ n ih =>
      rw [entries_succ, lostCalls, List.flatMap_append, calledWeight_append, total_succ, ← ih,
        lostCalls]
      congr 1
      cases hcall : calls n with
      | none => rfl
      | some call =>
          simp only [Option.toList_some, List.map_cons, List.map_nil, List.flatMap_cons,
            List.flatMap_nil, List.append_nil, callWeight]
          split
          · next hc => rw [h n call hcall hc]; rfl
          · split <;> rfl

/-! ### Queues -/

theorem closeLast_weight (id : Nat) (queue : List OutMsg) :
    queueWeight w id (closeLast queue) = queueWeight w id queue := by
  induction queue using closeLast.induct with
  | case1 => rfl
  | case2 m => rfl
  | case3 m ms hne ih =>
      rw [closeLast]
      · simp only [queueWeight, List.map_cons, List.sum_cons] at ih ⊢
        rw [ih]
      · exact hne

theorem closeQueue_weight (id : Nat) (queue : List OutMsg) :
    queueWeight w id (closeQueue queue) = queueWeight w id queue := by
  unfold closeQueue
  split
  · next h =>
      obtain rfl : queue = [] := by simpa using h
      rfl
  · exact closeLast_weight w id queue

theorem seedQueue_weight (id : Nat) (queue : List OutMsg) :
    queueWeight w id (seedQueue queue) = queueWeight w id queue := by
  unfold seedQueue
  split
  · exact closeLast_weight w id queue
  · rfl

theorem push_weight (id : Nat) (queue : List OutMsg) (m : OutMsg) :
    queueWeight w id (queue ++ [m]) = queueWeight w id queue + cbWeight w id m.cb := by
  simp [queueWeight]

/-- Changing the queue of the parked stream `id` by a callback of weight `n`. -/
theorem updateParked_weight (id : Nat) (f : PendingStream → PendingStream) (n : Nat)
    (parked : List PendingStream)
    (hf : ∀ ps, ps.id = id → parkedWeight w (f ps) = parkedWeight w ps + n)
    (h : n = 0 ∨ (parked.find? fun ps => ps.id = id).isSome = true) :
    ((updateParked id f parked).map (parkedWeight w)).sum =
      (parked.map (parkedWeight w)).sum + n := by
  induction parked with
  | nil =>
      simp only [List.find?_nil, Option.isSome_none, Bool.false_eq_true, or_false] at h
      simp [updateParked, h]
  | cons ps parked ih =>
      unfold updateParked
      split
      · next hid =>
          simp only [List.map_cons, List.sum_cons, hf ps hid]
          omega
      · next hid =>
          have := ih (by simpa [List.find?_cons, hid] using h)
          simp only [List.map_cons, List.sum_cons]
          omega

end Weights

/-! ## The invariants -/

/-- `done` and `on_complete`: one per operation. -/
def Token.terminal : Token → Bool
  | .done _ | .complete _ => true
  | .flushed .. => false

def Token.id : Token → Nat
  | .done id | .complete id | .flushed id _ => id

/-- The weight that singles `t` out. -/
def single (t : Token) : Token → Nat := fun u => if u = t then 1 else 0

namespace Desk

/-- Closures of the stream `id`, counted. -/
def closureOf (id : Nat) (n : Closure) : Nat := if n.id = id then 1 else 0

/-- Held and called make up issued, whatever the weights. -/
def Ledger (v : Desk) : Prop := ∀ w, v.waiting w + v.tabled w + v.spent w = v.due w

structure Issued (v : Desk) : Prop where
  fresh : ∀ t ∈ v.issued, t.terminal = true → t.id < v.nextCallId
  once : ∀ t, t.terminal = true → v.issued.count t ≤ 1

structure Bounds (v : Desk) : Prop where
  pos : 0 < v.nextSid
  calls : ∀ id, v.nextCallId ≤ id → v.calls id = none
  streams : ∀ id, v.nextCallId ≤ id → v.streams id = none
  sids : ∀ id st, v.streams id = some st → 0 < st.sid ∧ st.sid < v.nextSid
  opening : ∀ sid ps decoder, .openStreamRest sid ps decoder ∈ v.todo →
    0 < sid ∧ sid < v.nextSid
  senders : ∀ sid, v.nextSid ≤ sid → ∀ f, (v.senders sid).carried f = 0

/-- What is left to do for a call that is marked as completed. -/
def ending (done : Bool) (id : Nat) : Frame :=
  if done then .callTimeoutRest id else .cancelRest id

/-- A call that is marked as completed is in the middle of its timeout, or, once `done` has been
    moved out, of its cancel. -/
def Marked (v : Desk) : Prop :=
  ∀ id call, v.calls id = some call → call.completed = true → ending call.done id ∈ v.todo

structure Books (v : Desk) : Prop where
  ledger : Ledger v
  issued : Issued v
  bounds : Bounds v
  marked : Marked v

theorem sum_single (l : List Token) (t : Token) : (l.map (single t)).sum = l.count t := by
  induction l with
  | nil => rfl
  | cons u l ih =>
      rw [List.map_cons, List.sum_cons, ih, List.count_cons, single]
      by_cases h : u = t
      · simp [h]
        omega
      · simp [h]

variable {v : Desk} {t : Token}

/-- A terminal callback is in one place, or has been called once. -/
theorem Books.alone (h : Books v) (ht : t.terminal = true) :
    v.waiting (single t) + v.tabled (single t) + v.spent (single t) ≤ 1 := by
  rw [h.ledger (single t), due, sum_single]
  exact h.issued.once t ht

/-- What is held was issued. -/
theorem Books.bound (h : Books v) (ht : t.terminal = true) (hw : 0 < v.waiting (single t)) :
    t.id < v.nextCallId := by
  have hl := h.ledger (single t)
  rw [due, sum_single] at hl
  exact h.issued.fresh t (List.count_pos_iff.mp (by omega)) ht

/-- A call that waits somewhere has no `done` left in `calls`. -/
theorem Books.call_free (h : Books v) {id : Nat} (hw : 0 < v.waiting (single (.done id)))
    (w : Token → Nat) : callWeight w id (v.calls id) = 0 := by
  have hone := h.alone (t := .done id) rfl
  have hid : id < v.nextCallId := h.bound (t := .done id) rfl hw
  cases hcall : v.calls id with
  | none => rfl
  | some call =>
      by_cases hd : call.done = true
      · have hle := le_total (f := callWeight (single (.done id))) v.calls hid
        simp only [hcall, callWeight, hd, if_true, single] at hle
        simp only [tabled] at hone
        omega
      · simp [callWeight, hd]

/-- A stream that waits somewhere is not live in `streams`. -/
theorem Books.stream_free (h : Books v) {id : Nat} (hw : 0 < v.waiting (single (.complete id)))
    (w : Token → Nat) : streamWeight w id (v.streams id) = 0 := by
  have hone := h.alone (t := .complete id) rfl
  have hid : id < v.nextCallId := h.bound (t := .complete id) rfl hw
  cases hst : v.streams id with
  | none => rfl
  | some st =>
      by_cases hc : st.completed = true
      · simp [streamWeight, hc]
      · have hle := le_total (f := streamWeight (single (.complete id))) v.streams hid
        simp only [hst, streamWeight, hc, Bool.false_eq_true, if_false, single, if_true] at hle
        simp only [tabled] at hone
        omega

/-! ## Tables -/

section Tables

variable (w : Token → Nat)

theorem Bounds.call_lt (h : Bounds v) {id : Nat} {call : Call} (hcall : v.calls id = some call) :
    id < v.nextCallId := by
  by_contra hge
  rw [h.calls id (by omega)] at hcall
  cases hcall

theorem Bounds.stream_lt (h : Bounds v) {id : Nat} {st : Stream} (hst : v.streams id = some st) :
    id < v.nextCallId := by
  by_contra hge
  rw [h.streams id (by omega)] at hst
  cases hst

theorem Bounds.sender_lt (h : Bounds v) {sid : Nat} {n : Closure} {notes : List Closure}
    (hn : (v.senders sid).notes = n :: notes) : sid < v.nextSid := by
  by_contra hge
  have h0 := h.senders sid (by omega) fun _ => 1
  simp only [Sender.carried, hn, List.map_cons, List.sum_cons] at h0
  omega

theorem total_eraseCall (h : Bounds v) (id : Nat) :
    total (callWeight w) v.nextCallId (Function.update v.calls id none) +
      callWeight w id (v.calls id) = total (callWeight w) v.nextCallId v.calls := by
  by_cases hid : id < v.nextCallId
  · simpa [callWeight] using total_update (f := callWeight w) v.calls none hid
  · rw [total_update_of_le _ _ (by omega), h.calls id (by omega)]
    simp [callWeight]

theorem total_setCall (h : Bounds v) {id : Nat} {call : Call} (hcall : v.calls id = some call)
    (call' : Call) :
    total (callWeight w) v.nextCallId (Function.update v.calls id (some call')) +
      callWeight w id (some call) =
        total (callWeight w) v.nextCallId v.calls + callWeight w id (some call') := by
  rw [← hcall]
  exact total_update v.calls _ (h.call_lt hcall)

theorem total_setStream (h : Bounds v) {id : Nat} {st : Stream} (hst : v.streams id = some st)
    (st' : Option Stream) :
    total (streamWeight w) v.nextCallId (Function.update v.streams id st') +
      streamWeight w id (some st) =
        total (streamWeight w) v.nextCallId v.streams + streamWeight w id st' := by
  rw [← hst]
  exact total_update v.streams _ (h.stream_lt hst)

/-- A sender that carries the same. -/
theorem total_sameSender (sid : Nat) (h2 : Sender Closure)
    (h : h2.carried (closureWeight w) = (v.senders sid).carried (closureWeight w)) :
    total (fun _ h2 => Sender.carried (closureWeight w) h2) v.nextSid
        (Function.update v.senders sid h2) =
      total (fun _ h2 => Sender.carried (closureWeight w) h2) v.nextSid v.senders :=
  total_update_same v.senders h2 h

/-- A new stream whose sender carries nothing. -/
theorem total_submit (h : Bounds v) {f : Closure → Nat} {h2 : Sender Closure}
    (h0 : h2.carried f = 0) :
    total (fun _ h2 => Sender.carried f h2) (v.submit h2).nextSid (v.submit h2).senders =
      total (fun _ h2 => Sender.carried f h2) v.nextSid v.senders := by
  have hnext := h.senders (v.nextSid + 1) (by omega) f
  simp only [submit, setSender]
  rw [total_succ, total_succ, total_update_of_le _ _ (Nat.le_refl _), Function.update_self,
    Function.update_of_ne (by omega), h0, hnext]
  rfl

theorem submit_tabled (h : Bounds v) (h2 : Sender Closure)
    (h0 : h2.carried (closureWeight w) = 0) : (v.submit h2).tabled w = v.tabled w := by
  rw [tabled, total_submit h h0]
  rfl

end Tables

/-! ## Queues -/

theorem NextCall.weight {v' : Desk} {id : Nat} {call : NewCall} (h : NextCall v id call v')
    (w : Token → Nat) :
    v.waiting w = v'.waiting w + w (.done id) ∧ v'.tabled w = v.tabled w ∧
      v'.spent w = v.spent w ∧ v'.due w = v.due w := by
  cases h with
  | posted timer hp =>
      refine ⟨?_, rfl, rfl, rfl⟩
      simp only [waiting, hp, List.map_cons, List.sum_cons, taskWeight]
      omega
  | pending hp =>
      refine ⟨?_, rfl, rfl, rfl⟩
      simp only [waiting, hp, List.map_cons, List.sum_cons]
      omega

theorem NextStream.weight {v' : Desk} {ps : PendingStream} (h : NextStream v ps v')
    (w : Token → Nat) :
    v.waiting w = v'.waiting w + parkedWeight w ps ∧ v'.tabled w = v.tabled w ∧
      v'.spent w = v.spent w ∧ v'.due w = v.due w := by
  cases h with
  | posted hp hq =>
      refine ⟨?_, rfl, rfl, rfl⟩
      simp only [waiting, hp, List.map_cons, List.sum_cons, taskWeight, ps.terminal, if_true,
        parkedWeight, hq, queueWeight, List.map_nil, List.sum_nil]
      omega
  | parked hp =>
      refine ⟨?_, rfl, rfl, rfl⟩
      simp only [waiting, hp, List.map_cons, List.sum_cons]
      omega

theorem NextCall.held {v' : Desk} {id : Nat} {call : NewCall} (h : NextCall v id call v') :
    0 < v.waiting (single (.done id)) := by
  have := (h.weight (single (.done id))).1
  simp only [single, if_true] at this
  omega

theorem NextCall.bounds {v' : Desk} {id : Nat} {call : NewCall} (h : NextCall v id call v')
    (hb : Bounds v) : Bounds v' := by
  cases h <;> exact ⟨hb.pos, hb.calls, hb.streams, hb.sids, hb.opening, hb.senders⟩

theorem NextStream.bounds {v' : Desk} {ps : PendingStream} (h : NextStream v ps v')
    (hb : Bounds v) : Bounds v' := by
  cases h <;> exact ⟨hb.pos, hb.calls, hb.streams, hb.sids, hb.opening, hb.senders⟩

/-! ## Every move keeps the ledger -/

theorem plain_weight (w : Token → Nat) {t : Task} (h : t.plain = true) : taskWeight w t = 0 := by
  cases t with
  | openStream id path events timeoutMs =>
      have hn : events.onComplete = false := by simpa [Task.plain] using h
      simp [taskWeight, hn]
  | call | streamSend => cases h
  | _ => rfl

theorem submitRequest_carried (f : Closure → Nat) (fields : HeaderMap) (body : Bytes) :
    (submitRequest fields body).carried f = 0 := by
  unfold submitRequest
  dsimp only
  split
  · rw [Sender.sendHeaders_carried]
    rfl
  · rw [Sender.sendData_carried, Sender.sendHeaders_carried]
    rfl

theorem ledger_move {E : Env} {v' : Desk} (hb : Books v) (hr : Rest E v) (hm : Move E v v') :
    Ledger v' := by
  intro w
  have hl := hb.ledger w
  cases hm with
  | call path framed timeoutMs =>
      simp only [waiting, tabled, spent, due, List.map_append, List.sum_append, List.map_cons,
        List.map_nil, List.sum_cons, List.sum_nil, total_succ, taskWeight,
        hb.bounds.calls _ (Nat.le_refl _), hb.bounds.streams _ (Nat.le_refl _), callWeight,
        streamWeight] at hl ⊢
      omega
  | openStream path events timeoutMs =>
      simp only [waiting, tabled, spent, due, List.map_append, List.sum_append, List.map_cons,
        List.map_nil, List.sum_cons, List.sum_nil, total_succ, taskWeight,
        hb.bounds.calls _ (Nat.le_refl _), hb.bounds.streams _ (Nat.le_refl _), callWeight,
        streamWeight] at hl ⊢
      split
      · simp only [List.map_cons, List.map_nil, List.sum_cons, List.sum_nil]
        omega
      · simp only [List.map_nil, List.sum_nil]
        omega
  | streamSend id framed cb close =>
      have hcb : (((cb.toList.map (Token.flushed id)).map w).sum) = cbWeight w id cb := by
        cases cb <;> rfl
      simp only [waiting, tabled, spent, due, List.map_append, List.sum_append, List.map_cons,
        List.map_nil, List.sum_cons, List.sum_nil, taskWeight, hcb] at hl ⊢
      omega
  | @post t ht =>
      have h0 := plain_weight w ht
      simp only [waiting, tabled, spent, due, List.map_append, List.sum_append, List.map_cons,
        List.map_nil, List.sum_cons, List.sum_nil, h0] at hl ⊢
      omega
  | @skip t ts hp ht =>
      have h0 := plain_weight w ht
      simp only [waiting, tabled, spent, due, hp, List.map_cons, List.sum_cons, h0] at hl ⊢
      omega
  | limit | unrouted | unregistered | connect | connectFailed => exact hl
  | credit sid n =>
      simp only [waiting, tabled, spent, due, setSender] at hl ⊢
      rw [total_sameSender w sid _ (Sender.credit_carried _ _ n)]
      exact hl
  | close sid =>
      simp only [waiting, tabled, spent, due, setSender] at hl ⊢
      rw [total_sameSender w sid _ (Sender.close_carried _ _)]
      exact hl
  | reset sid =>
      simp only [waiting, tabled, spent, due, setSender] at hl ⊢
      rw [total_sameSender w sid]
      · exact hl
      · rfl
  | @consumed sid n notes st hn hst =>
      have h1 := total_update (f := fun _ h2 => Sender.carried (closureWeight w) h2) v.senders
        { v.senders sid with notes } (hb.bounds.sender_lt hn)
      have h2 := total_setStream w hb.bounds hst (some { st with outInflight := false })
      simp only [Sender.carried, hn, List.map_cons, List.sum_cons, closureWeight] at h1
      simp only [waiting, tabled, spent, due, note, setStream, setSender, calledWeight_append,
        tellFlushed_weight, List.map_append, List.sum_append, List.map_cons, List.map_nil,
        List.sum_cons, List.sum_nil, taskWeight, streamWeight, Sender.carried] at hl h2 ⊢
      omega
  | @consumedLate sid n notes hn hst =>
      have h1 := total_update (f := fun _ h2 => Sender.carried (closureWeight w) h2) v.senders
        { v.senders sid with notes } (hb.bounds.sender_lt hn)
      simp only [Sender.carried, hn, List.map_cons, List.sum_cons, closureWeight] at h1
      simp only [waiting, tabled, spent, due, note, setSender, calledWeight_append,
        tellFlushed_weight, Sender.carried] at hl ⊢
      omega
  | connected hphase htodo =>
      simp only [waiting, tabled, spent, due, htodo, List.map_cons, List.map_nil, List.sum_cons,
        List.sum_nil, frameWeight] at hl ⊢
      omega
  | started hf | startedStreams hf | callGone hf | streamGone hf =>
      simp only [waiting, tabled, spent, due, hf, List.map_cons, List.sum_cons,
        frameWeight] at hl ⊢
      omega
  | lost hses _ htodo =>
      have hready := hr.session hses
      have hparked : v.parked = [] := (hr.parked hready).resolve_left (by simp [htodo])
      have hcalls := lostCalls_weight w v.nextCallId v.calls fun id call hcall hc => by
        have := hb.marked id call hcall hc
        simp [htodo] at this
      have hsenders : total (fun _ h2 => Sender.carried (closureWeight w) h2) v.nextSid
          (fun sid => (v.senders sid).close) =
          total (fun _ h2 => Sender.carried (closureWeight w) h2) v.nextSid v.senders :=
        total_congr fun sid _ => Sender.close_carried _ _
      have hnone : total (callWeight w) v.nextCallId (fun _ => none) = 0 :=
        total_eq_zero fun _ _ => rfl
      have hnone' : total (streamWeight w) v.nextCallId (fun _ => none) = 0 :=
        total_eq_zero fun _ _ => rfl
      simp only [waiting, tabled, spent, due, lose, hparked, htodo, calledWeight_append,
        lostStreams_weight, hcalls, hsenders, hnone, hnone', lostParked, List.flatMap_nil,
        List.map_nil, List.sum_nil] at hl ⊢
      have h0 : calledWeight w [] = 0 := rfl
      omega
  | callParked timer hp =>
      simp only [waiting, tabled, spent, due, hp, List.map_append, List.sum_append, List.map_cons,
        List.map_nil, List.sum_cons, List.sum_nil, taskWeight] at hl ⊢
      omega
  | @callSubmitted v' id call fields body hn =>
      obtain ⟨h1, h2, h3, h4⟩ := hn.weight w
      obtain ⟨htodo, -⟩ := hn.same
      have hsub := submit_tabled w (hn.bounds hb.bounds) (submitRequest fields body)
        (submitRequest_carried _ fields body)
      simp only [waiting, tabled, spent, due, submit, setSender, List.map_cons, List.sum_cons,
        frameWeight, htodo] at *
      omega
  | @callFailed v' id call status hn hst =>
      obtain ⟨h1, h2, h3, h4⟩ := hn.weight w
      obtain ⟨-, -, -, hcalls⟩ := hn.same
      have herase := total_eraseCall w (hn.bounds hb.bounds) id
      rw [hcalls, hb.call_free hn.held w] at herase
      simp only [waiting, tabled, spent, due, note, calledWeight_append, done_weight, hcalls] at *
      omega
  | @callRegistered sid id call fs hf =>
      have hheld : 0 < v.waiting (single (.done id)) := by
        simp only [waiting, hf, List.map_cons, List.sum_cons, frameWeight, single, if_true]
        omega
      have hid : id < v.nextCallId := hb.bound (t := .done id) rfl hheld
      have hset := total_update (f := callWeight w) v.calls (some { call with sid }) hid
      rw [hb.call_free hheld w] at hset
      simp only [waiting, tabled, spent, due, setCall, hf, List.map_cons, List.sum_cons,
        frameWeight, callWeight, if_true] at hl hset ⊢
      omega
  | @callOver id call status payload hcall hc =>
      have herase := total_eraseCall w hb.bounds id
      simp only [waiting, tabled, spent, due, note, calledWeight_append, done_weight] at hl ⊢
      simp only [hcall, callWeight, call.whole hc, if_true] at herase
      omega
  | @callFed sid id call chunk decoder hfeed hcall =>
      have hset := total_setCall w hb.bounds hcall { call with decoder }
      simp only [waiting, tabled, spent, due, setCall, callWeight] at hl hset ⊢
      omega
  | @callTimeout id call hcall hc =>
      have hset := total_setCall w hb.bounds hcall { call with completed := true, whole := by simp }
      simp only [waiting, tabled, spent, due, setCall, callWeight, List.map_cons, List.sum_cons,
        frameWeight] at hl hset ⊢
      omega
  | @callTimedOut id call fs hf hcall =>
      have herase := total_eraseCall w hb.bounds id
      simp only [waiting, tabled, spent, due, note, calledWeight_append, hf, List.map_cons,
        List.sum_cons, frameWeight] at hl ⊢
      simp only [hcall, callWeight] at herase
      split
      · next hd =>
          simp only [hd, if_true] at herase
          rw [done_weight]
          omega
      · next hd =>
          simp only [hd, Bool.false_eq_true, if_false] at herase
          have h0 : calledWeight w [] = 0 := rfl
          omega
  | @cancel id call hcall hc =>
      have hset := total_setCall w hb.bounds hcall
        { call with completed := true, done := false, whole := by simp }
      simp only [waiting, tabled, spent, due, setCall, callWeight, List.map_cons, List.sum_cons,
        frameWeight, call.whole hc, if_true, Bool.false_eq_true, if_false] at hl hset ⊢
      omega
  | @cancelled id fs hf =>
      have hheld : 0 < v.waiting (single (.done id)) := by
        simp only [waiting, hf, List.map_cons, List.sum_cons, frameWeight, single, if_true]
        omega
      have hfree := hb.call_free hheld w
      have herase := total_eraseCall w hb.bounds id
      simp only [waiting, tabled, spent, due, note, calledWeight_append, done_weight, hf,
        List.map_cons, List.sum_cons, frameWeight] at hl ⊢
      omega
  | @streamParked ps ts hp hq =>
      simp only [waiting, tabled, spent, due, hp, hq, List.map_append, List.sum_append,
        List.map_cons, List.map_nil, List.sum_cons, List.sum_nil, taskWeight, ps.terminal, if_true,
        parkedWeight, queueWeight] at hl ⊢
      omega
  | @streamOpened v' ps hn =>
      obtain ⟨h1, h2, h3, h4⟩ := hn.weight w
      obtain ⟨htodo, -⟩ := hn.same
      have hsub := submit_tabled w (hn.bounds hb.bounds)
        (({} : Sender Closure).sendHeaders (requestHeaders v.options ps.path) false)
        (Sender.sendHeaders_carried _ _ _ _)
      simp only [waiting, tabled, spent, due, submit, setSender, List.map_cons, List.sum_cons,
        frameWeight, htodo] at *
      omega
  | @streamFailed v' ps status hn =>
      obtain ⟨h1, h2, h3, h4⟩ := hn.weight w
      simp only [waiting, tabled, spent, due, note, calledWeight_append, parkedWeight,
        tellFail_weight w _ _ _ _ ps.terminal] at *
      omega
  | @streamRegistered sid ps decoder fs timer hf =>
      have hheld : 0 < v.waiting (single (.complete ps.id)) := by
        simp only [waiting, hf, List.map_cons, List.sum_cons, frameWeight, parkedWeight, single,
          if_true]
        omega
      have hid : ps.id < v.nextCallId := hb.bound (t := .complete ps.id) rfl hheld
      have hset := total_update (f := streamWeight w) v.streams
        (some (ps.toStream sid decoder timer)) hid
      rw [hb.stream_free hheld w] at hset
      simp only [waiting, tabled, spent, due, setStream, hf, List.map_cons, List.sum_cons,
        frameWeight, parkedWeight, streamWeight, PendingStream.toStream, Bool.false_eq_true,
        if_false, seedQueue_weight] at hl hset ⊢
      omega
  | @streamFed sid id st chunk hfeed hroute hst hc hok =>
      have hset := total_setStream w hb.bounds hst
        (some { st with decoder := (takeMessages (st.decoder.consume chunk).2).2 })
      have hlog : calledWeight w (if st.events.onMessage then
          (takeMessages (st.decoder.consume chunk).2).1.map (.message id .okay) else []) = 0 := by
        split
        · exact message_weight w id _ _
        · rfl
      simp only [waiting, tabled, spent, due, note, setStream, calledWeight_append, hlog,
        streamWeight] at hl hset ⊢
      omega
  | @streamOver id st decoder status hst hc hcalm =>
      have hset := total_setStream w hb.bounds hst (some { st with
        completed := true, timeoutTimer := 0, outQueue := [], decoder })
      simp only [waiting, tabled, spent, due, note, setStream, calledWeight_append,
        tellFail_weight w _ _ _ _ st.terminal, streamWeight, hc, Bool.false_eq_true, if_false,
        if_true] at hl hset ⊢
      omega
  | @streamTimeout id st hst hc =>
      have hset := total_setStream w hb.bounds hst (some { st with rstPending := true })
      simp only [waiting, tabled, spent, due, setStream, streamWeight, List.map_cons,
        List.sum_cons, frameWeight] at hl hset ⊢
      omega
  | @streamErased id st fs hf hst hc =>
      have hset := total_setStream w hb.bounds hst none
      simp only [waiting, tabled, spent, due, hf, streamWeight, hc, if_true, List.map_cons,
        List.sum_cons, frameWeight] at hl hset ⊢
      omega
  | @sendParked id framed cb close ts ps hp hps =>
      have hpark := updateParked_weight w id
        (fun ps => { ps with outQueue := ps.outQueue ++ [⟨framed, close, cb⟩] }) (cbWeight w id cb)
        v.parked (fun ps hid => by simp only [parkedWeight, push_weight, hid]; omega)
        (.inr (by rw [hps]; rfl))
      simp only [waiting, tabled, spent, due, hp, hpark, List.map_cons, List.sum_cons,
        taskWeight] at hl ⊢
      omega
  | @sendQueued id framed cb close ts st hp hst hc =>
      have hset := total_setStream w hb.bounds hst
        (some { st with outQueue := st.outQueue ++ [⟨framed, close, cb⟩] })
      simp only [waiting, tabled, spent, due, setStream, hp, List.map_cons, List.sum_cons,
        taskWeight, streamWeight, hc, Bool.false_eq_true, if_false, push_weight] at hl hset ⊢
      omega
  | @sendRefused id framed cb close ts status hp =>
      simp only [waiting, tabled, spent, due, note, hp, List.map_cons, List.sum_cons, taskWeight,
        calledWeight_append, tellFlushed_weight] at hl ⊢
      omega
  | closeParked id =>
      have hpark := updateParked_weight w id
        (fun ps => { ps with outQueue := closeQueue ps.outQueue }) 0 v.parked
        (fun ps _ => by simp [parkedWeight, closeQueue_weight]) (.inl rfl)
      simp only [waiting, tabled, spent, due, hpark] at hl ⊢
      omega
  | @closeQueued id st hst hc =>
      have hset := total_setStream w hb.bounds hst (some { st with outQueue := closeLast st.outQueue })
      simp only [waiting, tabled, spent, due, setStream, streamWeight, closeLast_weight] at hl hset ⊢
      omega
  | @closeMarked id st hst hc =>
      have hset := total_setStream w hb.bounds hst (some { st with sendClosed := true })
      simp only [waiting, tabled, spent, due, setStream, streamWeight] at hl hset ⊢
      omega
  | @closeSent id st hst hc =>
      have hset := total_setStream w hb.bounds hst (some { st with sendClosed := true })
      simp only [waiting, tabled, spent, due, setStream, setSender, streamWeight] at hl hset ⊢
      rw [total_sameSender w st.sid _ (Sender.sendData_carried _ _ [] true none)]
      omega
  | @pumped id st out queue hst hq hc =>
      have hset := total_setStream w hb.bounds hst (some { st with
        outQueue := queue, outInflight := true, sendClosed := st.sendClosed || out.close })
      have hsend := total_update (f := fun _ h2 => Sender.carried (closureWeight w) h2) v.senders
        ((v.senders st.sid).sendData out.framed out.close (some ⟨id, out.cb⟩))
        (hb.bounds.sids id st hst).2
      simp only [Sender.sendData_carried, Option.toList_some, List.map_cons, List.map_nil,
        List.sum_cons, List.sum_nil, closureWeight] at hsend
      simp only [waiting, tabled, spent, due, setStream, setSender, streamWeight, hq, hc,
        Bool.false_eq_true, if_false, queueWeight, List.map_cons, List.sum_cons] at hl hset ⊢
      omega

/-! ## The other books -/

theorem issued_move {E : Env} {v' : Desk} (hi : Issued v) (hm : Move E v v') : Issued v' := by
  -- a new id is above every terminal token issued so far
  have hnew : ∀ {t : Token}, t.terminal = true → t.id = v.nextCallId → Issued
      { v with nextCallId := v.nextCallId + 1, issued := v.issued ++ [t] } := by
    intro t ht hid
    have hnot : t ∉ v.issued := by
      intro hmem
      have := hi.fresh t hmem ht
      omega
    refine ⟨?_, ?_⟩
    · intro u hu hut
      rcases List.mem_append.mp hu with hu | hu
      · have := hi.fresh u hu hut
        simp only
        omega
      · rw [List.mem_singleton.mp hu, hid]
        exact Nat.lt_succ_self _
    · intro u hu
      rw [List.count_append, List.count_singleton]
      by_cases heq : t = u
      · subst heq
        rw [List.count_eq_zero_of_not_mem hnot]
        simp
      · simpa [heq] using hi.once u hu
  cases hm with
  | call =>
      have := hnew (t := .done v.nextCallId) rfl rfl
      exact ⟨this.fresh, this.once⟩
  | openStream path events =>
      split
      · have := hnew (t := .complete v.nextCallId) rfl rfl
        exact ⟨this.fresh, this.once⟩
      · refine ⟨fun t ht htt => ?_, by simpa using hi.once⟩
        exact Nat.lt_succ_of_lt (hi.fresh t (by simpa using ht) htt)
  | streamSend id framed cb =>
      have hno : ∀ t, t.terminal = true → t ∉ cb.toList.map (Token.flushed id) := by
        intro t ht hmem
        obtain ⟨k, -, rfl⟩ := List.mem_map.mp hmem
        cases ht
      refine ⟨fun t ht htt => ?_, fun t ht => ?_⟩
      · exact hi.fresh t ((List.mem_append.mp ht).resolve_right (hno t htt)) htt
      · rw [List.count_append, List.count_eq_zero_of_not_mem (hno t ht)]
        exact hi.once t ht
  | callSubmitted _ _ hn | callFailed _ hn =>
      cases hn <;> exact ⟨hi.fresh, hi.once⟩
  | streamOpened hn | streamFailed _ hn => cases hn <;> exact ⟨hi.fresh, hi.once⟩
  | _ => exact ⟨hi.fresh, hi.once⟩

/-- Not an opening stream. -/
def opens : Frame → Bool
  | .openStreamRest .. => true
  | _ => false

/-- Moves that use no new id: what is in a table was there before, with the same stream. -/
theorem Bounds.keep {v' : Desk} (hb : Bounds v) (hn : v'.nextCallId = v.nextCallId)
    (hs : v'.nextSid = v.nextSid) (hcalls : ∀ id, v.calls id = none → v'.calls id = none)
    (hstreams : ∀ id st', v'.streams id = some st' → ∃ st, v.streams id = some st ∧
      st'.sid = st.sid)
    (htodo : ∀ f ∈ v'.todo, opens f = true → f ∈ v.todo)
    (hsenders : ∀ sid, v.nextSid ≤ sid → ∀ f, (v.senders sid).carried f = 0 →
      (v'.senders sid).carried f = 0) : Bounds v' := by
  refine ⟨by rw [hs]; exact hb.pos, ?_, ?_, ?_, ?_, ?_⟩
  · intro id hid
    exact hcalls id (hb.calls id (hn ▸ hid))
  · intro id hid
    cases hst : v'.streams id with
    | none => rfl
    | some st' =>
        obtain ⟨st, hold, -⟩ := hstreams id st' hst
        rw [hb.streams id (hn ▸ hid)] at hold
        cases hold
  · intro id st' hst
    obtain ⟨st, hold, hsid⟩ := hstreams id st' hst
    rw [hsid, hs]
    exact hb.sids id st hold
  · intro sid ps decoder hmem
    rw [hs]
    exact hb.opening sid ps decoder (htodo _ hmem rfl)
  · intro sid hsid f
    exact hsenders sid (hs ▸ hsid) f (hb.senders sid (hs ▸ hsid) f)

theorem update_calls {calls : Nat → Option Call} {id : Nat} {x : Option Call}
    (h : x = none ∨ (calls id).isSome = true) (id' : Nat) (h0 : calls id' = none) :
    Function.update calls id x id' = none := by
  by_cases heq : id' = id
  · subst heq
    rcases h with h | h
    · rw [Function.update_self, h]
    · rw [h0] at h
      cases h
  · rw [Function.update_of_ne heq, h0]

theorem update_streams {streams : Nat → Option Stream} {id : Nat} {st x : Stream}
    (hst : streams id = some st) (hx : x.sid = st.sid) (id' : Nat) (st' : Stream)
    (h : Function.update streams id (some x) id' = some st') :
    ∃ st, streams id' = some st ∧ st'.sid = st.sid := by
  by_cases heq : id' = id
  · subst heq
    rw [Function.update_self, Option.some.injEq] at h
    exact ⟨st, hst, h ▸ hx⟩
  · rw [Function.update_of_ne heq] at h
    exact ⟨st', h, rfl⟩

theorem update_senders {senders : Nat → Sender Closure} {sid : Nat} {h2 : Sender Closure}
    (h : ∀ f, (senders sid).carried f = 0 → h2.carried f = 0) (sid' : Nat) (f : Closure → Nat)
    (h0 : (senders sid').carried f = 0) : (Function.update senders sid h2 sid').carried f = 0 := by
  by_cases heq : sid' = sid
  · subst heq
    rw [Function.update_self]
    exact h f h0
  · rw [Function.update_of_ne heq, h0]

/-- Moves that only touch queues, the log or the phase. -/
theorem Bounds.same {v' : Desk} (hb : Bounds v) (hn : v'.nextCallId = v.nextCallId)
    (hs : v'.nextSid = v.nextSid) (hcalls : v'.calls = v.calls) (hstreams : v'.streams = v.streams)
    (htodo : ∀ f ∈ v'.todo, opens f = true → f ∈ v.todo)
    (hsenders : ∀ sid f, (v'.senders sid).carried f = (v.senders sid).carried f) : Bounds v' :=
  hb.keep hn hs (fun id h => by rw [hcalls, h]) (fun id st h => ⟨st, by rw [← hstreams, h], rfl⟩)
    htodo fun sid _ f h => by rw [hsenders, h]

/-- A new HTTP/2 stream that carries nothing, with its frame. -/
theorem Bounds.submit (hb : Bounds v) (h2 : Sender Closure) (f : Frame)
    (hf : ∀ sid ps decoder, f = .openStreamRest sid ps decoder → sid = v.nextSid) :
    Bounds { v.submit h2 with todo := f :: v.todo } := by
  refine ⟨?_, hb.calls, hb.streams, ?_, ?_, ?_⟩
  · simp only [Desk.submit]
    omega
  · intro id st hst
    have := hb.sids id st hst
    simp only [Desk.submit]
    omega
  · intro sid ps decoder hmem
    simp only [Desk.submit]
    rcases List.mem_cons.mp hmem with heq | hmem
    · have := hf sid ps decoder heq.symm
      have := hb.pos
      omega
    · have := hb.opening sid ps decoder hmem
      omega
  · intro sid hsid g
    simp only [Desk.submit, setSender] at hsid ⊢
    rw [Function.update_of_ne (by omega)]
    exact hb.senders sid (by omega) g

theorem bounds_move {E : Env} {v' : Desk} (h : Books v) (hm : Move E v v') : Bounds v' := by
  have hb := h.bounds
  have hpop : ∀ {f : Frame} {fs : List Frame}, v.todo = f :: fs →
      ∀ g ∈ fs, opens g = true → g ∈ v.todo :=
    fun hf g hg _ => hf ▸ List.mem_cons_of_mem _ hg
  have hpush : ∀ {f : Frame}, opens f = false → ∀ g ∈ f :: v.todo, opens g = true → g ∈ v.todo := by
    intro f hf g hg ho
    rcases List.mem_cons.mp hg with rfl | hg
    · rw [hf] at ho
      cases ho
    · exact hg
  have hold : ∀ id st', v.streams id = some st' → ∃ st, v.streams id = some st ∧
      st'.sid = st.sid := fun id st h => ⟨st, h, rfl⟩
  cases hm with
  | post | limit | skip | sendRefused | unrouted | unregistered | connect | connectFailed | streamSend | callParked
  | streamParked | sendParked | closeParked =>
      exact ⟨hb.pos, hb.calls, hb.streams, hb.sids, hb.opening, hb.senders⟩
  | call | openStream =>
      exact ⟨hb.pos, fun id hid => hb.calls id (Nat.le_of_succ_le hid),
        fun id hid => hb.streams id (Nat.le_of_succ_le hid), hb.sids, hb.opening, hb.senders⟩
  | credit sid n =>
      exact hb.keep rfl rfl (fun _ h => h) hold (fun _ h _ => h) fun sid' _ =>
        update_senders (fun f h => by rw [Sender.credit_carried, h]) sid'
  | close sid =>
      exact hb.keep rfl rfl (fun _ h => h) hold (fun _ h _ => h) fun sid' _ =>
        update_senders (fun f h => by rw [Sender.close_carried, h]) sid'
  | reset sid =>
      refine hb.keep rfl rfl (fun _ h => h) hold (fun _ h _ => h) fun sid' _ f h0 => ?_
      refine update_senders ?_ sid' f h0
      exact fun f h => h
  | consumed hn hst =>
      have hlt := hb.sender_lt hn
      refine hb.keep rfl rfl (fun _ h => h) (update_streams hst rfl) (fun _ h _ => h) ?_
      intro sid hsid f h0
      simp only [note, setStream, setSender]
      rwa [Function.update_of_ne (by omega)]
  | consumedLate hn hst =>
      have hlt := hb.sender_lt hn
      refine hb.keep rfl rfl (fun _ h => h) hold (fun _ h _ => h) ?_
      intro sid hsid f h0
      simp only [note, setSender]
      rwa [Function.update_of_ne (by omega)]
  | connected hphase htodo =>
      exact hb.same rfl rfl rfl rfl (by simp [opens]) fun _ _ => rfl
  | started hf | startedStreams hf | callGone hf | streamGone hf =>
      exact hb.same rfl rfl rfl rfl (hpop hf) fun _ _ => rfl
  | lost hses hphase htodo =>
      exact hb.keep rfl rfl (fun _ _ => rfl) (fun _ _ h => by cases h) (fun _ h _ => h)
        fun sid _ f h0 => by rw [← h0]; exact Sender.close_carried _ _
  | callSubmitted fields body hn =>
      obtain ⟨htodo, -, hsid, -⟩ := hn.same
      rw [← htodo, ← hsid]
      exact (hn.bounds hb).submit _ _ (by simp)
  | callFailed status hn =>
      have hb' := hn.bounds hb
      rw [← hn.same.2.2.2]
      exact hb'.keep rfl rfl (fun id' h0 => update_calls (.inl rfl) id' h0)
        (fun id st h => ⟨st, h, rfl⟩) (fun _ h _ => h) fun _ _ _ h0 => h0
  | @callRegistered sid id call fs hf =>
      have hheld : 0 < v.waiting (single (.done id)) := by
        simp only [waiting, hf, List.map_cons, List.sum_cons, frameWeight, single, if_true]
        omega
      have hid : id < v.nextCallId := h.bound (t := .done id) rfl hheld
      refine ⟨hb.pos, ?_, hb.streams, hb.sids, ?_, hb.senders⟩
      · intro id' hid'
        simp only [setCall] at hid' ⊢
        rw [Function.update_of_ne (by omega)]
        exact hb.calls id' hid'
      · exact fun sid ps decoder hmem => hb.opening sid ps decoder (hpop hf _ hmem rfl)
  | callOver status payload hcall =>
      exact hb.keep rfl rfl (fun id' h0 => update_calls (.inl rfl) id' h0) hold (fun _ h _ => h)
        fun _ _ _ h0 => h0
  | callFed decoder hfeed hcall =>
      exact hb.keep rfl rfl (fun id' h0 => update_calls (.inr (by rw [hcall]; rfl)) id' h0) hold
        (fun _ h _ => h) fun _ _ _ h0 => h0
  | callTimeout hcall | cancel hcall =>
      exact hb.keep rfl rfl (fun id' h0 => update_calls (.inr (by rw [hcall]; rfl)) id' h0) hold
        (hpush rfl) fun _ _ _ h0 => h0
  | callTimedOut hf | cancelled hf =>
      exact hb.keep rfl rfl (fun id' h0 => update_calls (.inl rfl) id' h0) hold (hpop hf)
        fun _ _ _ h0 => h0
  | streamOpened hn =>
      obtain ⟨htodo, -, hsid, -⟩ := hn.same
      rw [← htodo, ← hsid]
      exact (hn.bounds hb).submit _ _ (by simp)
  | streamFailed status hn =>
      have hb' := hn.bounds hb
      exact ⟨hb'.pos, hb'.calls, hb'.streams, hb'.sids, hb'.opening, hb'.senders⟩
  | @streamRegistered sid ps decoder fs timer hf =>
      have hheld : 0 < v.waiting (single (.complete ps.id)) := by
        simp only [waiting, hf, List.map_cons, List.sum_cons, frameWeight, parkedWeight, single,
          if_true]
        omega
      have hid : ps.id < v.nextCallId := h.bound (t := .complete ps.id) rfl hheld
      refine ⟨hb.pos, hb.calls, ?_, ?_, ?_, hb.senders⟩
      · intro id' hid'
        simp only [setStream] at hid' ⊢
        rw [Function.update_of_ne (by omega)]
        exact hb.streams id' hid'
      · intro id' st' hst'
        simp only [setStream] at hst' ⊢
        by_cases heq : id' = ps.id
        · subst heq
          rw [Function.update_self, Option.some.injEq] at hst'
          subst hst'
          exact hb.opening sid ps decoder (by simp [hf])
        · rw [Function.update_of_ne heq] at hst'
          exact hb.sids id' st' hst'
      · exact fun sid ps decoder hmem => hb.opening sid ps decoder (hpop hf _ hmem rfl)
  | streamFed _ _ hst | streamOver _ _ hst | closeQueued hst | closeMarked hst
  | sendQueued _ hst =>
      exact hb.keep rfl rfl (fun _ h => h) (update_streams hst rfl) (fun _ h _ => h)
        fun _ _ _ h0 => h0
  | streamTimeout hst =>
      exact hb.keep rfl rfl (fun _ h => h) (update_streams hst rfl) (hpush rfl)
        fun _ _ _ h0 => h0
  | @streamErased id st fs hf hst =>
      refine hb.keep rfl rfl (fun _ h => h) ?_ (hpop hf) fun _ _ _ h0 => h0
      intro id' st' hst'
      simp only at hst'
      by_cases heq : id' = id
      · subst heq
        rw [Function.update_self] at hst'
        cases hst'
      · rw [Function.update_of_ne heq] at hst'
        exact ⟨st', hst', rfl⟩
  | @closeSent id st hst =>
      refine hb.keep rfl rfl (fun _ h => h) (update_streams hst rfl) (fun _ h _ => h) ?_
      intro sid' _ f h0
      refine update_senders ?_ sid' f h0
      intro g hg
      have hg : (v.senders st.sid).carried g = 0 := hg
      simp [hg]
  | @pumped id st out queue hst =>
      have hlt := (hb.sids id st hst).2
      refine hb.keep rfl rfl (fun _ h => h) (update_streams hst rfl) (fun _ h _ => h) ?_
      intro sid' hsid' f h0
      simp only [setSender, setStream]
      rwa [Function.update_of_ne (by omega)]

theorem marked_move {E : Env} {v' : Desk} (h : Marked v) (hm : Move E v v') : Marked v' := by
  -- an entry that is not marked needs no frame
  have hset : ∀ {id : Nat} {x : Option Call} {fs : List Frame},
      (∀ call, x = some call → call.completed = true → ending call.done id ∈ fs) →
      (∀ id' ≠ id, ∀ b, ending b id' ∈ v.todo → ending b id' ∈ fs) →
      ∀ id' call, Function.update v.calls id x id' = some call → call.completed = true →
        ending call.done id' ∈ fs := by
    intro id x fs hx hfs id' call hcall hc
    by_cases heq : id' = id
    · subst heq
      rw [Function.update_self] at hcall
      exact hx call hcall hc
    · rw [Function.update_of_ne heq] at hcall
      exact hfs id' heq call.done (h id' call hcall hc)
  have hpop : ∀ {f : Frame} {fs : List Frame}, v.todo = f :: fs →
      ∀ id b, f ≠ ending b id → ending b id ∈ v.todo → ending b id ∈ fs :=
    fun hf id b hne hmem => mem_tail hf hmem (Ne.symm hne)
  cases hm with
  | callSubmitted _ _ hn =>
      obtain ⟨-, -, -, hcalls⟩ := hn.same
      intro id call hcall hc
      simp only [submit, setSender, hcalls] at hcall
      exact List.mem_cons_of_mem _ (h id call hcall hc)
  | callFailed _ hn =>
      obtain ⟨htodo, -⟩ := hn.same
      simp only [Marked, note, htodo]
      exact hset (by simp) fun _ _ _ h => h
  | callRegistered hf =>
      refine hset (fun call heq hc => by cases heq; cases hc) fun id _ b => hpop hf id b ?_
      cases b <;> simp [ending]
  | callOver => exact hset (by simp) fun _ _ _ h => h
  | @callFed sid id call chunk decoder hfeed hcall =>
      refine hset (fun call' heq hc => ?_) fun _ _ _ h => h
      cases heq
      exact h id call hcall hc
  | @callTimeout id call hcall hlive =>
      refine hset (fun call' heq _ => ?_) fun _ _ _ h => List.mem_cons_of_mem _ h
      cases heq
      simp [ending, call.whole hlive]
  | callTimedOut hf =>
      refine hset (by simp) fun id hne b => hpop hf id b ?_
      cases b <;> simp [ending, Ne.symm hne]
  | callGone hf hnone =>
      intro id' call hcall hc
      refine hpop hf id' _ (fun heq => ?_) (h id' call hcall hc)
      unfold ending at heq
      split at heq
      · cases heq
        rw [hnone] at hcall
        cases hcall
      · cases heq
  | cancel hcall =>
      refine hset (fun call' heq _ => ?_) fun _ _ _ h => List.mem_cons_of_mem _ h
      cases heq
      simp [ending]
  | cancelled hf =>
      refine hset (by simp) fun id hne b => hpop hf id b ?_
      cases b <;> simp [ending, Ne.symm hne]
  | connected hphase htodo =>
      intro id call hcall hc
      have := h id call hcall hc
      simp [htodo] at this
  | started hf | startedStreams hf | streamRegistered _ hf | streamErased hf | streamGone hf =>
      intro id call hcall hc
      refine hpop hf id _ ?_ (h id call hcall hc)
      cases call.done <;> simp [ending]
  | lost => exact fun _ _ hcall => by cases hcall
  | streamOpened hn =>
      obtain ⟨-, -, -, hcalls, -⟩ := hn.keeps
      intro id call hcall hc
      simp only [submit, setSender, hcalls] at hcall
      exact List.mem_cons_of_mem _ (h id call hcall hc)
  | streamFailed _ hn =>
      obtain ⟨-, -, -, hcalls, -⟩ := hn.keeps
      obtain ⟨htodo, -⟩ := hn.same
      simpa only [Marked, note, htodo, hcalls] using h
  | streamTimeout =>
      exact fun id call hcall hc => List.mem_cons_of_mem _ (h id call hcall hc)
  | _ => exact h

theorem books_move {E : Env} {v' : Desk} (hr : Rest E v) (h : Books v) (hm : Move E v v') :
    Books v' :=
  ⟨ledger_move h hr hm, issued_move h.issued hm, bounds_move h hm, marked_move h.marked hm⟩

theorem books_fresh (o : Options) : Books (desk (fresh o).st (fresh o).frames) where
  ledger w := rfl
  issued := ⟨by simp [desk, fresh], by simp [desk, fresh]⟩
  bounds := {
    pos := by simp [desk, fresh]
    calls := fun _ _ => rfl
    streams := fun _ _ => rfl
    sids := fun _ _ h => by cases h
    opening := fun _ _ _ h => by cases h
    senders := fun _ _ _ => rfl }
  marked _ _ h := by cases h

end Desk

end Urpc.Channel
