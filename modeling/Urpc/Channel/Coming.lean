/-
  Operations on their way into the tables.

  `coming id` counts the places from which the operation `id` can still be registered: its
  task, a queue, a frame that waits for the submission. Ids are given out once, so it is at most
  one and never grows (`coming_move`): an operation that has been registered is not registered
  again.
-/
import Urpc.Channel.Rest

namespace Urpc.Channel

open Cxx

/-- The operation that a task starts. -/
def Task.brings (id : Nat) : Task → Bool
  | .call id' .. => id' = id
  | .openStream id' _ events _ => events.onComplete && id' = id
  | _ => false

/-- The operation that a frame registers. -/
def Frame.brings (id : Nat) : Frame → Bool
  | .callNowRest _ id' _ => id' = id
  | .openStreamRest _ ps _ => ps.id = id
  | _ => false

theorem Task.plain_brings {t : Task} (ht : t.plain = true) (id : Nat) : t.brings id = false := by
  cases t <;> simp_all [Task.plain, Task.brings]

theorem countP_updateParked (id id' : Nat) (f : PendingStream → PendingStream)
    (hf : ∀ ps, (f ps).id = ps.id) (parked : List PendingStream) :
    (updateParked id' f parked).countP (fun ps => ps.id = id) =
      parked.countP (fun ps => ps.id = id) := by
  induction parked with
  | nil => rfl
  | cons ps parked ih =>
      unfold updateParked
      split
      · simp only [List.countP_cons, hf]
      · simp only [List.countP_cons, ih]

namespace Desk

variable {v v' : Desk} {E : Env}

def coming (v : Desk) (id : Nat) : Nat :=
  v.posted.countP (Task.brings id) + v.pending.countP (fun pc => pc.id = id) +
    v.parked.countP (fun ps => ps.id = id) + v.todo.countP (Frame.brings id)

/-- The same without the frames: the operation has not been submitted. -/
def queued (v : Desk) (id : Nat) : Nat :=
  v.posted.countP (Task.brings id) + v.pending.countP (fun pc => pc.id = id) +
    v.parked.countP (fun ps => ps.id = id)

theorem coming_eq (v : Desk) (id : Nat) :
    v.coming id = v.queued id + v.todo.countP (Frame.brings id) := rfl

theorem NextCall.queued {id : Nat} {call : NewCall} (h : NextCall v id call v') (id' : Nat) :
    v.queued id' = v'.queued id' + if id = id' then 1 else 0 := by
  cases h with
  | posted timer hp =>
      simp only [Desk.queued, hp, List.countP_cons, Task.brings, decide_eq_true_eq]
      omega
  | pending hp =>
      simp only [Desk.queued, hp, List.countP_cons, decide_eq_true_eq]
      omega

theorem NextStream.queued {ps : PendingStream} (h : NextStream v ps v') (id' : Nat) :
    v.queued id' = v'.queued id' + if ps.id = id' then 1 else 0 := by
  cases h with
  | posted hp hq =>
      simp only [Desk.queued, hp, List.countP_cons, Task.brings, ps.terminal, Bool.true_and,
        decide_eq_true_eq]
      omega
  | parked hp =>
      simp only [Desk.queued, hp, List.countP_cons, decide_eq_true_eq]
      omega

/-- An operation comes once, with the move that gives it its id, and leaves the queues once. -/
theorem queued_coming_move (hm : Move E v v') (id : Nat) :
    v'.queued id ≤ v.queued id + (if v.nextCallId ≤ id ∧ id < v'.nextCallId then 1 else 0) ∧
      v'.coming id ≤ v.coming id + if v.nextCallId ≤ id ∧ id < v'.nextCallId then 1 else 0 := by
  cases hm with
  | call | openStream =>
      simp only [coming, queued, List.countP_append, List.countP_cons, List.countP_nil,
        Task.brings, decide_eq_true_eq, Bool.and_eq_true]
      split <;> split <;> omega
  | streamSend => simp [coming, queued, Task.brings]
  | post ht => simp [coming, queued, Task.plain_brings ht]
  | consumed => simp [coming, queued, note, setStream, setSender, Task.brings]
  | connected hphase htodo => simp [coming, queued, htodo, Frame.brings]
  | started hf | startedStreams hf | callGone hf | streamGone hf | callRegistered hf
  | callTimedOut hf | cancelled hf | streamErased hf | streamRegistered _ hf =>
      simp only [coming, queued, note, setCall, setStream, hf, List.countP_cons]
      omega
  | lost =>
      simp only [coming, queued, lose, List.countP_nil]
      omega
  | skip hp | sendQueued hp | sendRefused status hp =>
      simp only [coming, queued, note, setStream, hp, List.countP_cons]
      omega
  | callParked timer hp =>
      simp only [coming, queued, hp, List.countP_cons, List.countP_append, List.countP_nil,
        Task.brings, decide_eq_true_eq]
      omega
  | streamParked hp =>
      rename_i ps ts _ _
      simp only [coming, queued, hp, List.countP_cons, List.countP_append, List.countP_nil,
        Task.brings, ps.terminal, Bool.true_and, decide_eq_true_eq]
      omega
  | callSubmitted fields body hn =>
      have hsame := hn.queued id
      rw [coming_eq, coming_eq, ← hn.same.1]
      simp only [queued, submit, setSender, List.countP_cons, Frame.brings,
        decide_eq_true_eq] at hsame ⊢
      omega
  | streamOpened hn =>
      have hsame := hn.queued id
      rw [coming_eq, coming_eq, ← hn.same.1]
      simp only [queued, submit, setSender, List.countP_cons, Frame.brings,
        decide_eq_true_eq] at hsame ⊢
      omega
  | callFailed status hn =>
      have hsame := hn.queued id
      rw [coming_eq, coming_eq, ← hn.same.1]
      simp only [queued, note] at hsame ⊢
      omega
  | streamFailed status hn =>
      have hsame := hn.queued id
      rw [coming_eq, coming_eq, ← hn.same.1]
      simp only [queued, note] at hsame ⊢
      omega
  | callTimeout | cancel | streamTimeout =>
      simp [coming, queued, setCall, setStream, Frame.brings]
  | @sendParked id' framed cb close ts ps hp hps =>
      have hsame := countP_updateParked id id'
        (fun ps => { ps with outQueue := ps.outQueue ++ [⟨framed, close, cb⟩] }) (fun _ => rfl)
        v.parked
      simp only [coming, queued, hp, List.countP_cons, hsame]
      omega
  | closeParked id' =>
      have hsame := countP_updateParked id id'
        (fun ps => { ps with outQueue := closeQueue ps.outQueue }) (fun _ => rfl) v.parked
      simp only [coming, queued, hsame]
      omega
  | _ => exact ⟨Nat.le_add_right _ _, Nat.le_add_right _ _⟩

theorem coming_move (hm : Move E v v') (id : Nat) :
    v'.coming id ≤ v.coming id + if v.nextCallId ≤ id ∧ id < v'.nextCallId then 1 else 0 :=
  (queued_coming_move hm id).2

/-- Ids are given out in order, and each comes once. -/
structure Numbered (v : Desk) : Prop where
  fresh : ∀ id, v.nextCallId ≤ id → v.coming id = 0
  once : ∀ id, v.coming id ≤ 1

theorem nextCallId_move (hm : Move E v v') : v.nextCallId ≤ v'.nextCallId := by
  cases hm with
  | call | openStream => exact Nat.le_succ _
  | callSubmitted fields body hn | callFailed status hn => cases hn <;> exact Nat.le_refl _
  | streamOpened hn | streamFailed status hn => cases hn <;> exact Nat.le_refl _
  | _ => exact Nat.le_refl _

theorem numbered_move (h : Numbered v) (hm : Move E v v') : Numbered v' := by
  have hle := coming_move hm
  have hnext := nextCallId_move hm
  constructor
  · intro id hid
    have hold := hle id
    have hzero := h.fresh id (by omega)
    rw [if_neg (by omega)] at hold
    omega
  · intro id
    have hold := hle id
    have hone := h.once id
    split at hold
    · next hid =>
        have := h.fresh id hid.1
        omega
    · omega

/-- A frame that brings an operation is the only place where it comes from. -/
theorem Numbered.brought {f : Frame} {fs : List Frame} {id : Nat} (h : Numbered v)
    (hf : v.todo = f :: fs) (hb : f.brings id = true) (hposted : v'.posted = v.posted)
    (hpending : v'.pending = v.pending) (hparked : v'.parked = v.parked) (htodo : v'.todo = fs) :
    id < v.nextCallId ∧ v'.coming id = 0 := by
  have hone := h.once id
  have hsucc : v.coming id = v'.coming id + 1 := by
    simp only [coming, hf, hposted, hpending, hparked, htodo, List.countP_cons, hb, if_true]
    omega
  refine ⟨?_, by omega⟩
  by_contra hge
  have hzero := h.fresh id (by omega)
  omega

/-- The operation has its id and does not come any more. -/
def Arrived (v : Desk) (id : Nat) : Prop := id < v.nextCallId ∧ v.coming id = 0

theorem Arrived.queued {id : Nat} (h : v.Arrived id) : v.queued id = 0 := by
  have hzero := h.2
  rw [coming_eq] at hzero
  omega

theorem arrived_move {id : Nat} (hm : Move E v v') (h : v.Arrived id) : v'.Arrived id := by
  obtain ⟨hlt, hzero⟩ := h
  have hnext := nextCallId_move hm
  have hold := coming_move hm id
  rw [if_neg (by omega)] at hold
  exact ⟨by omega, by omega⟩

/-- An operation that has left the queues does not come back to them. -/
theorem queued_zero_move {id : Nat} (hm : Move E v v') (hid : id < v.nextCallId)
    (h : v.queued id = 0) : v'.queued id = 0 := by
  have hold := (queued_coming_move hm id).1
  rw [if_neg (by omega)] at hold
  omega

theorem numbered_fresh (o : Options) : Numbered (desk (fresh o).st (fresh o).frames) :=
  ⟨fun _ _ => rfl, fun _ => Nat.zero_le 1⟩

end Desk

end Urpc.Channel
