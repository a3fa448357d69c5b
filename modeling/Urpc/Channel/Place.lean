/-
  Where the terminal callback of an operation is.

  The ledger says that a callback is held somewhere or has been called. For `done` and
  `on_complete` of an operation that has left the queues, with no function in the middle of its
  body, only one place is left: the table (`Books.count_done`, `Books.count_complete`). And an
  operation is a call or a stream, never both (`Kinds`).
-/
import Urpc.Channel.Coming
import Urpc.Channel.Ledger

namespace Urpc.Channel

open Cxx Total

/-! ## Terminal callbacks among the weights -/

theorem single_of_id_ne {t u : Token} (h : u.id ≠ t.id) : single t u = 0 := by
  have hne : u ≠ t := fun heq => h (congrArg Token.id heq)
  simp [single, hne]

section Terminal

variable {t : Token} (ht : t.terminal = true)
include ht

theorem cbWeight_terminal (id : Nat) (cb : Option CbId) : cbWeight (single t) id cb = 0 := by
  cases cb with
  | none => rfl
  | some cb =>
      have hne : Token.flushed id cb ≠ t := by
        rintro rfl
        cases ht
      simp [cbWeight, single, hne]

theorem queueWeight_terminal (id : Nat) (queue : List OutMsg) :
    queueWeight (single t) id queue = 0 := by
  simp [queueWeight, cbWeight_terminal ht]

/-- Closures hold no terminal callback. -/
theorem closureWeight_terminal (n : Closure) : closureWeight (single t) n = 0 :=
  cbWeight_terminal ht n.id n.cb

theorem carried_terminal (h2 : Sender Closure) : h2.carried (closureWeight (single t)) = 0 := by
  have hzero : closureWeight (single t) = fun _ => 0 := funext (closureWeight_terminal ht)
  have hbody : Sender.bodyWeight (closureWeight (single t)) = fun _ => 0 := by
    funext body
    simp [Sender.bodyWeight, hzero]
  rw [Sender.carried, hbody, hzero]
  simp

end Terminal

namespace Desk

variable {v v' : Desk} {E : Env} {t : Token}

/-- A callback whose operation has left the queues does not wait in them. -/
theorem waiting_terminal (ht : t.terminal = true) (hq : v.queued t.id = 0) (htodo : v.todo = []) :
    v.waiting (single t) = 0 := by
  obtain ⟨⟨hposted, hpending⟩, hparked⟩ :
      (v.posted.countP (Task.brings t.id) = 0 ∧ v.pending.countP (fun pc => pc.id = t.id) = 0) ∧
        v.parked.countP (fun ps => ps.id = t.id) = 0 := by
    simp only [queued] at hq
    omega
  have hsums : ((v.posted.map (taskWeight (single t))).sum = 0 ∧
      (v.pending.map fun pc => single t (.done pc.id)).sum = 0) ∧
      (v.parked.map (parkedWeight (single t))).sum = 0 := by
    refine ⟨⟨?_, ?_⟩, ?_⟩
    · refine List.sum_eq_zero fun x hx => ?_
      obtain ⟨task, hmem, rfl⟩ := List.mem_map.mp hx
      have hno := List.countP_eq_zero.mp hposted task hmem
      cases task with
      | call id => exact single_of_id_ne fun (heq : id = t.id) => hno (by simp [Task.brings, heq])
      | openStream id path events =>
          simp only [taskWeight]
          split
          · next hon =>
              exact single_of_id_ne fun (heq : id = t.id) => hno (by simp [Task.brings, hon, heq])
          · rfl
      | streamSend id framed cb => exact cbWeight_terminal ht id cb
      | cancel | streamCloseSend | pumpStream => rfl
    · refine List.sum_eq_zero fun x hx => ?_
      obtain ⟨pc, hmem, rfl⟩ := List.mem_map.mp hx
      have hno := List.countP_eq_zero.mp hpending pc hmem
      exact single_of_id_ne fun (heq : pc.id = t.id) => hno (by simp [heq])
    · refine List.sum_eq_zero fun x hx => ?_
      obtain ⟨ps, hmem, rfl⟩ := List.mem_map.mp hx
      have hno := List.countP_eq_zero.mp hparked ps hmem
      have hid : single t (.complete ps.id) = 0 :=
        single_of_id_ne fun (heq : ps.id = t.id) => hno (by simp [heq])
      simp [parkedWeight, hid, queueWeight_terminal ht]
  simp [waiting, hsums, htodo]

theorem waiting_pending {pc : PendingCall} (h : pc ∈ v.pending) :
    0 < v.waiting (single (.done pc.id)) := by
  have hle := List.le_sum_of_mem (List.mem_map_of_mem
    (f := fun pc' : PendingCall => single (.done pc.id) (.done pc'.id)) h)
  have hone : single (.done pc.id) (.done pc.id) = 1 := if_pos rfl
  simp only [waiting]
  omega

theorem waiting_parked {ps : PendingStream} (h : ps ∈ v.parked) :
    0 < v.waiting (single (.complete ps.id)) := by
  have hle := List.le_sum_of_mem (List.mem_map_of_mem
    (f := parkedWeight (single (.complete ps.id))) h)
  have hone : single (.complete ps.id) (.complete ps.id) = 1 := if_pos rfl
  rw [parkedWeight, hone] at hle
  simp only [waiting]
  omega

theorem tabled_done (hb : Bounds v) (id : Nat) :
    v.tabled (single (.done id)) = callWeight (single (.done id)) id (v.calls id) := by
  have hstreams : total (streamWeight (single (.done id))) v.nextCallId v.streams = 0 := by
    refine total_eq_zero fun i _ => ?_
    cases v.streams i with
    | none => rfl
    | some st => simp [streamWeight, queueWeight_terminal (t := .done id) rfl, single]
  have hsenders : total (fun _ h2 => Sender.carried (closureWeight (single (.done id))) h2)
      v.nextSid v.senders = 0 := total_eq_zero fun _ _ => carried_terminal rfl _
  have hcalls : total (callWeight (single (.done id))) v.nextCallId v.calls =
      callWeight (single (.done id)) id (v.calls id) := by
    refine total_eq_single (fun i _ hne => ?_) fun hge => by rw [hb.calls id hge]; rfl
    cases v.calls i with
    | none => rfl
    | some call => simp [callWeight, single, hne]
  rw [tabled, hcalls, hstreams, hsenders]
  omega

theorem tabled_complete (hb : Bounds v) (id : Nat) :
    v.tabled (single (.complete id)) =
      streamWeight (single (.complete id)) id (v.streams id) := by
  have hcalls : total (callWeight (single (.complete id))) v.nextCallId v.calls = 0 := by
    refine total_eq_zero fun i _ => ?_
    cases v.calls i with
    | none => rfl
    | some call => simp [callWeight, single]
  have hsenders : total (fun _ h2 => Sender.carried (closureWeight (single (.complete id))) h2)
      v.nextSid v.senders = 0 := total_eq_zero fun _ _ => carried_terminal rfl _
  have hstreams : total (streamWeight (single (.complete id))) v.nextCallId v.streams =
      streamWeight (single (.complete id)) id (v.streams id) := by
    refine total_eq_single (fun i _ hne => ?_) fun hge => by rw [hb.streams id hge]; rfl
    cases v.streams i with
    | none => rfl
    | some st => simp [streamWeight, queueWeight_terminal (t := .complete id) rfl, single, hne]
  rw [tabled, hcalls, hstreams, hsenders]
  omega

/-! ## The one place -/

theorem Books.count_eq (hb : Books v) (ht : t.terminal = true) (hi : t ∈ v.issued) :
    v.waiting (single t) + v.tabled (single t) + (called v.log).count t = 1 := by
  have hl := hb.ledger (single t)
  have hone := hb.issued.once t ht
  have hpos := List.count_pos_iff.mpr hi
  rw [due, sum_single, spent, calledWeight, sum_single] at hl
  omega

/-- What is held somewhere was issued. -/
theorem Books.mem_issued (hb : Books v) (h : v.waiting (single t) + v.tabled (single t) ≠ 0) :
    t ∈ v.issued := by
  have hl := hb.ledger (single t)
  rw [due, sum_single] at hl
  exact List.count_pos_iff.mp (by omega)

/-- With no function in the middle of its body, every call in the table is live. -/
theorem Books.call_live (hb : Books v) (htodo : v.todo = []) {id : Nat} {call : Call}
    (hcall : v.calls id = some call) : call.completed = false := by
  by_contra hc
  have := hb.marked id call hcall (by simpa using hc)
  simp [htodo] at this

/-- `done` of a call that has left the queues. -/
theorem Books.count_done (hb : Books v) {id : Nat} (hi : .done id ∈ v.issued)
    (hq : v.queued id = 0) (htodo : v.todo = []) :
    (called v.log).count (.done id) = if (v.calls id).isSome then 0 else 1 := by
  have hone := hb.count_eq rfl hi
  rw [waiting_terminal (t := .done id) rfl hq htodo, tabled_done hb.bounds] at hone
  cases hcall : v.calls id with
  | none =>
      rw [hcall] at hone
      simpa [callWeight] using hone
  | some call =>
      have hdone := call.whole (hb.call_live htodo hcall)
      rw [hcall] at hone
      simpa [callWeight, hdone, single] using hone

/-- `on_complete` of a stream that has left the queues and is not live. -/
theorem Books.count_complete (hb : Books v) {id : Nat} (hi : .complete id ∈ v.issued)
    (hq : v.queued id = 0) (htodo : v.todo = [])
    (hdead : ∀ st, v.streams id = some st → st.completed = true) :
    (called v.log).count (.complete id) = 1 := by
  have hone := hb.count_eq rfl hi
  rw [waiting_terminal (t := .complete id) rfl hq htodo, tabled_complete hb.bounds] at hone
  cases hst : v.streams id with
  | none =>
      rw [hst] at hone
      simpa [streamWeight] using hone
  | some st =>
      rw [hst] at hone
      simpa [streamWeight, hdead st hst] using hone

/-! ## Calls and streams -/

/-- One id, one operation: a call or a stream. -/
def Kinds (v : Desk) : Prop := ∀ id, .done id ∈ v.issued → .complete id ∉ v.issued

/-- A move gives out at most the next id, and every callback but `on_flushed` has a new one. -/
theorem issued_new_move (hm : Move E v v') :
    ∃ new, v'.issued = v.issued ++ new ∧
      ∀ t ∈ new, t.terminal = true → new = [t] ∧ t.id = v.nextCallId := by
  cases hm with
  | call => exact ⟨_, rfl, by simp [Token.id]⟩
  | openStream =>
      refine ⟨_, rfl, ?_⟩
      split <;> simp [Token.id]
  | streamSend id framed cb =>
      refine ⟨_, rfl, fun t ht hterm => ?_⟩
      obtain ⟨k, -, rfl⟩ := List.mem_map.mp ht
      cases hterm
  | callSubmitted _ _ hn | callFailed _ hn =>
      refine ⟨[], ?_, by simp⟩
      cases hn <;> simp [submit, setSender, note]
  | streamOpened hn | streamFailed _ hn =>
      refine ⟨[], ?_, by simp⟩
      cases hn <;> simp [submit, setSender, note]
  | _ => exact ⟨[], (List.append_nil _).symm, by simp⟩

theorem kinds_move (hi : Issued v) (h : Kinds v) (hm : Move E v v') : Kinds v' := by
  obtain ⟨new, hissued, hnew⟩ := issued_new_move hm
  intro id hdone hcomplete
  rw [hissued] at hdone hcomplete
  rcases List.mem_append.mp hdone with hd | hd <;> rcases List.mem_append.mp hcomplete with hc | hc
  · exact h id hd hc
  · have hlt := hi.fresh _ hd rfl
    have heq := (hnew _ hc rfl).2
    simp only [Token.id] at hlt heq
    omega
  · have hlt := hi.fresh _ hc rfl
    have heq := (hnew _ hd rfl).2
    simp only [Token.id] at hlt heq
    omega
  · rw [(hnew _ hd rfl).1] at hc
    simp at hc

theorem kinds_fresh (o : Options) : Kinds (desk (fresh o).st (fresh o).frames) :=
  fun _ h => by cases h

/-! ## Operations that are over stay over -/

section Over

variable {id : Nat}

theorem Arrived.not_brings (ha : v.Arrived id) {f : Frame} {fs : List Frame}
    (hf : v.todo = f :: fs) : f.brings id = false := by
  have hzero := ha.2
  rw [coming_eq, hf, List.countP_cons] at hzero
  by_contra hb
  rw [if_pos (by simpa using hb)] at hzero
  omega

theorem update_none {α : Type} {table : Nat → Option α} {id' : Nat} {x : Option α}
    (h : table id = none) (hx : id' = id → x = none) : Function.update table id' x id = none := by
  rw [Function.update_apply]
  split
  · next heq => exact hx heq.symm
  · exact h

theorem calls_none_move (ha : v.Arrived id) (h : v.calls id = none) (hm : Move E v v') :
    v'.calls id = none := by
  -- an entry that changes is not that of `id`
  have hset : ∀ {id' : Nat} {call : Call} {x : Option Call}, v.calls id' = some call →
      Function.update v.calls id' x id = none := by
    intro id' call x hcall
    refine update_none h fun heq => ?_
    rw [heq, h] at hcall
    cases hcall
  cases hm with
  | callSubmitted _ _ hn =>
      obtain ⟨-, -, -, hcalls⟩ := hn.same
      simpa only [submit, setSender, hcalls] using h
  | callFailed => exact update_none h fun _ => rfl
  | @callRegistered sid id' call fs hf =>
      refine update_none h fun heq => ?_
      have hno := ha.not_brings hf
      simp [Frame.brings, heq] at hno
  | callOver _ _ hcall | callFed _ _ hcall | callTimeout hcall | cancel hcall => exact hset hcall
  | callTimedOut _ hcall => exact hset hcall
  | cancelled => exact update_none h fun _ => rfl
  | lost => rfl
  | streamOpened hn | streamFailed _ hn =>
      obtain ⟨-, -, -, hcalls, -⟩ := hn.keeps
      simpa only [submit, setSender, note, hcalls] using h
  | _ => exact h

theorem dead_move (ha : v.Arrived id) (h : ∀ st, v.streams id = some st → st.completed = true)
    (hm : Move E v v') : ∀ st, v'.streams id = some st → st.completed = true := by
  -- an entry that changes keeps its mark, or is not that of `id`
  have hset : ∀ {id' : Nat} {st x : Stream}, v.streams id' = some st →
      (st.completed = true → x.completed = true) →
      ∀ st', Function.update v.streams id' (some x) id = some st' → st'.completed = true := by
    intro id' st x hst hx st' hst'
    rw [Function.update_apply] at hst'
    split at hst'
    · next heq =>
        cases hst'
        exact hx (h st (heq ▸ hst))
    · exact h st' hst'
  cases hm with
  | consumed _ hst => exact hset hst fun hc => hc
  | streamFed _ _ hst | closeQueued hst | closeMarked hst | closeSent hst | sendQueued _ hst
  | pumped hst | streamTimeout hst => exact hset hst fun hc => hc
  | streamOver _ _ hst => exact hset hst fun _ => rfl
  | @streamErased id' st' fs hf =>
      intro st hst
      simp only [Function.update_apply] at hst
      split at hst
      · cases hst
      · exact h st hst
  | @streamRegistered sid ps decoder fs timer hf =>
      intro st hst
      simp only [setStream, Function.update_apply] at hst
      split at hst
      · next heq =>
          have hno := ha.not_brings hf
          simp [Frame.brings, heq] at hno
      · exact h st hst
  | lost => exact fun st hst => by cases hst
  | callSubmitted _ _ hn | callFailed _ hn | streamOpened hn | streamFailed _ hn =>
      obtain ⟨-, -, hstreams, -⟩ := hn.keeps
      simpa only [submit, setSender, note, hstreams] using h
  | _ => exact h

end Over

end Desk

end Urpc.Channel
