/-
  The entries of `calls` and `streams`.

  An operation is in a table once it has been submitted, and then it comes from nowhere else;
  a call whose end is under way is marked; a stream that is marked has been told of its end.

  Proved: `landed_move`, for every move; `Landed.call_free` and `Landed.stream_free`, that an
  operation on its way has no entry.
-/
import Urpc.Channel.Place
import Urpc.Channel.Terminal

namespace Urpc.Channel

open Cxx

/-- A call's end is under way in this frame. -/
def Frame.ends (id : Nat) : Frame → Bool
  | .callTimeoutRest id' | .cancelRest id' => id' = id
  | _ => false

/-! ## Tables -/

theorem update_eq_some {α : Type} {table : Nat → Option α} {id id' : Nat} {x y : α}
    (h : Function.update table id (some x) id' = some y) :
    id' = id ∧ y = x ∨ id' ≠ id ∧ table id' = some y := by
  by_cases heq : id' = id
  · subst heq
    rw [Function.update_self] at h
    exact .inl ⟨rfl, (Option.some.inj h).symm⟩
  · rw [Function.update_of_ne heq] at h
    exact .inr ⟨heq, h⟩

theorem erase_eq_some {α : Type} {table : Nat → Option α} {id id' : Nat} {y : α}
    (h : Function.update table id none id' = some y) : id' ≠ id ∧ table id' = some y := by
  by_cases heq : id' = id
  · subst heq
    rw [Function.update_self] at h
    cases h
  · rw [Function.update_of_ne heq] at h
    exact ⟨heq, h⟩

theorem mem_entries {α : Type} {n id : Nat} {table : Nat → Option α} {a : α} :
    (id, a) ∈ entries n table ↔ id < n ∧ table id = some a := by
  simp only [entries, List.mem_filterMap, List.mem_range, Option.map_eq_some_iff, Prod.mk.injEq]
  constructor
  · rintro ⟨id', hlt, a', ha, rfl, rfl⟩
    exact ⟨hlt, ha⟩
  · rintro ⟨hlt, ha⟩
    exact ⟨id, hlt, a, ha, rfl, rfl⟩

namespace Desk

variable {v v' : Desk} {E : Env} {id : Nat}

/-- The move takes the frame `f` off the stack, and nothing out of a queue. -/
structure Pops (v v' : Desk) (f : Frame) : Prop where
  top : v.todo = f :: v'.todo
  posted : v'.posted = v.posted
  pending : v'.pending = v.pending
  parked : v'.parked = v.parked

theorem Pops.arrived {f : Frame} (h : Pops v v' f) (hn : Numbered v) (hm : Move E v v')
    (hb : f.brings id = true) : v'.Arrived id := by
  obtain ⟨hlt, hzero⟩ := hn.brought h.top hb h.posted h.pending h.parked rfl
  exact ⟨Nat.lt_of_lt_of_le hlt (nextCallId_move hm), hzero⟩

/-- Where an entry of `calls` comes from. -/
theorem calls_move (hm : Move E v v') {call' : Call} (h : v'.calls id = some call') :
    (∃ call, v.calls id = some call ∧ (call.completed = true → call'.completed = true)) ∨
      ∃ sid call, Pops v v' (.callNowRest sid id call) := by
  -- an entry changes, and stays marked if it was
  have hset : ∀ {id' : Nat} {call x : Call}, v.calls id' = some call →
      Function.update v.calls id' (some x) id = some call' →
      (call.completed = true → x.completed = true) →
      ∃ call, v.calls id = some call ∧ (call.completed = true → call'.completed = true) := by
    intro id' call x hcall hcall' hx
    rcases update_eq_some hcall' with ⟨rfl, rfl⟩ | ⟨-, hold⟩
    · exact ⟨call, hcall, hx⟩
    · exact ⟨call', hold, fun hc => hc⟩
  have herase : ∀ {id' : Nat}, Function.update v.calls id' none id = some call' →
      ∃ call, v.calls id = some call ∧ (call.completed = true → call'.completed = true) :=
    fun hcall' => ⟨call', (erase_eq_some hcall').2, fun hc => hc⟩
  cases hm with
  | callRegistered hf =>
      rcases update_eq_some h with ⟨rfl, -⟩ | ⟨-, hold⟩
      · exact .inr ⟨_, _, hf, rfl, rfl, rfl⟩
      · exact .inl ⟨call', hold, fun hc => hc⟩
  | callFed _ _ hcall => exact .inl (hset hcall h fun hc => hc)
  | callTimeout hcall | cancel hcall => exact .inl (hset hcall h fun _ => rfl)
  | callFailed | callOver | callTimedOut | cancelled => exact .inl (herase h)
  | lost => cases h
  | callSubmitted _ _ hn =>
      exact .inl ⟨call', (congrFun hn.same.2.2.2 id).symm.trans h, fun hc => hc⟩
  | streamOpened hn | streamFailed _ hn =>
      exact .inl ⟨call', (congrFun hn.keeps.2.2.2.1 id).symm.trans h, fun hc => hc⟩
  | _ => exact .inl ⟨call', h, fun hc => hc⟩

/-- Where an entry of `streams` comes from. -/
theorem streams_move (hm : Move E v v') {st' : Stream} (h : v'.streams id = some st') :
    (∃ st, v.streams id = some st ∧
      (st'.completed = true → st.completed = true ∨ .complete id ∈ called v'.log)) ∨
      st'.completed = false ∧ ∃ sid ps decoder, ps.id = id ∧
        Pops v v' (.openStreamRest sid ps decoder) := by
  have hset : ∀ {id' : Nat} {st x : Stream}, v.streams id' = some st →
      Function.update v.streams id' (some x) id = some st' →
      (x.completed = true → st.completed = true) →
      ∃ st, v.streams id = some st ∧
        (st'.completed = true → st.completed = true ∨ .complete id ∈ called v'.log) := by
    intro id' st x hst hst' hx
    rcases update_eq_some hst' with ⟨rfl, rfl⟩ | ⟨-, hold⟩
    · exact ⟨st, hst, fun hc => .inl (hx hc)⟩
    · exact ⟨st', hold, .inl⟩
  cases hm with
  | @streamRegistered sid ps decoder fs timer hf =>
      rcases update_eq_some h with ⟨rfl, rfl⟩ | ⟨-, hold⟩
      · exact .inr ⟨rfl, sid, ps, decoder, rfl, hf, rfl, rfl, rfl⟩
      · exact .inl ⟨st', hold, .inl⟩
  | consumed _ hst | streamFed _ _ hst | closeQueued hst | closeMarked hst | closeSent hst
  | sendQueued _ hst | pumped hst | streamTimeout hst =>
      exact .inl (hset hst h fun hc => hc)
  | @streamOver id' st decoder status hst =>
      rcases update_eq_some h with ⟨rfl, rfl⟩ | ⟨-, hold⟩
      · refine .inl ⟨st, hst, fun _ => .inr ?_⟩
        simp [note, setStream, called, tellFail, tellComplete, st.terminal, Obs.token]
      · exact .inl ⟨st', hold, .inl⟩
  | streamErased => exact .inl ⟨st', (erase_eq_some h).2, .inl⟩
  | lost => cases h
  | callSubmitted _ _ hn | callFailed _ hn | streamOpened hn | streamFailed _ hn =>
      exact .inl ⟨st', (congrFun hn.keeps.2.2.1 id).symm.trans h, .inl⟩
  | _ => exact .inl ⟨st', h, .inl⟩

/-- A call's end starts with its mark. -/
theorem ends_move (hm : Move E v v') {f : Frame} (hf : f ∈ v'.todo) (he : f.ends id = true) :
    f ∈ v.todo ∨ ∃ call call', v.calls id = some call ∧ v'.calls id = some call' ∧
      call'.completed = true := by
  cases hm with
  | callTimeout hcall | cancel hcall =>
      rcases List.mem_cons.mp hf with rfl | hf
      · obtain rfl := of_decide_eq_true he
        exact .inr ⟨_, _, hcall, Function.update_self .., rfl⟩
      · exact .inl hf
  | callSubmitted _ _ hn | streamOpened hn =>
      rcases List.mem_cons.mp hf with rfl | hf
      · cases he
      · exact .inl hf
  | streamTimeout =>
      rcases List.mem_cons.mp hf with rfl | hf
      · cases he
      · exact .inl hf
  | connected =>
      simp only [List.mem_cons, List.not_mem_nil, or_false] at hf
      rcases hf with rfl | rfl <;> cases he
  | started htop | startedStreams htop | callRegistered htop | callTimedOut htop | callGone htop
  | cancelled htop | streamErased htop | streamGone htop | streamRegistered _ htop =>
      exact .inl (htop ▸ List.mem_cons_of_mem _ hf)
  | callFailed _ hn | streamFailed _ hn =>
      exact .inl (hn.same.1 ▸ hf)
  | _ => exact .inl hf

/-! ## The invariant -/

structure Landed (v : Desk) : Prop where
  call : ∀ id call, v.calls id = some call → v.Arrived id ∧ .done id ∈ v.issued
  stream : ∀ id st, v.streams id = some st → v.Arrived id ∧ .complete id ∈ v.issued
  ending : ∀ id, ∀ f ∈ v.todo, f.ends id = true →
    v.Arrived id ∧ ∀ call, v.calls id = some call → call.completed = true
  told : ∀ id st, v.streams id = some st → st.completed = true → .complete id ∈ called v.log

theorem landed_fresh (o : Options) : Landed (desk (fresh o).st (fresh o).frames) where
  call := nofun
  stream := nofun
  ending := nofun
  told := nofun

theorem landed_move (hn : Numbered v) (hb : Books v) (h : Landed v) (hm : Move E v v') :
    Landed v' := by
  obtain ⟨new, hissued, -⟩ := issued_new_move hm
  have hkeep : ∀ {t : Token}, t ∈ v.issued → t ∈ v'.issued :=
    fun ht => hissued ▸ List.mem_append_left _ ht
  obtain ⟨os, hlog, -⟩ := log_move hm
  have hcalled : ∀ {t : Token}, t ∈ called v.log → t ∈ called v'.log := by
    intro t ht
    rw [hlog, called, List.filterMap_append]
    exact List.mem_append_left _ ht
  -- what a frame holds was issued
  have hframe : ∀ {f : Frame} {t : Token}, f ∈ v.todo → 0 < frameWeight (single t) f →
      t ∈ v.issued := by
    intro f t hf hpos
    refine hb.mem_issued ?_
    have hle := List.le_sum_of_mem (List.mem_map_of_mem (f := frameWeight (single t)) hf)
    simp only [waiting]
    omega
  constructor
  · intro id call' hcall'
    rcases calls_move hm hcall' with ⟨call, hcall, -⟩ | ⟨sid, call, hpop⟩
    · exact ⟨arrived_move hm (h.call id call hcall).1, hkeep (h.call id call hcall).2⟩
    · have hheld : .callNowRest sid id call ∈ v.todo := hpop.top ▸ List.mem_cons_self
      exact ⟨hpop.arrived hn hm (by simp [Frame.brings]),
        hkeep (hframe hheld (by simp [frameWeight, single]))⟩
  · intro id st' hst'
    rcases streams_move hm hst' with ⟨st, hst, -⟩ | ⟨-, sid, ps, decoder, rfl, hpop⟩
    · exact ⟨arrived_move hm (h.stream id st hst).1, hkeep (h.stream id st hst).2⟩
    · have hheld : .openStreamRest sid ps decoder ∈ v.todo := hpop.top ▸ List.mem_cons_self
      exact ⟨hpop.arrived hn hm (by simp [Frame.brings]),
        hkeep (hframe hheld (by simp [frameWeight, parkedWeight, single]))⟩
  · intro id f hf he
    rcases ends_move hm hf he with hf | ⟨call, call', hcall, hcall', hc⟩
    · obtain ⟨ha, hmark⟩ := h.ending id f hf he
      refine ⟨arrived_move hm ha, fun call' hcall' => ?_⟩
      rcases calls_move hm hcall' with ⟨call, hcall, hc⟩ | ⟨sid, call, hpop⟩
      · exact hc (hmark call hcall)
      · have hno := ha.not_brings hpop.top
        simp [Frame.brings] at hno
    · refine ⟨arrived_move hm (h.call id call hcall).1, fun call₁ hcall₁ => ?_⟩
      rw [hcall'] at hcall₁
      cases hcall₁
      exact hc
  · intro id st' hst' hc
    rcases streams_move hm hst' with ⟨st, hst, hend⟩ | ⟨hlive, -⟩
    · rcases hend hc with hold | htold
      · exact hcalled (h.told id st hst hold)
      · exact htold
    · rw [hlive] at hc
      cases hc

theorem Landed.call_free (h : Landed v) (hc : 0 < v.coming id) : v.calls id = none := by
  cases hcall : v.calls id with
  | none => rfl
  | some call => exact absurd (h.call id call hcall).1.2 (by omega)

theorem Landed.stream_free (h : Landed v) (hc : 0 < v.coming id) : v.streams id = none := by
  cases hst : v.streams id with
  | none => rfl
  | some st => exact absurd (h.stream id st hst).1.2 (by omega)

theorem coming_of_pending {pc : PendingCall} (h : pc ∈ v.pending) : 0 < v.coming pc.id := by
  have hpos : 0 < v.pending.countP fun pc' => pc'.id = pc.id :=
    List.countP_pos_iff.mpr ⟨pc, h, by simp⟩
  simp only [coming]
  omega

theorem coming_of_task {t : Task} (h : t ∈ v.posted) (hb : t.brings id = true) :
    0 < v.coming id := by
  have hpos : 0 < v.posted.countP (Task.brings id) := List.countP_pos_iff.mpr ⟨t, h, hb⟩
  simp only [coming]
  omega

theorem coming_of_frame {f : Frame} (h : f ∈ v.todo) (hb : f.brings id = true) :
    0 < v.coming id := by
  have hpos : 0 < v.todo.countP (Frame.brings id) := List.countP_pos_iff.mpr ⟨f, h, hb⟩
  simp only [coming]
  omega

end Desk

end Urpc.Channel
