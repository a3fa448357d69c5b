/-
  What a channel can hold in each phase of its connection.

  Before the connection is up and after it broke there are no calls, no streams and no frames;
  once it is up nothing waits for it, except while `StartPending` and `StartPendingStreams` are
  at work; a broken channel has no parked call, and no parked stream if connects fail clear.

  Proved: `rest_move`, and `reach_desk`, the invariant rule for properties of the desk.
-/
import Urpc.Channel.Steps

namespace Urpc.Channel

open Cxx Relation

namespace Desk

structure Rest (E : Env) (v : Desk) : Prop where
  frames : v.phase ≠ .ready → v.todo = []
  calls : v.phase ≠ .ready → ∀ id, v.calls id = none
  streams : v.phase ≠ .ready → ∀ id, v.streams id = none
  session : v.session = true → v.phase = .ready
  pending : v.phase = .ready → .startPending ∈ v.todo ∨ v.pending = []
  parked : v.phase = .ready → .startPendingStreams ∈ v.todo ∨ v.parked = []
  broken : v.phase = .broken → v.pending = []
  clear : E.clear → v.phase = .broken → v.parked = []

namespace Rest

variable {E : Env} {v : Desk}

/-- A frame is waiting, so the channel is ready. -/
theorem ready_of_frame (h : Rest E v) {f : Frame} {fs : List Frame} (hf : v.todo = f :: fs) :
    v.phase = .ready := by
  by_contra hne
  rw [h.frames hne] at hf
  cases hf

theorem ready_of_call (h : Rest E v) {id : Nat} {call : Call} (hcall : v.calls id = some call) :
    v.phase = .ready := by
  by_contra hne
  rw [h.calls hne id] at hcall
  cases hcall

theorem ready_of_stream (h : Rest E v) {id : Nat} {st : Stream} (hst : v.streams id = some st) :
    v.phase = .ready := by
  by_contra hne
  rw [h.streams hne id] at hst
  cases hst

/-- In a ready channel only the two loops matter. -/
theorem of_ready (hphase : v.phase = .ready)
    (hpending : .startPending ∈ v.todo ∨ v.pending = [])
    (hparked : .startPendingStreams ∈ v.todo ∨ v.parked = []) : Rest E v where
  frames h := absurd hphase h
  calls h := absurd hphase h
  streams h := absurd hphase h
  session _ := hphase
  pending _ := hpending
  parked _ := hparked
  broken h := by rw [hphase] at h; cases h
  clear _ h := by rw [hphase] at h; cases h

end Rest

theorem updateParked_nil {id : Nat} {f : PendingStream → PendingStream} {l : List PendingStream}
    (h : l = []) : updateParked id f l = [] := by rw [h]; rfl

/-- A frame other than `f` stays when `f` is taken off the stack. -/
theorem mem_tail {f g : Frame} {fs l : List Frame} (hl : l = f :: fs) (h : g ∈ l) (hne : g ≠ f) :
    g ∈ fs := by
  rw [hl] at h
  exact (List.mem_cons.mp h).resolve_left hne

theorem NextCall.keeps {v w : Desk} {id : Nat} {call : NewCall} (h : NextCall v id call w) :
    (v.pending = [] → w.pending = []) ∧ w.parked = v.parked ∧ w.streams = v.streams ∧
      w.session = v.session := by
  cases h with
  | posted => exact ⟨fun h => h, rfl, rfl, rfl⟩
  | pending hp => exact ⟨fun h => (by rw [h] at hp; cases hp), rfl, rfl, rfl⟩

theorem NextStream.keeps {v w : Desk} {ps : PendingStream} (h : NextStream v ps w) :
    (v.parked = [] → w.parked = []) ∧ w.pending = v.pending ∧ w.streams = v.streams ∧
      w.calls = v.calls ∧ w.session = v.session := by
  cases h with
  | posted => exact ⟨fun h => h, rfl, rfl, rfl, rfl⟩
  | parked hp => exact ⟨fun h => (by rw [h] at hp; cases hp), rfl, rfl, rfl, rfl⟩

theorem rest_move {E : Env} {v w : Desk} (h : Rest E v) (hm : Move E v w) : Rest E w := by
  have hstream : ∀ {id : Nat} {st : Stream}, v.streams id = some st → v.phase = .ready :=
    h.ready_of_stream
  have hcall : ∀ {id : Nat} {call : Call}, v.calls id = some call → v.phase = .ready :=
    h.ready_of_call
  -- a frame other than the two loops comes off the stack
  have hpop : ∀ {f : Frame} {fs : List Frame}, v.todo = f :: fs →
      f ≠ .startPending → f ≠ .startPendingStreams → v.phase = .ready ∧
        (.startPending ∈ fs ∨ v.pending = []) ∧ (.startPendingStreams ∈ fs ∨ v.parked = []) := by
    intro f fs hf h1 h2
    have hr := h.ready_of_frame hf
    exact ⟨hr, (h.pending hr).imp_left fun hp => mem_tail hf hp h1.symm,
      (h.parked hr).imp_left fun hp => mem_tail hf hp h2.symm⟩
  have hpush : ∀ {f g : Frame} {p : Prop}, g ∈ v.todo ∨ p → g ∈ f :: v.todo ∨ p :=
    fun h => h.imp_left (List.mem_cons_of_mem _)
  cases hm with
  | call | openStream | streamSend | post | limit | credit | close | reset | skip | sendRefused
  | unrouted | unregistered | consumedLate =>
      exact ⟨h.frames, h.calls, h.streams, h.session, h.pending, h.parked, h.broken, h.clear⟩
  | consumed _ hst | streamFed _ _ hst | streamOver _ _ hst | closeQueued hst | closeMarked hst
  | closeSent hst | pumped hst | sendQueued _ hst =>
      have hr := hstream hst
      exact .of_ready hr (h.pending hr) (h.parked hr)
  | callOver _ _ hc | callFed _ _ hc =>
      have hr := hcall hc
      exact .of_ready hr (h.pending hr) (h.parked hr)
  | callTimeout hc | cancel hc =>
      have hr := hcall hc
      exact .of_ready hr (hpush (h.pending hr)) (hpush (h.parked hr))
  | streamTimeout hst =>
      have hr := hstream hst
      exact .of_ready hr (hpush (h.pending hr)) (hpush (h.parked hr))
  | callRegistered hf | callTimedOut hf | callGone hf | cancelled hf | streamRegistered _ hf
  | streamErased hf | streamGone hf =>
      obtain ⟨hr, hp, hs⟩ := hpop hf (by simp) (by simp)
      exact .of_ready hr hp hs
  | started hf hp =>
      have hr := h.ready_of_frame hf
      exact .of_ready hr (.inr hp) ((h.parked hr).imp_left fun hm => mem_tail hf hm (by simp))
  | startedStreams hf hp =>
      have hr := h.ready_of_frame hf
      exact .of_ready hr ((h.pending hr).imp_left fun hm => mem_tail hf hm (by simp)) (.inr hp)
  | callSubmitted _ _ hn hr =>
      obtain ⟨hpend, hpark, -, -⟩ := hn.keeps
      obtain ⟨-, hphase, -, -⟩ := hn.same
      exact .of_ready (hphase.trans hr) (hpush ((h.pending hr).imp_right hpend))
        (hpush ((h.parked hr).imp_right hpark.trans))
  | streamOpened hn hr =>
      obtain ⟨hpark, hpend, -, -, -⟩ := hn.keeps
      obtain ⟨-, hphase, -, -⟩ := hn.same
      exact .of_ready (hphase.trans hr) (hpush ((h.pending hr).imp_right hpend.trans))
        (hpush ((h.parked hr).imp_right hpark))
  | callFailed _ hn =>
      obtain ⟨hpend, hpark, hstr, hses⟩ := hn.keeps
      obtain ⟨htodo, hphase, -, -⟩ := hn.same
      simp only [Desk.note]
      refine ⟨?_, ?_, ?_, ?_, ?_, ?_, ?_, ?_⟩ <;> simp only [hpark, hstr, hses, htodo, hphase]
      · exact h.frames
      · intro hne id'
        rw [Function.update_apply, h.calls hne id', ite_self]
      · exact h.streams
      · exact h.session
      · exact fun hr => (h.pending hr).imp_right hpend
      · exact h.parked
      · exact fun hb => hpend (h.broken hb)
      · exact h.clear
  | streamFailed _ hn =>
      obtain ⟨hpark, hpend, hstr, hcalls, hses⟩ := hn.keeps
      obtain ⟨htodo, hphase, -, -⟩ := hn.same
      simp only [Desk.note]
      refine ⟨?_, ?_, ?_, ?_, ?_, ?_, ?_, ?_⟩ <;>
        simp only [hpend, hstr, hcalls, hses, htodo, hphase]
      · exact h.frames
      · exact h.calls
      · exact h.streams
      · exact h.session
      · exact h.pending
      · exact fun hr => (h.parked hr).imp_right hpark
      · exact h.broken
      · exact fun hc hb => hpark (h.clear hc hb)
  | sendParked | closeParked =>
      exact ⟨h.frames, h.calls, h.streams, h.session, h.pending,
        fun hr => (h.parked hr).imp_right updateParked_nil, h.broken,
        fun hc hb => updateParked_nil (h.clear hc hb)⟩
  | callParked _ _ hphase | streamParked _ _ hphase =>
      have hnr : v.phase ≠ .ready := by rcases hphase with hp | hp <;> simp [hp]
      have hnb : v.phase ≠ .broken := by rcases hphase with hp | hp <;> simp [hp]
      exact ⟨h.frames, h.calls, h.streams, h.session, fun hr => absurd hr hnr,
        fun hr => absurd hr hnr, fun hb => absurd hb hnb, fun _ hb => absurd hb hnb⟩
  | connect hphase =>
      have hnr : v.phase ≠ .ready := by simp [hphase]
      exact ⟨fun _ => h.frames hnr, fun _ => h.calls hnr, fun _ => h.streams hnr,
        fun hs => absurd (h.session hs) hnr, by simp, by simp, by simp, by simp⟩
  | connected => exact .of_ready rfl (.inl (by simp)) (.inl (by simp))
  | connectFailed hphase hp hclear =>
      have hnr : v.phase ≠ .ready := by simp [hphase]
      exact ⟨fun _ => h.frames hnr, fun _ => h.calls hnr, fun _ => h.streams hnr,
        fun hs => absurd (h.session hs) hnr, by simp, by simp, fun _ => hp, fun hc _ => hclear hc⟩
  | lost hses _ htodo =>
      have hr := h.session hses
      have hp : v.pending = [] := (h.pending hr).resolve_left (by simp [htodo])
      exact ⟨fun _ => htodo, fun _ _ => rfl, fun _ _ => rfl, by simp [lose], by simp [lose],
        by simp [lose], fun _ => hp, fun _ _ => rfl⟩

theorem rest_fresh (E : Env) (o : Options) : Rest E (desk (fresh o).st (fresh o).frames) where
  frames _ := rfl
  calls _ _ := rfl
  streams _ _ := rfl
  session h := by cases h
  pending h := by cases h
  parked h := by cases h
  broken h := by cases h
  clear _ h := by cases h

end Desk

/-- The invariant rule for chains of moves. -/
theorem Desk.Rest.moves {E : Env} {v w : Desk} {I : Desk → Prop} (hrest : Desk.Rest E v) (hi : I v)
    (hmove : ∀ v w, Desk.Rest E v → I v → Desk.Move E v w → I w) (h : Desk.Moves E v w) :
    Desk.Rest E w ∧ I w := by
  induction h with
  | refl => exact ⟨hrest, hi⟩
  | tail _ hm ih => exact ⟨Desk.rest_move ih.1 hm, hmove _ _ ih.1 ih.2 hm⟩

/-- One step, as far as the desk goes. -/
theorem step_desk {E : Env} {c d : Conf} {l : Label} {I : Desk → Prop}
    (hmove : ∀ v w, Desk.Rest E v → I v → Desk.Move E v w → I w)
    (hrest : Desk.Rest E (desk c.st c.frames)) (hi : I (desk c.st c.frames)) (hok : E.Allows c l)
    (h : machine.step c l = some d) :
    Desk.Rest E (desk d.st d.frames) ∧ I (desk d.st d.frames) :=
  hrest.moves hi hmove (desk_step hrest.frames hok h)

/-- The invariant rule for properties of the desk. -/
theorem reach_desk_from {E : Env} {ok : Conf → Label → Prop} {c d : Conf} {I : Desk → Prop}
    (hok : ∀ c l, ok c l → E.Allows c l) (hrest : Desk.Rest E (desk c.st c.frames))
    (hi : I (desk c.st c.frames)) (hmove : ∀ v w, Desk.Rest E v → I v → Desk.Move E v w → I w)
    (h : machine.Reach ok c d) :
    Desk.Rest E (desk d.st d.frames) ∧ I (desk d.st d.frames) := by
  refine h.inv (I := fun c => Desk.Rest E (desk c.st c.frames) ∧ I (desk c.st c.frames))
    ⟨hrest, hi⟩ ?_
  intro c l e hc hl hs
  exact step_desk hmove hc.1 hc.2 (hok c l hl) hs

theorem reach_desk {E : Env} {ok : Conf → Label → Prop} {o : Options} {d : Conf} {I : Desk → Prop}
    (hok : ∀ c l, ok c l → E.Allows c l) (h0 : I (desk (fresh o).st (fresh o).frames))
    (hmove : ∀ v w, Desk.Rest E v → I v → Desk.Move E v w → I w)
    (h : machine.Reach ok (fresh o) d) :
    Desk.Rest E (desk d.st d.frames) ∧ I (desk d.st d.frames) :=
  reach_desk_from hok (Desk.rest_fresh E o) h0 hmove h

end Urpc.Channel
