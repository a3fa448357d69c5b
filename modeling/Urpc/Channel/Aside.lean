/-
  What happens aside while a function of the channel waits for a flush.

  `ResetStream` and the submissions flush the session, which may report closed streams and
  consumed bodies; other threads may call the public functions. None of this touches a call that
  is marked as completed or a stream that waits for its reset (`rst_pending`), and a submitted
  reset stays submitted.
-/
import Urpc.Channel.Impl

namespace Urpc.Channel

open Cxx

/-- What is left alone. -/
structure Aside (s s' : State) : Prop where
  calls : ∀ id call, s.calls id = some call → call.completed = true → s'.calls id = some call
  streams : ∀ id st, s.streams id = some st → st.completed = false → st.rstPending = true →
    ∃ st', s'.streams id = some st' ∧ st'.completed = false ∧ st'.rstPending = true
  resets : ∀ sid, .reset ∈ (s.senders sid).subs → .reset ∈ (s'.senders sid).subs

namespace Aside

variable {s s' s'' : State}

/-- The tables and the submissions are the same. -/
theorem of_eq (hcalls : s'.calls = s.calls) (hstreams : s'.streams = s.streams)
    (hsubs : ∀ sid, (s'.senders sid).subs = (s.senders sid).subs) : Aside s s' where
  calls id call hcall _ := by rw [hcalls, hcall]
  streams id st hst hc hr := ⟨st, by rw [hstreams, hst], hc, hr⟩
  resets sid h := by rwa [hsubs]

theorem trans (h : Aside s s') (h' : Aside s' s'') : Aside s s'' where
  calls id call hcall hc := h'.calls id call (h.calls id call hcall hc) hc
  streams id st hst hc hr := by
    obtain ⟨st', hst', hc', hr'⟩ := h.streams id st hst hc hr
    exact h'.streams id st' hst' hc' hr'
  resets sid hmem := h'.resets sid (h.resets sid hmem)

end Aside

section Functions

variable {s : State}

theorem setSender_aside {sid : Nat} {h2 : Sender Closure}
    (hsubs : h2.subs = (s.senders sid).subs) : Aside s (s.setSender sid h2) := by
  refine .of_eq rfl rfl fun sid' => ?_
  simp only [State.setSender, Function.update_apply]
  split
  · next heq => rw [hsubs, heq]
  · rfl

theorem completeStream_aside {id : Nat} {st : Stream} (status : Status)
    (hst : s.streams id = some st) (hr : st.rstPending = false) :
    Aside s (completeStream s id st status) := by
  unfold completeStream
  split
  · exact .of_eq rfl rfl fun _ => rfl
  · refine ⟨fun id' call hcall _ => ?_, fun id' st' hst' hc hr' => ?_, fun sid h => ?_⟩
    · split <;> split <;> exact hcall
    · have hne : id' ≠ id := by
        rintro rfl
        rw [hst] at hst'
        cases hst'
        rw [hr] at hr'
        cases hr'
      refine ⟨st', ?_, hc, hr'⟩
      split <;> split <;>
        simpa [State.note, State.setStream, State.eraseStreamBySid, State.cancelTimer, hne] using hst'
    · split <;> split <;> exact h

theorem complete_aside {id : Nat} {call : Call} (status : Status) (payload : Bytes)
    (hcall : s.calls id = some call) : Aside s (complete s id call status payload) := by
  unfold complete
  split
  · exact .of_eq rfl rfl fun _ => rfl
  · next hc =>
      refine ⟨fun id' call' hcall' hc' => ?_, fun id' st' hst' hc hr' => ?_, fun sid h => ?_⟩
      · have hne : id' ≠ id := by
          rintro rfl
          rw [hcall] at hcall'
          cases hcall'
          exact hc hc'
        split <;> split <;>
          simpa [State.note, State.eraseCall, State.eraseByStream, State.cancelTimer, hne]
            using hcall'
      · refine ⟨st', ?_, hc, hr'⟩
        split <;> split <;> exact hst'
      · split <;> split <;> exact h

theorem eraseStreamBySidAt_aside (sid : Nat) : Aside s (s.eraseStreamBySidAt sid) := by
  unfold State.eraseStreamBySidAt
  split <;> exact .of_eq rfl rfl fun _ => rfl

theorem eraseByStreamAt_aside (sid : Nat) : Aside s (s.eraseByStreamAt sid) := by
  unfold State.eraseByStreamAt
  split <;> exact .of_eq rfl rfl fun _ => rfl

theorem onStreamClose_aside (s : State) (sid : Nat) : Aside s (onStreamClose s sid) := by
  obtain ⟨m, s', heq, hstream, hcall⟩ := onStreamClose_closed s sid
  rw [heq]
  have hm : Aside s m := by
    cases hstream with
    | unknown => exact .of_eq rfl rfl fun _ => rfl
    | left => exact eraseStreamBySidAt_aside sid
    | failed _ hst _ hr =>
        exact (completeStream_aside streamClosed hst hr).trans (eraseStreamBySidAt_aside sid)
  cases hcall with
  | unknown => exact hm
  | left => exact hm.trans (eraseByStreamAt_aside sid)
  | failed _ hcall =>
      exact hm.trans ((complete_aside streamClosed [] hcall).trans (eraseByStreamAt_aside sid))

theorem issue_aside (e : Event) : Aside s (issue s e) := by
  cases e <;> exact .of_eq rfl rfl fun _ => rfl

theorem onConsumed_aside (s : State) (n : Closure) : Aside s (onConsumed s n) := by
  unfold onConsumed
  split
  · next st hst =>
      refine ⟨fun _ _ h _ => h, fun id st' hst' hc hr => ?_, fun _ h => h⟩
      simp only [State.note, State.post, State.setStream, Function.update_apply]
      split
      · next heq =>
          rw [heq, hst] at hst'
          cases hst'
          exact ⟨_, rfl, hc, hr⟩
      · exact ⟨st', hst', hc, hr⟩
  · exact .of_eq rfl rfl fun _ => rfl

/-- **Events of foreign code.** -/
theorem fire_aside {e : Event} {s' : State} {gs : List Frame} (he : anytime e = true)
    (h : fire e s = some (s', gs)) : gs = [] ∧ Aside s s' := by
  cases e with
  | call | cancel | openStream | streamSend | streamCloseSend | setMaxReceiveSize =>
      cases h
      exact ⟨rfl, issue_aside _⟩
  | refuse b =>
      cases h
      exact ⟨rfl, .of_eq rfl rfl fun _ => rfl⟩
  | streamClose sid =>
      simp only [fire] at h
      split at h
      · cases h
        exact ⟨rfl, (setSender_aside (Sender.close_subs _)).trans (onStreamClose_aside _ sid)⟩
      · cases h
  | credit sid n =>
      simp only [fire] at h
      split at h
      · cases h
        exact ⟨rfl, setSender_aside (Sender.credit_subs _ n)⟩
      · cases h
  | consumed sid =>
      simp only [fire] at h
      split at h
      · cases h
      · next n notes hn =>
          cases h
          have hset : Aside s (s.setSender sid { s.senders sid with notes }) := setSender_aside rfl
          exact ⟨rfl, hset.trans (onConsumed_aside _ n)⟩
  | task | timer | connected | connectFailed | headers | data | lost => cases he

end Functions

end Urpc.Channel
