/-
  The iterators of `OnStreamClose`.

  `OnStreamClose` looks its stream up, completes what it finds, and erases the entry through the
  iterator that it has kept. `CompleteStream` and `Complete` erase that very entry by its key, so
  the iterator is good only if nothing is completed in between: a close is harmless for what is
  over already, or is being reset by its own timeout or cancel.

  Proved: `close_erases_present_iff`.
-/
import Urpc.Channel.Files

namespace Urpc.Channel

open Cxx

variable {tidy : Prop} {owner : Nat → Op} {hand : Option (Nat × Nat)} {s : State}
  {fs : List Frame}

theorem completeStream_erases (id : Nat) {st : Stream} (hc : st.completed = false)
    (hsid : st.sid ≠ 0) (status : Status) :
    (completeStream s id st status).streamBySid st.sid = none ∧
      (completeStream s id st status).byStream = s.byStream ∧
      (completeStream s id st status).staleErases = s.staleErases := by
  rw [completeStream_eq hc, if_pos hsid]
  exact ⟨Function.update_self .., rfl, rfl⟩

theorem complete_erases (id : Nat) {call : Call} (hc : call.completed = false)
    (hsid : call.sid ≠ 0) (status : Status) (payload : Bytes) :
    (complete s id call status payload).byStream call.sid = none ∧
      (complete s id call status payload).staleErases = s.staleErases := by
  rw [complete_eq hc, if_pos hsid]
  exact ⟨Function.update_self .., rfl⟩

/-- The half of `OnStreamClose` about the call. -/
theorem closeCall_stale {sid : Nat} (h : Filed tidy owner hand s fs)
    (hs : s.streamBySid sid = none) :
    (onStreamClose s sid).staleErases = s.staleErases ↔
      ((s.byStream sid).bind s.calls).all Call.completed = true := by
  unfold onStreamClose
  rw [hs]
  dsimp only
  split
  · next hby => simp [hby]
  · next id hby =>
      obtain ⟨call, hcall, hsid⟩ := h.byStream sid id hby
      have hpos : call.sid ≠ 0 := Nat.pos_iff_ne_zero.mp (h.call id call hcall).pos
      rw [hcall, hby, Option.bind_some, hcall]
      dsimp only
      cases hc : call.completed with
      | true => simp [State.eraseByStreamAt, State.eraseByStream, hby, hc]
      | false =>
          have hgone := complete_erases (s := s) id hc hpos streamClosed []
          rw [hsid] at hgone
          simp [State.eraseByStreamAt, hgone.1, hgone.2, hc]

/-- The iterators of `OnStreamClose` are good if and only if nothing has to be completed. -/
theorem onStreamClose_stale (h : Filed tidy owner hand s fs) (sid : Nat) :
    (onStreamClose s sid).staleErases = s.staleErases ↔ overAt s sid = true := by
  unfold overAt
  cases hs : s.streamBySid sid with
  | none => simpa using closeCall_stale h hs
  | some id =>
      obtain ⟨st, hst, hsid, hc⟩ := h.route sid id hs
      have hpos : st.sid ≠ 0 := Nat.pos_iff_ne_zero.mp (h.stream id st hst).pos
      -- a stream of the session is that of a call or that of a stream
      have hby : s.byStream sid = none := h.noCall hst hsid
      unfold onStreamClose
      rw [hs]
      dsimp only
      rw [hst, Option.bind_some, hst]
      cases hr : st.rstPending with
      | true => simp [State.eraseStreamBySidAt, State.eraseStreamBySid, hs, hby, hc, hr]
      | false =>
          obtain ⟨hnone, hrest, hstale⟩ :=
            completeStream_erases (s := s) id hc hpos streamClosed
          rw [hsid] at hnone
          simp [State.eraseStreamBySidAt, hnone, hrest, hstale, hby, hc, hr]

/-- **The iterators of `OnStreamClose`.** In every state of every run of a channel, the entries
    that `OnStreamClose` erases through its iterators are all still there if and only if the close
    meets nothing live: no stream that is not resetting itself, and no call that is not completed. -/
theorem close_erases_present_iff (o : Options) (c d : Conf) (sid : Nat)
    (h : machine.Reach anyStep (fresh o) c)
    (hstep : machine.step c (.event (.streamClose sid)) = some d) :
    d.st.staleErases = c.st.staleErases ↔ overAt c.st sid = true := by
  obtain ⟨owner, -, hc⟩ := reach_kept (by simp) (kept_fresh False (fun _ => .call 0) o) h
  obtain ⟨-, s', gs, hfire, rfl⟩ := machine.step_event hstep
  change fire (.streamClose sid) c.st = some (s', gs) at hfire
  simp only [fire] at hfire
  split at hfire
  · cases hfire
    exact onStreamClose_stale (hc.filed.close (by simp)) sid
  · cases hfire

/-- A call whose trailers come before its close. -/
theorem close_after_trailers :
    ∃ c d, machine.Reach anyStep (fresh demo) c ∧
      machine.step c (.event (.streamClose 1)) = some d ∧ overAt c.st 1 = true ∧
      d.st.staleErases = c.st.staleErases := by
  obtain ⟨c, hc, hover, d, hd⟩ : ∃ c, machine.run anyStep (fresh demo)
      (callAndStream ++ [.event (.headers 1 [("grpc-status", str "0")])]) = some c ∧
      overAt c.st 1 = true ∧ ∃ d, machine.step c (.event (.streamClose 1)) = some d :=
    ⟨_, rfl, rfl, _, rfl⟩
  have hreach := machine.reach_of_run _ _ _ hc
  exact ⟨c, d, hreach, hd, hover, (close_erases_present_iff demo c d 1 hreach hd).mpr hover⟩

/-- The peer resets a call, and a stream, before their trailers: each close erases an entry that
    is not there any more. -/
theorem close_erases_absent :
    ∃ c d d', machine.Reach anyStep (fresh demo) c ∧ c.st.staleErases = 0 ∧
      machine.step c (.event (.streamClose 1)) = some d ∧ d.st.staleErases = 1 ∧
      machine.step c (.event (.streamClose 3)) = some d' ∧ d'.st.staleErases = 1 := by
  obtain ⟨c, hc, hzero, d, hd, hone, d', hd', hone'⟩ : ∃ c,
      machine.run anyStep (fresh demo) callAndStream = some c ∧ c.st.staleErases = 0 ∧
      ∃ d, machine.step c (.event (.streamClose 1)) = some d ∧ d.st.staleErases = 1 ∧
      ∃ d', machine.step c (.event (.streamClose 3)) = some d' ∧ d'.st.staleErases = 1 :=
    ⟨_, rfl, rfl, _, rfl, rfl, _, rfl, rfl⟩
  exact ⟨c, d, d', machine.reach_of_run _ _ _ hc, hzero, hd, hone, hd', hone'⟩

end Urpc.Channel
