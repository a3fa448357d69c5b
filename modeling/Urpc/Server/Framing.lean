/-
  Framing violations on the server: what happens after `FrameDecoder::Consume` rejects a
  chunk.

  `OnData` calls `RespondError`, which sets `responded` and then calls `TrailersOnly`, which
  returns because `responded` is set: nothing is submitted (`onData_rejected`). The flag stays,
  so every other path to a terminal block is shut as well, for the rest of the stream
  (`silent_step`).

  Proved: `framing_violation_unanswered`.
-/
import Urpc.Server.Grammar

namespace Urpc.Server

open Cxx Writer

/-- What a framing violation with status `st` should have led to: one terminal block, with
    `st`'s code. -/
def Answered (st : Status) (subs : List Submission) : Prop :=
  ∃ block, terminals subs = [block] ∧
    find block.fields "grpc-status" = some (stringOfInt st.code.toInt)

/-- `OnData` on a rejected chunk: the call may be marked, the session is not called. -/
theorem onData_rejected {s : State} {k : Call} {chunk : Bytes} (e : Bool)
    (hc : s.call = some k) (hopen : k.requestDone = false) (hne : chunk ≠ [])
    (hbad : (k.decoder.consume chunk).1.ok = false) :
    (onData s chunk e).2 = [] ∧ (onData s chunk e).1.h2 = s.h2 ∧
      (onData s chunk e).1.opened = s.opened ∧ ∃ k', (onData s chunk e).1.call = some k' ∧
        k'.responded = true ∧ k'.hasFinishPending = k.hasFinishPending := by
  have hemp : chunk.isEmpty = false := by simpa using hne
  simp only [onData, hc, hopen, hemp, hbad, Bool.false_eq_true, if_false, Bool.not_false, if_true,
    respondError, State.setCall]
  split
  · next hr => exact ⟨trivial, rfl, rfl, _, rfl, hr, rfl⟩
  · exact ⟨trivial, rfl, rfl, _, rfl, rfl, rfl⟩

/-! ## And nothing later -/

namespace Writer

/-- The call is marked as answered, nothing waits, and no terminal block was submitted. -/
structure Silent (v : Writer) : Prop where
  opened : v.opened ≠ false
  none : terminals v.h2.subs = []
  waiting : responding v.todo = 0
  marked : ∀ k, v.call = some k → k.responded = true ∧ k.hasFinishPending = false

theorem silent_step {t : Trigger} {v w : Writer} (hs : Silent v) (h : Step t v w) :
    Silent w := by
  obtain ⟨h1, h2, h3, h4⟩ := hs
  have hmark : ∀ {k}, v.call = some k → k.responded = false → False := by
    intro k hc hr
    have := (h4 k hc).1
    rw [hr] at this
    cases this
  cases h with
  | badHeaders ho | created ho | unrouted ho | createdStream ho => exact absurd ho h1
  | answered hc _ hr | respondErr hc _ hr | respondOk hc _ hr | queued hc _ hr
  | written hc _ hr | deadlineTrailers _ hc hr | deadlineOnly _ hc hr | finishDeferred hc _ hr
  | finishOnly hc _ hr | finishTrailers hc _ hr => exact (hmark hc hr).elim
  | pumped hc _ hr | rejected hc hr => exact (hmark hc hr).elim
  | quiet | finishIgnored => exact ⟨h1, h2, h3, h4⟩
  | requestEnded hc | dispatchedUnary hc | dispatchedStream hc | writeDone hc
  | cancelOut _ hc =>
      have hk := h4 _ hc
      refine ⟨h1, h2, h3, ?_⟩
      rintro _ ⟨⟩
      exact ⟨hk.1, hk.2⟩
  | respondData hto | respondTrailers hto => simp [hto, Frame.responds] at h3
  | deadlineFired hto | connectionLost hto =>
      exact ⟨h1, h2, by simp [Frame.responds], h4⟩
  | deadlineLate hto | consumedRest hto | cancelEnd hto =>
      exact ⟨h1, h2, by simpa [hto, Frame.responds] using h3, h4⟩
  | pumpOutData hto =>
      refine ⟨h1, ?_, by simpa [hto, Frame.responds] using h3, h4⟩
      simpa [terminals, Submission.isTerminal] using h2
  | consumed =>
      refine ⟨h1, h2, by simpa [Frame.responds] using h3, ?_⟩
      intro k' hk'
      obtain ⟨k, hc, rfl⟩ := Option.map_eq_some_iff.mp hk'
      exact h4 k hc
  | deferredFinish _ hc hp =>
      have := (h4 _ hc).2
      rw [hp] at this
      cases this
  | credit => exact ⟨h1, by simpa using h2, h3, h4⟩
  | closeIdle => exact ⟨h1, h2, h3, h4⟩
  | close => exact ⟨h1, h2, by simpa [Frame.responds] using h3, h4⟩
  | erase hto => exact ⟨h1, h2, by simpa [hto, Frame.responds] using h3, by simp⟩

end Writer

/-- **A framing violation is never answered.** Take any reachable stream, with one request header
    block, that has not sent a terminal block, in whatever form and phase, and a chunk that the
    decoder rejects. When `OnData` returns no terminal block has been submitted, so the status is
    not on the wire; and if the call had not been answered before, none is submitted by any later
    event. -/
theorem framing_violation_unanswered (cfg : Config) (c d : Conf) (k : Call) (chunk : Bytes)
    (e : Bool) (hreach : (machine cfg).Reach oneBlock fresh c)
    (hcall : c.st.call = some k) (hopen : k.requestDone = false) (hne : chunk ≠ [])
    (hbad : (k.decoder.consume chunk).1.ok = false) (hterm : terminals c.st.h2.subs = [])
    (hstep : (machine cfg).step c (.event (.data chunk e)) = some d) :
    d.frames = [] ∧ terminals d.st.h2.subs = [] ∧
      ¬ Answered (k.decoder.consume chunk).1 d.st.h2.subs ∧
      (k.responded = false → ∀ d', (machine cfg).Reach oneBlock d d' →
        terminals d'.st.h2.subs = []) := by
  have hsound := reach_sound (fun _ _ h => h) hreach
  have hone : oneBlock c (.event (.data chunk e)) := trivial
  obtain ⟨t, -, hst⟩ := writer_step hsound.dispatched hone hstep
  have hsound' := sound_step hsound hst
  obtain ⟨hen, s', gs, hfire, rfl⟩ := Resume.System.step_event hstep
  obtain ⟨hfr, -⟩ := Resume.System.enabled_base rfl hen
  obtain ⟨hopened, hdata⟩ : c.st.opened = true ∧ onData c.st chunk e = (s', gs) := by
    simp only [machine, fire] at hfire
    split at hfire
    · next hg =>
        simp only [Bool.and_eq_true] at hg
        exact ⟨hg.1, Option.some.inj hfire⟩
    · cases hfire
  obtain ⟨hframes, hh2, hop, k', hk', hresp, hpend⟩ := onData_rejected e hcall hopen hne hbad
  rw [hdata] at hframes hh2 hop hk'
  obtain rfl : gs = [] := hframes
  have hnone : terminals s'.h2.subs = [] := by rw [hh2]; exact hterm
  refine ⟨hfr, hnone, ?_, ?_⟩
  · rintro ⟨block, hblock, -⟩
    rw [hnone] at hblock
    cases hblock
  · intro hr d' hd'
    -- an unanswered call has no finish pending either
    have hturn := hsound.turns.turn k.toWriteSide (by simp [Writer.of, writer, hcall])
    have hnp : k.hasFinishPending = false := by
      by_contra hp
      have := (hturn.deferred (by simpa using hp)).1
      rw [hr] at this
      cases this
    have hsil : Silent (.of ⟨s', [] ++ c.frames⟩) := by
      have hop' : s'.opened = true := hop.trans hopened
      refine ⟨?_, hnone, by simp [Writer.of, writer, hfr], ?_⟩
      · simp [Writer.of, writer, hop']
      · intro k'' hk''
        obtain ⟨k₁, hk₁, rfl⟩ := Option.map_eq_some_iff.mp hk''
        cases hk'.symm.trans hk₁
        exact ⟨hresp, hpend.trans hnp⟩
    exact (reach_writer (fun _ _ h => h) hsound' hsil
      (fun _ _ _ _ _ _ _ hi hst => silent_step hi hst) hd').2.none

/-- A frame prefix with a bad flag byte. -/
def badFlag : Bytes := [1, 0, 0, 0, 0]

/-- The bad flag is rejected with INTERNAL and the stream stays silent, also when the handler
    finishes. -/
theorem bad_flag_unanswered :
    ((machine demo).run oneBlock fresh (openBidi ++ [.event (.data badFlag false),
      .event (.op (.finish .okay))])).map (fun d => (d.frames, d.st.h2.subs)) = some ([], []) ∧
    ((FrameDecoder.new demo.maxReceiveSize).consume badFlag).1.code = .internal := by
  decide

theorem framing_violation_unanswered_bidi :
    ∃ c d k, (machine demo).Reach oneBlock fresh c ∧ c.st.call = some k ∧
      (k.decoder.consume badFlag).1.ok = false ∧
      (machine demo).step c (.event (.data badFlag false)) = some d ∧
      terminals d.st.h2.subs = [] := by
  obtain ⟨c, hc, hd⟩ := Option.bind_eq_some_iff.mp (show
    ((machine demo).run oneBlock fresh openBidi).bind (fun c =>
      c.st.call.bind fun k => ((machine demo).step c (.event (.data badFlag false))).map fun _ =>
        (k.requestDone, (k.decoder.consume badFlag).1.ok, terminals c.st.h2.subs)) =
      some (false, false, []) by decide)
  obtain ⟨k, hk, hd⟩ := Option.bind_eq_some_iff.mp hd
  obtain ⟨d, hd, hfacts⟩ := Option.map_eq_some_iff.mp hd
  obtain ⟨hopen, hbad, hterm⟩ : k.requestDone = false ∧
      (k.decoder.consume badFlag).1.ok = false ∧ terminals c.st.h2.subs = [] := by
    simpa using hfacts
  have hr := Resume.System.reach_of_run _ _ _ hc
  exact ⟨c, d, k, hr, hk, hbad, hd, (framing_violation_unanswered demo c d k badFlag false hr hk
    hopen (by decide) hbad hterm hd).2.1⟩

end Urpc.Server
