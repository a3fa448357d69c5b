/-
  What the response was when a channel reports success.

  Only a block of header fields ends a call or a stream with OK (`success_move`), and by then the
  decoder has all DATA of the HTTP/2 stream (`Fed`). But `OnHeadersComplete` asks the decoder for
  at most one message and does not look at what else it holds: `done` reports OK with no message,
  with two, or with a part of one, and so does `on_complete` with a part of one. `Finish` of a
  client-streaming call takes the first message and drops the others.

  Proved: `success_complete_iff`.
-/
import Urpc.Api.ClientWriter
import Urpc.Channel.Feed
import Urpc.Codec.Whole

namespace Urpc.Channel

open Cxx FrameDecoder Api

/-! ## Who reports success -/

/-- A call or a stream has ended with OK. -/
def Obs.success : Obs → Bool
  | .done _ st _ => st.ok
  | .complete _ st => st.ok
  | .message .. | .flushed .. => false

namespace Desk

variable {v v' : Desk} {E : Env}

theorem success_move (hstern : E.stern) (hm : Move E v v') :
    ∃ os, v'.log = v.log ++ os ∧ ∀ o ∈ os, o.success = false := by
  have hdone : ∀ id (st : Status) payload, st.ok = false →
      ∀ o ∈ [Obs.done id st payload], o.success = false := by
    intro id st payload h o ho
    rw [List.mem_singleton.mp ho]
    exact h
  have hfail : ∀ id queue events (st : Status), st.ok = false →
      ∀ o ∈ tellFail id queue events st, o.success = false := by
    intro id queue events st h o ho
    rcases mem_tellFail ho with ⟨_, rfl⟩ | rfl
    · rfl
    · exact h
  cases hm with
  | consumed | consumedLate | sendRefused =>
      refine ⟨_, rfl, fun o ho => ?_⟩
      obtain ⟨_, rfl⟩ := mem_tellFlushed ho
      rfl
  | lost =>
      refine ⟨_, rfl, fun o ho => ?_⟩
      obtain ⟨_, ⟨_, rfl⟩ | rfl | rfl⟩ := mem_lost ho <;> rfl
  | callFailed _ hn hst => cases hn <;> exact ⟨_, rfl, hdone _ _ _ hst⟩
  | callOver _ _ _ _ hst => exact ⟨_, rfl, hdone _ _ _ (hst hstern)⟩
  | cancelled => exact ⟨_, rfl, hdone _ _ _ rfl⟩
  | callTimedOut =>
      refine ⟨_, rfl, ?_⟩
      split
      · exact hdone _ _ _ rfl
      · simp
  | streamFailed _ hn hst => cases hn <;> exact ⟨_, rfl, hfail _ _ _ _ hst⟩
  | streamOver _ _ _ _ _ hst => exact ⟨_, rfl, hfail _ _ _ _ (hst hstern)⟩
  | streamFed =>
      refine ⟨_, rfl, ?_⟩
      split
      · intro o ho
        obtain ⟨m, -, rfl⟩ := List.mem_map.mp ho
        rfl
      · simp
  | callSubmitted _ _ hn | streamOpened hn =>
      refine ⟨[], ?_, by simp⟩
      cases hn <;> simp [submit, setSender]
  | _ => exact ⟨[], (List.append_nil _).symm, by simp⟩

theorem success_moves (hstern : E.stern) (hm : Moves E v v') :
    ∃ os, v'.log = v.log ++ os ∧ ∀ o ∈ os, o.success = false := by
  induction hm with
  | refl => exact ⟨[], (List.append_nil _).symm, by simp⟩
  | tail _ hm ih =>
      obtain ⟨os, hlog, hos⟩ := ih
      obtain ⟨os', hlog', hos'⟩ := success_move hstern hm
      refine ⟨os ++ os', by rw [hlog', hlog, List.append_assoc], fun o ho => ?_⟩
      exact (List.mem_append.mp ho).elim (hos o) (hos' o)

end Desk

/-! ## The block that ends a call or a stream -/

theorem payload_eq (d : FrameDecoder) :
    (if d.hasMessage then d.takeMessage.1 else []) = d.messages.headD [] := by
  cases hm : d.messages with
  | nil => simp [hasMessage, hm]
  | cons m ms => simp [hasMessage, takeMessage, hm]

/-- Whoever ends with OK at a block of header fields. -/
def EndsWell (s : State) (sid : Nat) (o : Obs) : Prop :=
  (∃ id call st, s.byStream sid = some id ∧ s.calls id = some call ∧ call.completed = false ∧
    o = .done id st (call.decoder.messages.headD [])) ∨
  ∃ id stream st, s.streamBySid sid = some id ∧ s.streams id = some stream ∧
    stream.completed = false ∧ o = .complete id st

theorem completeStream_success {s : State} {sid id : Nat} {st : Stream} (status : Status)
    (hr : s.streamBySid sid = some id) (hst : s.streams id = some st)
    (hc : st.completed = false) :
    ∃ os, (completeStream s id st status).log = s.log ++ os ∧
      ∀ o ∈ os, o.success = true → EndsWell s sid o := by
  refine ⟨_, congrArg Desk.log (desk_completeStream s [] id st status hc), fun o ho hs => ?_⟩
  rcases Desk.mem_tellFail ho with ⟨_, rfl⟩ | rfl
  · cases hs
  · exact .inr ⟨id, st, status, hr, hst, hc, rfl⟩

theorem complete_success {s : State} {sid id : Nat} {call : Call} (status : Status) {payload : Bytes}
    (hby : s.byStream sid = some id) (hcall : s.calls id = some call)
    (hpayload : status.ok = true → payload = call.decoder.messages.headD []) :
    ∃ os, (complete s id call status payload).log = s.log ++ os ∧
      ∀ o ∈ os, o.success = true → EndsWell s sid o := by
  by_cases hc : call.completed = true
  · exact ⟨[], by simp [complete, hc], by simp⟩
  · have hc : call.completed = false := by simpa using hc
    refine ⟨_, congrArg Desk.log (desk_complete s [] id call status payload hc), fun o ho hs => ?_⟩
    obtain rfl := List.mem_singleton.mp ho
    exact .inl ⟨id, call, status, hby, hcall, hc, by rw [hpayload hs]⟩

theorem onHeadersComplete_success (s : State) (sid : Nat) (headers : HeaderMap) :
    ∃ os, (onHeadersComplete s sid headers).log = s.log ++ os ∧
      ∀ o ∈ os, o.success = true → EndsWell s sid o := by
  have hsame : ∃ os, s.log = s.log ++ os ∧ ∀ o ∈ os, o.success = true → EndsWell s sid o :=
    ⟨[], (List.append_nil _).symm, by simp⟩
  unfold onHeadersComplete
  split
  · next id hr =>
      split
      · exact hsame
      · next st hst =>
          split
          · exact hsame
          · next hc =>
              have hc : st.completed = false := by simpa using hc
              split
              · exact completeStream_success _ hr hst hc
              · split
                · exact completeStream_success _ hr hst hc
                · exact hsame
  · split
    · exact hsame
    · next id hby =>
        split
        · exact hsame
        · next call hcall =>
            split
            · exact complete_success _ hby hcall fun _ => payload_eq _
            · split
              · exact complete_success _ hby hcall fun h => by cases h
              · exact hsame

/-- The environment of the steps that bring no header fields. -/
def Env.noHeaders : Env := { Env.any with stern := True }

theorem Env.noHeaders_allows (c : Conf) {l : Label}
    (hl : ∀ sid fields, l ≠ .event (.headers sid fields)) : Env.noHeaders.Allows c l :=
  { stern := fun _ => hl }

/-- New entries of one step: each success is one of a registered call or stream. -/
theorem step_success {c d : Conf} {l : Label} (hrest : Desk.Rest Env.any (desk c.st c.frames))
    (hs : machine.step c l = some d) :
    ∃ os, d.st.log = c.st.log ++ os ∧ ∀ o ∈ os, o.success = true → ∃ sid, EndsWell c.st sid o := by
  by_cases hl : ∃ sid fields, l = .event (.headers sid fields)
  · obtain ⟨sid, fields, rfl⟩ := hl
    obtain ⟨-, s', gs, hfire, rfl⟩ := machine.step_event hs
    change fire (.headers sid fields) c.st = some (s', gs) at hfire
    simp only [fire] at hfire
    split at hfire
    · cases hfire
      obtain ⟨os, hlog, hos⟩ := onHeadersComplete_success c.st sid fields
      exact ⟨os, hlog, fun o ho h => ⟨sid, hos o ho h⟩⟩
    · cases hfire
  · push Not at hl
    have hmoves := desk_step hrest.frames (Env.noHeaders_allows c hl) hs
    obtain ⟨os, hlog, hos⟩ := Desk.success_moves trivial hmoves
    refine ⟨os, hlog, fun o ho h => ?_⟩
    rw [hos o ho] at h
    cases h

/-! ## The response of a success -/

/-- **When success means a complete response.** `done` of a call reports OK with the payload of
    the one frame that its DATA is, exactly if the decoder held one message and no part of
    another when the trailers came. `on_complete` of a stream reports OK after whole frames,
    exactly if the decoder held no part of a frame. `Finish` of a client-streaming call that
    returns OK has received one message, exactly if one is in its queue. -/
theorem success_complete_iff (o : Options) {c d : Conf} {r : Nat → Bytes} {l : Label}
    (h : machine.Hist hear anyStep (fresh o) (fun _ => []) c r) (hs : machine.step c l = some d) :
    (∃ new, d.st.log = c.st.log ++ new ∧
      (∀ id st payload, .done id st payload ∈ new → st.ok = true →
        ∃ call, c.st.calls id = some call ∧
          (r call.sid = encodeFrame payload ↔ call.decoder.single = true)) ∧
      ∀ id st, .complete id st ∈ new → st.ok = true →
        ∃ stream, c.st.streams id = some stream ∧
          ((∃ ms : List Bytes, (∀ m ∈ ms, m.length < 2 ^ 32) ∧ r stream.sid = encodeFrames ms) ↔
            stream.decoder.whole = true)) ∧
    ∀ {Res : Type} (id : Nat) (inputs : List (ClientWriter.Input Res)) (caller : Caller Res)
      (res : Result Res) (w : ClientWriter), ClientWriter.log inputs = d.st.log →
      ((ClientWriter.run id inputs).finish caller).2 = some (res, w) → res.status.ok = true →
      ((ClientWriter.received id d.st.log).length = 1 ↔
        (ClientWriter.run id inputs).state.messages.length = 1) := by
  obtain ⟨hrest, -, hfed⟩ := hears_fed h
  have hrest : Desk.Rest Env.any (desk c.st c.frames) := { hrest with clear := False.elim }
  refine ⟨?_, ?_⟩
  · obtain ⟨new, hlog, hnew⟩ := step_success hrest hs
    refine ⟨new, hlog, fun id st payload hmem hok => ?_, fun id st hmem hok => ?_⟩
    · obtain ⟨sid, ⟨_, call, _, hby, hcall, hc, heq⟩ | ⟨_, _, _, _, _, _, heq⟩⟩ := hnew _ hmem hok
      · cases heq
        obtain ⟨rfl, max, hdec⟩ := hfed.call sid id call hby hcall hc
        exact ⟨call, hcall, hdec.single_iff.symm⟩
      · cases heq
    · obtain ⟨sid, ⟨_, _, _, _, _, _, heq⟩ | ⟨_, stream, _, hr, hst, hc, heq⟩⟩ := hnew _ hmem hok
      · cases heq
      · cases heq
        obtain ⟨rfl, max, taken, hdec, -⟩ := hfed.stream sid id stream hr hst hc
        exact ⟨stream, hst, hdec.whole_iff.symm⟩
  · intro Res id inputs caller res w hinputs hfinish hok
    have hord := (reach_ordered (h.reach.tail trivial hs)).2
    rw [← hinputs] at hord ⊢
    obtain ⟨hid, hkept⟩ := ClientWriter.run_kept id inputs hord
    rcases hkept.messages with hall | ⟨hnil, -⟩
    · rw [hall, hid]
    · exact absurd hnil (ClientWriter.finish_ok hfinish hok)

/-- A call that gets one frame, in two pieces, and trailers. -/
theorem success_complete_one :
    ∃ c d r, machine.Hist hear anyStep (fresh demo) (fun _ => []) c r ∧
      machine.step c (.event (.headers 1 [("grpc-status", str "0")])) = some d ∧
      d.st.log = c.st.log ++ [.done 1 .okay [7]] ∧
      ∃ call, c.st.calls 1 = some call ∧
        (r call.sid = encodeFrame [7] ↔ call.decoder.single = true) := by
  obtain ⟨c, hc, d, hd, hlog⟩ : ∃ c, machine.run anyStep (fresh demo) (callAndStream ++
      [.event (.data 1 [0, 0, 0]), .event (.data 1 [0, 1, 7])]) = some c ∧
      ∃ d, machine.step c (.event (.headers 1 [("grpc-status", str "0")])) = some d ∧
        d.st.log = c.st.log ++ [.done 1 .okay [7]] := ⟨_, rfl, _, rfl, rfl⟩
  have hist := Resume.System.hist_of_run hear (fun _ => []) _ hc
  obtain ⟨⟨new, hnew, hdone, -⟩, -⟩ := success_complete_iff demo hist hd
  have hmem : .done 1 .okay [7] ∈ new := by
    rw [hlog] at hnew
    rw [← List.append_cancel_left hnew]
    exact .head _
  exact ⟨c, d, _, hist, hd, hlog, hdone 1 .okay [7] hmem rfl⟩

/-- The caller of `Finish` on a thread of its own, with a decoder that accepts all. -/
def plainCaller : Caller Bytes := ⟨false, true, some⟩

/-- OK for a call that got no message, for a stream that got a part of one, and for a
    client-streaming call that got two. -/
theorem success_incomplete :
    (∃ c r, machine.Hist hear anyStep (fresh demo) (fun _ => []) c r ∧
      .done 1 .okay [] ∈ c.st.log ∧ ∀ payload, r 1 ≠ encodeFrame payload) ∧
    (∃ c r, machine.Hist hear anyStep (fresh demo) (fun _ => []) c r ∧
      .complete 2 .okay ∈ c.st.log ∧ ∀ ms, r 3 ≠ encodeFrames ms) ∧
    ∃ (c : Conf) (inputs : List (ClientWriter.Input Bytes)) (res : Result Bytes) (w : ClientWriter),
      machine.Reach anyStep (fresh demo) c ∧ ClientWriter.log inputs = c.st.log ∧
      ((ClientWriter.run 2 inputs).finish plainCaller).2 = some (res, w) ∧ res.status.ok = true ∧
      ClientWriter.received 2 c.st.log = [[7], [8]] := by
  refine ⟨?_, ?_, ?_⟩
  · obtain ⟨c, hc, hlog⟩ : ∃ c, machine.run anyStep (fresh demo) (callAndStream ++
        [.event (.headers 1 [("grpc-status", str "0")])]) = some c ∧
        c.st.log = [.done 1 .okay []] := ⟨_, rfl, rfl⟩
    refine ⟨c, _, Resume.System.hist_of_run hear (fun _ => []) _ hc,
      hlog ▸ .head _, fun payload hframe => ?_⟩
    exact encodeFrame_ne_nil payload hframe.symm
  · obtain ⟨c, hc, hlog⟩ : ∃ c, machine.run anyStep (fresh demo) (callAndStream ++
        [.event (.data 3 [0]), .event (.headers 3 [("grpc-status", str "0")])]) = some c ∧
        c.st.log = [.complete 2 .okay] := ⟨_, rfl, rfl⟩
    refine ⟨c, _, Resume.System.hist_of_run hear (fun _ => []) _ hc,
      hlog ▸ .head _, fun ms hframes => ?_⟩
    have hone : [0] = encodeFrames ms := hframes
    cases ms <;> simp [encodeFrames, encodeFrame, appendU32BE] at hone
  · obtain ⟨c, hc, hlog⟩ : ∃ c, machine.run anyStep (fresh demo) (callAndStream ++
        [.event (.data 3 [0, 0, 0, 0, 1, 7, 0, 0, 0, 0, 1, 8]),
          .event (.headers 3 [("grpc-status", str "0")])]) = some c ∧
        c.st.log = [.message 2 .okay [7], .message 2 .okay [8], .complete 2 .okay] :=
      ⟨_, rfl, rfl⟩
    refine ⟨c, [.told (.message 2 .okay [7]), .told (.message 2 .okay [8]),
      .told (.complete 2 .okay)], ⟨.okay, some [7]⟩, _,
      Resume.System.reach_of_run _ _ _ hc, hlog.symm, rfl, rfl, hlog ▸ rfl⟩

end Urpc.Channel
