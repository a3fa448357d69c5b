/-
  What `Respond` of a unary call returns.

  `Conn::Respond` decides whether a response is submitted: only if the call is in the table and not
  answered yet. `Ctx::Respond` does not learn of it and returns OK in every case, although the
  contract of `ServerCallCtx` says that a late call returns an error.

  Proved:
  * `respond_reports_iff`: a `Respond` reports its effect if and only if it finds its call in the
    table, not answered.
  * `late_respond_ok`: the second `Respond` and one after the deadline submit nothing and return OK.
-/
import Urpc.Server.Trailers

namespace Urpc.Server

open Cxx

/-- `Ctx::Respond`: what it returns, and what `Conn::Respond` does. -/
def ctxRespond (s : State) (st : Status) (payload : Bytes) : Status × State × List Frame :=
  (.okay, respond s st payload)

/-- The call is in the table and has no response. -/
def answerable (s : State) : Bool :=
  match s.call with
  | some k => !k.responded
  | none => false

/-- The step from `c` to `d`, a `Respond`, returned OK if and only if it submitted a block, and
    changed nothing when it returned an error. -/
def Reports (c d : Conf) (st : Status) (payload : Bytes) : Prop :=
  ((ctxRespond c.st st payload).1.ok = true ↔ ∃ block, d.st.h2.subs = c.st.h2.subs ++ [block]) ∧
    ((ctxRespond c.st st payload).1.ok = false → d = c)

/-- A `Respond` that comes too late does nothing. -/
theorem respond_late {s : State} (st : Status) (payload : Bytes) (h : answerable s = false) :
    respond s st payload = (s, []) := by
  unfold answerable at h
  unfold respond
  cases hc : s.call with
  | none => rfl
  | some k =>
      rw [hc] at h
      have hr : k.responded = true := by simpa using h
      simp [hr]

/-- One that does not submits the response headers, or the only block. -/
theorem respond_subs {s : State} (st : Status) (payload : Bytes) (h : answerable s = true) :
    ∃ block, (respond s st payload).1.h2.subs = s.h2.subs ++ [block] := by
  have hsend : ∀ (h2 : Sender (Option CbId)) (fields : HeaderMap) (e : Bool),
      (h2.sendHeaders fields e).subs = h2.subs ++ [.headers fields e] := by
    intro h2 fields e
    unfold Sender.sendHeaders
    dsimp only
    split <;> rfl
  unfold answerable at h
  unfold respond
  cases hc : s.call with
  | none =>
      rw [hc] at h
      cases h
  | some k =>
      rw [hc] at h
      have hr : k.responded = false := by simpa using h
      simp only [hr, Bool.false_eq_true, if_false]
      cases st.ok with
      | true => exact ⟨_, hsend s.h2 _ _⟩
      | false => exact ⟨_, hsend s.h2 _ _⟩

/-- **What `Respond` returns.** -/
theorem respond_reports_iff (cfg : Config) (c d : Conf) (st : Status) (payload : Bytes)
    (hctx : c.st.ctx = some .unary)
    (hs : (machine cfg).step c (.event (.op (.respond st payload))) = some d) :
    Reports c d st payload ↔ answerable c.st = true := by
  obtain ⟨-, s, gs, hfire, rfl⟩ := Resume.System.step_event hs
  have hgo : respond c.st st payload = (s, gs) := by
    simpa [machine, fire, applyOp, hctx] using hfire
  constructor
  · intro h
    by_contra hlate
    obtain ⟨block, hsubs⟩ := h.1.mp rfl
    rw [respond_late st payload (by simpa using hlate)] at hgo
    obtain ⟨rfl, -⟩ := Prod.mk.inj hgo
    simpa using congrArg List.length hsubs
  · intro h
    obtain ⟨block, hsubs⟩ := respond_subs st payload h
    rw [hgo] at hsubs
    refine ⟨iff_of_true rfl ⟨block, hsubs⟩, ?_⟩
    intro herr
    cases herr

/-- The first `Respond` of a call. -/
theorem respond_reports_first :
    ∃ c d : Conf, (machine demo).step c (.event (.op (.respond .okay [2]))) = some d ∧
      Reports c d .okay [2] := by
  obtain ⟨c, hc, hctx, hopen⟩ : ∃ c, (machine demo).run oneBlock fresh openUnary = some c ∧
      c.st.ctx = some .unary ∧ answerable c.st = true := ⟨_, rfl, by decide, by decide⟩
  obtain ⟨d, hd⟩ : ∃ d, (machine demo).step c (.event (.op (.respond .okay [2]))) = some d := by
    cases hc
    exact ⟨_, rfl⟩
  exact ⟨c, d, hd, (respond_reports_iff demo c d .okay [2] hctx hd).mpr hopen⟩

/-- Two late calls, after another `Respond` and after the deadline: they submit nothing and return
    OK. -/
theorem late_respond_ok :
    [openUnary ++ [.event (.op (.respond .okay [2])), .resume, .resume],
        [.event (.headers (("grpc-timeout", str "1S") :: demoHeaders "/t/U") false), .resume,
          .event (.data (encodeFrame [1]) true), .resume, .event (.deadline 1), .resume]].map
      (fun ls => ((machine demo).run oneBlock fresh ls).map fun c =>
        ((ctxRespond c.st .okay [3]).1.ok, (ctxRespond c.st .okay [3]).2.1.h2.subs == c.st.h2.subs,
          (ctxRespond c.st .okay [3]).2.2))
      = [some (true, true, []), some (true, true, [])] := by
  decide

end Urpc.Server
