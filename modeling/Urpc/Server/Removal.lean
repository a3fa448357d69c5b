/-
  How a streaming call leaves its connection, and what becomes of its callbacks.

  `hosted` is the stream with the two ways in which its whole connection goes:
  `FinishShutdown`, which only fires the cancel callbacks, and the erasure of a closed
  connection (`OnConnIdle`, `conns.clear()`). The handler that marks a connection closed also
  erases it, so no event of the loop reaches the stream from then on.

  Only `CancelStreamIo` calls the callbacks that a call still holds, and it knows nothing of
  those that the session holds: a body in flight, or between the response headers and
  `SendData`, or a notification. `spares` are the steps that leave nothing behind: a stream
  closes, or a connection is lost, with no callback in the session; nothing is accepted or armed
  after that; `FinishShutdown` finds nothing held; the connection is erased after its sweep.

  Proved: `callbacks_once`, and `reset_drops_callback` without the condition.
-/
import Urpc.Server.Callbacks
import Urpc.Server.Closing

namespace Urpc.Server

open Cxx

/-! ## The connection around a stream -/

inductive HostEvent where
  | stream (e : Event)
  | finishShutdown
  | erase
  deriving DecidableEq

/-- `FinishShutdown` on the connection of the stream, up to `conns.clear()`. -/
def finishShutdown (s : State) : State := fireCancel { s with connClosed := true }

/-- The connection is destroyed: its calls, their contexts and the session. -/
def eraseConn (s : State) : State :=
  { s with call := none, ctx := none, h2 := { s.h2.close with notes := [] } }

def hosted (cfg : Config) : Resume.System State Frame HostEvent where
  exec := exec
  fire
    | .stream e, s => if s.connClosed && !anytime e then none else fire cfg e s
    | .finishShutdown, s => if s.connClosed then none else some (finishShutdown s, [])
    | .erase, s => if s.connClosed && s.opened then some (eraseConn s, []) else none
  anytime
    | .stream e => anytime e
    | .finishShutdown => false
    | .erase => true
  settled s := s.h2.notes.isEmpty

abbrev HostLabel := Resume.Label HostEvent

/-- The callbacks handed over along a run. -/
def issue (issued : List Token) : HostLabel → List Token
  | .event (.stream e) => issued ++ e.issues
  | _ => issued

/-! ## Steps that leave nothing behind -/

def noteLength (note : Option CbId) : Nat := (writeToken note).length

/-- No callback is on its way to, in, or back from the session. -/
def Spent (frames : List Frame) (h2 : Sender (Option CbId)) : Prop :=
  frames.flatMap Frame.held = [] ∧ h2.carried noteLength = 0

instance (frames : List Frame) (h2 : Sender (Option CbId)) : Decidable (Spent frames h2) :=
  inferInstanceAs (Decidable (_ ∧ _))

/-- `WriteMessage` would be accepted. -/
def accepts (s : State) : Bool :=
  s.call.any fun k => !k.responded && !k.writeClosed && decide (k.outQueue.length < 64)

/-- `ReadMessage` would wait. -/
def arms (s : State) : Bool :=
  s.ctx == some (.stream none) &&
    s.call.any fun k => !k.readFinished && k.pendingMsgs.isEmpty && !k.requestHalfClosed

def spares (c : Conf) : HostLabel → Prop
  | .event (.stream (.headers fields _)) => c.st.opened = true → find fields ":path" = none
  | .event (.stream .streamClose) | .event (.stream .connectionLost) => Spent c.frames c.st.h2
  | .event .finishShutdown =>
      Spent c.frames c.st.h2 ∧ c.st.call.toList.flatMap Call.held = []
  | .event (.stream (.op (.writeMessage ..))) =>
      c.st.h2.closed = true ∨ c.st.connClosed = true → accepts c.st = false
  | .event (.stream (.op (.readMessage _))) => c.st.connClosed = true → arms c.st = false
  | .event .erase => c.frames = []
  | _ => True

instance (c : Conf) : (l : HostLabel) → Decidable (spares c l)
  | .event (.stream (.headers fields _)) =>
      inferInstanceAs (Decidable (c.st.opened = true → find fields ":path" = none))
  | .event (.stream .streamClose) | .event (.stream .connectionLost) =>
      inferInstanceAs (Decidable (Spent c.frames c.st.h2))
  | .event .finishShutdown => inferInstanceAs (Decidable (_ ∧ _))
  | .event (.stream (.op (.writeMessage ..))) =>
      inferInstanceAs (Decidable (c.st.h2.closed = true ∨ c.st.connClosed = true →
        accepts c.st = false))
  | .event (.stream (.op (.readMessage _))) =>
      inferInstanceAs (Decidable (c.st.connClosed = true → arms c.st = false))
  | .event .erase => inferInstanceAs (Decidable (c.frames = []))
  | .event (.stream (.data ..)) | .event (.stream (.deadline _)) | .event (.stream .pump)
  | .event (.stream (.credit _)) | .event (.stream .consumed)
  | .event (.stream (.op (.respond ..))) | .event (.stream (.op .writeDone))
  | .event (.stream (.op (.finish _))) | .event (.stream (.op (.onCancel _))) | .resume =>
      .isTrue trivial

/-! ## The session and the queue -/

/-- Frames that sweep a call or hold a callback. -/
def Frame.sweeps : Frame → Bool
  | .cancelOut | .closeErase | .pumpOutData _ => true
  | _ => false

def outline (fs : List Frame) : List Frame := fs.filter Frame.sweeps

theorem outline_cons {f : Frame} {fs : List Frame} (h : f.sweeps = true) :
    outline (f :: fs) = f :: outline fs := List.filter_cons_of_pos h

/-- The frames that run before the call is erased. -/
def above (fs : List Frame) : List Frame := fs.takeWhile (· ≠ .closeErase)

namespace Writer

variable {t : Trigger} {v w : Writer}

structure Sparing (v : Writer) : Prop where
  spent : v.h2.closed = true ∨ v.connClosed = true ∨ v.call = none →
    Spent (outline v.todo) v.h2
  closing : v.h2.closed = true → ∀ k, v.call = some k → .closeErase ∈ outline v.todo ∧
    (.cancelOut ∈ above (outline v.todo) ∨ queueTokens k.outQueue = [])
  leaving : v.connClosed = true → ∀ k, v.call = some k →
    .cancelOut ∈ outline v.todo ∨ queueTokens k.outQueue = []

theorem Sparing.keep (h : Sparing v) (hclosed : w.h2.closed = v.h2.closed)
    (hcarried : w.h2.carried noteLength ≤ v.h2.carried noteLength)
    (hconn : w.connClosed = v.connClosed) (htodo : outline w.todo = outline v.todo)
    (hcall : w.call.map WriteSide.outQueue = v.call.map WriteSide.outQueue) : Sparing w := by
  have hsome : ∀ k', w.call = some k' → ∃ k, v.call = some k ∧ k.outQueue = k'.outQueue := by
    intro k' hk'
    rw [hk', Option.map_some, eq_comm] at hcall
    exact Option.map_eq_some_iff.mp hcall
  have hnone : w.call = none → v.call = none := by
    intro hn
    rw [hn, Option.map_none, eq_comm] at hcall
    exact Option.map_eq_none_iff.mp hcall
  refine ⟨?_, ?_, ?_⟩
  · rw [hclosed, hconn, htodo]
    intro hend
    obtain ⟨hframes, hsession⟩ := h.spent (hend.imp_right (Or.imp_right hnone))
    exact ⟨hframes, Nat.le_zero.mp (hsession ▸ hcarried)⟩
  · rw [hclosed, htodo]
    intro hend k' hk'
    obtain ⟨k, hk, hq⟩ := hsome k' hk'
    rw [← hq]
    exact h.closing hend k hk
  · rw [hconn, htodo]
    intro hend k' hk'
    obtain ⟨k, hk, hq⟩ := hsome k' hk'
    rw [← hq]
    exact h.leaving hend k hk

/-- A call that is neither closed nor leaving may do as it likes. -/
theorem Sparing.free (hclosed : w.h2.closed = false) (hconn : w.connClosed = false)
    (hcall : w.call ≠ none) : Sparing w := by
  refine ⟨?_, ?_, ?_⟩
  · rintro (h | h | h)
    · rw [hclosed] at h
      cases h
    · rw [hconn] at h
      cases h
    · exact absurd h hcall
  · intro h
    rw [hclosed] at h
    cases h
  · intro h
    rw [hconn] at h
    cases h

theorem sparing_step (h : Sparing v) (hopen : v.h2.closed = true → v.opened = true)
    (herase : .closeErase ∈ v.todo → v.h2.closed = true)
    (hwrite : ∀ msg cb, t = .event (.op (.writeMessage msg cb)) →
      v.h2.closed = false ∧ v.connClosed = false)
    (hpump : t = .event .pump → v.todo = [] ∧ v.connClosed = false)
    (hend : t = .event .streamClose ∨ t = .event .connectionLost → Spent (outline v.todo) v.h2)
    (hs : Step t v w) : Sparing w := by
  have hnew : v.opened = false → v.h2.closed = false := by
    intro ho
    by_contra hcl
    rw [hopen (by simpa using hcl)] at ho
    cases ho
  cases hs with
  | quiet => exact h
  | badHeaders | finishIgnored | credit => exact h.keep (by simp) (by simp) rfl rfl rfl
  | created ho hc | unrouted ho hc | createdStream ho hc =>
      obtain ⟨hframes, hsession⟩ := h.spent (.inr (.inr hc))
      refine ⟨fun _ => ⟨hframes, hsession⟩, ?_, ?_⟩
      · intro hcl
        rw [hnew ho] at hcl
        cases hcl
      · rintro - _ ⟨⟩
        exact .inr rfl
  | requestEnded hc | dispatchedUnary hc | dispatchedStream hc | rejected hc | writeDone hc
  | finishDeferred hc => exact h.keep rfl (Nat.le_refl _) rfl rfl (by simp [hc])
  | answered hc | respondErr hc | finishOnly hc | finishTrailers hc =>
      exact h.keep (by simp) (by simp) rfl rfl (by simp [hc])
  | respondOk hc =>
      exact h.keep (by simp) (by simp) rfl (by simp [outline, Frame.sweeps]) (by simp [hc])
  | respondData hto | respondTrailers hto | deadlineLate hto | consumedRest hto =>
      exact h.keep (by simp) (by simp) rfl (by simp [hto, outline, Frame.sweeps]) rfl
  | deadlineFired hto => exact h.keep rfl (Nat.le_refl _) rfl (by simp [hto, outline, Frame.sweeps]) rfl
  | deadlineTrailers hto hc | deadlineOnly hto hc | deferredFinish hto hc =>
      exact h.keep (by simp) (by simp) rfl (by simp [hto, outline, Frame.sweeps]) (by simp [hc])
  | queued hc => 
      obtain ⟨hclosed, hconn⟩ := hwrite _ _ rfl
      exact .free hclosed hconn (by simp)
  | written hc _ _ _ _ _ hp =>
      obtain ⟨hclosed, hconn⟩ := hwrite _ _ rfl
      cases hp with
      | first => exact .free (by simpa using hclosed) hconn (by simp)
      | next => exact .free (by simpa using hclosed) hconn (by simp)
  | pumped hc _ _ _ _ hp =>
      obtain ⟨hto, hconn⟩ := hpump rfl
      have hclosed : v.h2.closed = false := by
        by_contra hcl
        have := (h.closing (by simpa using hcl) _ hc).1
        simp [hto, outline] at this
      cases hp with
      | first => exact .free (by simpa using hclosed) hconn (by simp)
      | next => exact .free (by simpa using hclosed) hconn (by simp)
  | @pumpOutData _ out rest hto =>
      have hout : outline v.todo = .pumpOutData out :: outline rest := by
        rw [hto, outline_cons rfl]
      refine ⟨?_, ?_, ?_⟩
      · intro hover
        obtain ⟨hframes, hsession⟩ := h.spent (by simpa using hover)
        rw [hout, List.flatMap_cons, List.append_eq_nil_iff] at hframes
        have hcb : noteLength out.cb = 0 := congrArg List.length hframes.1
        exact ⟨hframes.2, by simp [hsession, hcb]⟩
      · intro hcl k hk
        obtain ⟨hmem, hor⟩ := h.closing (by simpa using hcl) k hk
        rw [hout] at hmem hor
        exact ⟨by simpa using hmem, by simpa [above] using hor⟩
      · intro hconn k hk
        have hor := h.leaving hconn k hk
        rw [hout] at hor
        simpa using hor
  | consumed hn =>
      refine h.keep rfl ?_ rfl (by simp [outline, Frame.sweeps]) ?_
      · simp [Sender.carried, hn]
      · simp [Function.comp_def]
  | closeIdle _ hc =>
      obtain ⟨hframes, hsession⟩ := h.spent (.inr (.inr hc))
      refine ⟨fun _ => ⟨hframes, by simpa using hsession⟩, ?_, ?_⟩ <;>
      · intro _ k hk
        rw [hc] at hk
        cases hk
  | close =>
      obtain ⟨hframes, hsession⟩ := hend (.inl rfl)
      have hout : outline (.cancelOut :: .closeErase :: v.todo) =
          .cancelOut :: .closeErase :: outline v.todo := rfl
      refine ⟨fun _ => ⟨?_, by simpa using hsession⟩, ?_, ?_⟩
      · simpa [hout, Frame.held] using hframes
      · intro _ k hk
        exact ⟨by simp [hout], .inl (by simp [hout, above])⟩
      · intro _ k hk
        exact .inl (by simp [hout])
  | connectionLost hto =>
      obtain ⟨-, hsession⟩ := hend (.inr rfl)
      refine ⟨fun _ => ⟨rfl, hsession⟩, ?_, ?_⟩
      · intro hcl k hk
        have := (h.closing hcl k hk).1
        simp [hto, outline] at this
      · intro _ k hk
        exact .inl (by simp [outline, Frame.sweeps])
  | @cancelOut _ k _ _ rest hto hc =>
      have hout : outline v.todo = .cancelOut :: outline rest := by
        rw [hto, outline_cons rfl]
      refine ⟨?_, ?_, ?_⟩
      · intro hover
        exact h.spent (by simpa [hc] using hover)
      · intro hcl _ _
        exact ⟨(h.closing hcl k hc).1, .inl (by simp [hout, above])⟩
      · intro _ _ _
        exact .inl (by simp [hout])
  | @cancelEnd _ rest hto hq =>
      have hout : outline v.todo = .cancelOut :: outline rest := by
        rw [hto, outline_cons rfl]
      refine ⟨?_, ?_, ?_⟩
      · intro hover
        obtain ⟨hframes, hsession⟩ := h.spent hover
        exact ⟨by simpa [hout, Frame.held] using hframes, hsession⟩
      · intro hcl k hk
        have hmem := (h.closing hcl k hk).1
        rw [hout] at hmem
        exact ⟨by simpa using hmem, .inr (by simp [hq k hk, queueTokens])⟩
      · intro _ k hk
        exact .inr (by simp [hq k hk, queueTokens])
  | @erase _ rest hto =>
      have hout : outline v.todo = .closeErase :: outline rest := by
        rw [hto, outline_cons rfl]
      obtain ⟨hframes, hsession⟩ := h.spent (.inl (herase (by simp [hto])))
      refine ⟨fun _ => ⟨by simpa [hout, Frame.held] using hframes, hsession⟩, ?_, ?_⟩ <;>
      · intro _ k hk
        cases hk

/-- Only the loss of the connection marks it closed. -/
theorem connClosed_step (hs : Step t v w) (ht : t ≠ .event .connectionLost) :
    w.connClosed = v.connClosed := by
  cases hs with
  | connectionLost => exact absurd rfl ht
  | written _ _ _ _ _ _ hp | pumped _ _ _ _ _ hp => cases hp <;> rfl
  | _ => rfl

theorem connClosed_again (ha : Again v w) : w.connClosed = v.connClosed := by
  cases ha <;> rfl

theorem sparing_again (h : Sparing v) (ha : Again v w) : Sparing w := by
  cases ha with
  | answered => exact h
  | unknown => exact h.keep (by simp) (by simp) rfl rfl rfl
  | refused _ hc => exact h.keep (by simp) (by simp) rfl rfl (by simp [hc])

end Writer

/-! ## Reads on a closed connection -/

theorem Reader.unarmed_step {max : Nat} {t : Trigger} {v w : Reader}
    (h : ∀ k, v.call = some k → k.readCb = none)
    (harm : ∀ cb k, t = .event (.op (.readMessage cb)) → v.ctx = some (.stream none) →
      v.call = some k → k.readFinished = false → k.pendingMsgs = [] → k.requestHalfClosed = true)
    (hs : Step max t v w) : ∀ k, w.call = some k → k.readCb = none := by
  cases hs with
  | readArm hc hctx hr hp hh =>
      rw [harm _ _ rfl hctx hc hr hp] at hh
      cases hh
  | quiet | badHeaders | readClosed | readFirst | readConcurrent => exact h
  | created | createdStream | handed | cancelArmed | eosArmed =>
      rintro _ ⟨⟩
      rfl
  | fed hc | rejected hc | first hc | stored hc | dropped hc | overrun hc | overrunLate hc
  | calledUnary hc | ended hc | eosUnarmed hc | readPending hc | readEos hc | finished hc
  | respondedUnary hc | deadline hc | cancelled _ hc =>
      have hk := h _ hc
      rintro _ ⟨⟩
      exact hk
  | erase => exact fun _ hk => by cases hk

theorem Reader.unarmed_again {v w : Reader} (h : ∀ k, v.call = some k → k.readCb = none)
    (ha : Again v w) : ∀ k, w.call = some k → k.readCb = none := by
  cases ha with
  | same => exact h
  | refused hc =>
      have hk := h _ hc
      rintro _ ⟨⟩
      exact hk

/-! ## Runs -/

structure Swept (c : Conf) : Prop where
  closing : Closing c
  sparing : (Writer.of c).Sparing
  unarmed : c.st.connClosed = true → ∀ k, (reader c.st).call = some k → k.readCb = none

theorem swept_fresh : Swept fresh := by
  refine ⟨closing_fresh, ⟨fun _ => ⟨rfl, rfl⟩, ?_, ?_⟩, ?_⟩ <;>
  · intro _ k hk
    cases hk

section Steps

variable {cfg : Config} {c d : Conf}

/-- A step of the stream under its connection is one of the stream on its own. -/
theorem hosted_stream {e : Event} (h : (hosted cfg).step c (.event (.stream e)) = some d) :
    (machine cfg).step c (.event e) = some d ∧ (c.st.connClosed = true → anytime e = true) := by
  obtain ⟨hen, s, gs, hfire, rfl⟩ := Resume.System.step_event h
  have hen : (machine cfg).enabled e c = true := hen
  have hfire : (if c.st.connClosed && !anytime e then none else fire cfg e c.st) = some (s, gs) :=
    hfire
  split at hfire
  · cases hfire
  · next hgo =>
      refine ⟨?_, by simpa using hgo⟩
      have hfire : (machine cfg).fire e c.st = some (s, gs) := hfire
      simp [Resume.System.step, hen, hfire]

theorem hosted_resume (h : (hosted cfg).step c .resume = some d) :
    (machine cfg).step c .resume = some d := h

theorem hosted_finishShutdown (h : (hosted cfg).step c (.event .finishShutdown) = some d) :
    c.frames = [] ∧ d = ⟨finishShutdown c.st, []⟩ := by
  obtain ⟨hen, s, gs, hfire, rfl⟩ := Resume.System.step_event h
  have hnil := (Resume.System.enabled_base rfl hen).1
  have hfire : (if c.st.connClosed then none else some (finishShutdown c.st, [])) = some (s, gs) :=
    hfire
  split at hfire
  · cases hfire
  · cases hfire
    exact ⟨hnil, by rw [hnil]; rfl⟩

theorem hosted_erase (h : (hosted cfg).step c (.event .erase) = some d) :
    c.st.connClosed = true ∧ c.st.opened = true ∧ d = ⟨eraseConn c.st, c.frames⟩ := by
  obtain ⟨-, s, gs, hfire, rfl⟩ := Resume.System.step_event h
  have hfire : (if c.st.connClosed && c.st.opened then some (eraseConn c.st, []) else none) =
    some (s, gs) := hfire
  split at hfire
  · next hgo =>
      cases hfire
      simp only [Bool.and_eq_true] at hgo
      exact ⟨hgo.1, hgo.2, rfl⟩
  · cases hfire

/-- A refused `WriteMessage` changes no field of the call. -/
theorem writeMessage_quiet {s : State} (msg : Bytes) (cb : Option CbId) (h : accepts s = false) :
    writer (writeMessage s msg cb).1 [] = writer s [] ∧ (writeMessage s msg cb).2 = [] := by
  have htell : ∀ st, writer (tellWriter s cb st) [] = writer s [] := by
    intro st
    cases cb <;> rfl
  unfold writeMessage
  split
  · exact ⟨htell _, rfl⟩
  · next k hc =>
      split
      · exact ⟨htell _, rfl⟩
      · next hopen =>
          split
          · exact ⟨htell _, rfl⟩
          · next hroom =>
              have : accepts s = true := by
                simp only [accepts, hc, Option.any_some]
                simp_all
              rw [h] at this
              cases this

theorem writer_append {s s' : State} {gs fs : List Frame} (h : writer s' gs = writer s []) :
    writer s' (gs ++ fs) = writer s fs := by
  simp only [writer, Writer.mk.injEq, List.filter_append, List.filter_nil] at h ⊢
  obtain ⟨ho, hcc, hc, hs, hh, hgs, ha, hf⟩ := h
  exact ⟨ho, hcc, hc, hs, hh, by rw [hgs, List.nil_append], ha, hf⟩

theorem cancelStreamIo_unarmed {s : State} {k : Asked}
    (h : (reader (cancelStreamIo s)).call = some k) : k.readCb = none := by
  unfold cancelStreamIo at h
  split at h
  · split at h
    · cases h
      rfl
    · next hr =>
        cases h
        exact hr
  · next hc =>
      rw [reader, hc] at h
      cases h

/-- Only the frames of the outline hold callbacks. -/
theorem held_outline (fs : List Frame) :
    (outline (fs.filter Frame.writes)).flatMap Frame.held = fs.flatMap Frame.held := by
  induction fs with
  | nil => rfl
  | cons f fs ih =>
      cases f <;> simpa [outline, Frame.writes, Frame.sweeps, Frame.held] using ih

theorem spent_outline : Spent (outline (Writer.of c).todo) (Writer.of c).h2 ↔
    Spent c.frames c.st.h2 := by
  unfold Spent
  rw [show (Writer.of c).todo = c.frames.filter Frame.writes from rfl, held_outline]
  rfl

/-- A call holds nothing when it is erased. -/
theorem Swept.held_erased {fs : List Frame} (h : Swept c) (hf : c.frames = .closeErase :: fs) :
    c.st.call.toList.flatMap Call.held = [] := by
  have hclosed := h.closing.closed (by simp [hf])
  cases hc : c.st.call with
  | none => rfl
  | some k =>
      have hread : k.readCb = none :=
        ((h.closing.shut hclosed).shut k.asked (Reader.reader_call hc)).2
      have hqueue : queueTokens k.outQueue = [] := by
        rcases (h.sparing.closing hclosed k.toWriteSide (congrArg (Option.map _) hc)).2 with
          habove | hq
        · simp [Writer.of, writer, hf, outline, above, Frame.writes, Frame.sweeps] at habove
        · exact hq
      simp [Call.held, hread, hqueue]

/-- Nor when its connection is. -/
theorem Swept.held_left (h : Swept c) (hf : c.frames = []) (hconn : c.st.connClosed = true) :
    c.st.call.toList.flatMap Call.held = [] := by
  cases hc : c.st.call with
  | none => rfl
  | some k =>
      have hread : k.readCb = none := h.unarmed hconn k.asked (Reader.reader_call hc)
      have hqueue : queueTokens k.outQueue = [] := by
        rcases h.sparing.leaving hconn k.toWriteSide (congrArg (Option.map _) hc) with hmem | hq
        · simp [Writer.of, writer, hf, outline] at hmem
        · exact hq
      simp [Call.held, hread, hqueue]

/-- The event of a label, under the connection. -/
def host : Label → HostLabel
  | .resume => .resume
  | .event e => .event (.stream e)

theorem trailersPlain_of_spares {l : Label} (h : spares c (host l)) : trailersPlain c l := by
  cases l with
  | resume => trivial
  | event e =>
      cases e with
      | headers => exact h
      | _ => trivial

/-- Nothing reads on a closed connection. -/
theorem unarmed_step {l : Label} (h : Swept c) (hl : spares c (host l))
    (hs : (machine cfg).step c l = some d) (hd : d.st.connClosed = true) (k : Asked)
    (hk : (reader d.st).call = some k) : k.readCb = none := by
  by_cases hlost : l = .event .connectionLost
  · subst hlost
    obtain ⟨-, s, gs, hfire, rfl⟩ := Resume.System.step_event hs
    have hfire : fire cfg .connectionLost c.st = some (s, gs) := hfire
    simp only [fire] at hfire
    split at hfire <;> cases hfire
    exact cancelStreamIo_unarmed hk
  · rcases views_step_or_again h.closing.dispatched (trailersPlain_of_spares hl) hs with
      ⟨t, ht, hw, hr⟩ | ⟨-, hw, hr⟩
    · have hne : t ≠ .event .connectionLost := by
        rintro rfl
        cases triggers_of_trigger ht
        exact hlost rfl
      have hconn : c.st.connClosed = true := (Writer.connClosed_step hw hne).symm.trans hd
      refine Reader.unarmed_step (h.unarmed hconn) ?_ hr k hk
      rintro cb k' rfl hctx hk' hfin hpend
      obtain ⟨call, hc, rfl⟩ := Option.map_eq_some_iff.mp hk'
      cases triggers_of_trigger ht
      have harms : arms c.st = false := hl hconn
      have hctx : c.st.ctx = some (.stream none) := hctx
      have hfin : call.readFinished = false := hfin
      have hpend : call.pendingMsgs = [] := hpend
      have hhalf : call.requestHalfClosed = true := by
        simpa [arms, hctx, hc, hfin, hpend] using harms
      exact hhalf
    · have hconn : c.st.connClosed = true := (Writer.connClosed_again hw).symm.trans hd
      exact Reader.unarmed_again (h.unarmed hconn) hr k hk

theorem swept_step {l : Label} (h : Swept c) (hl : spares c (host l))
    (hany : ∀ e, l = .event e → c.st.connClosed = true → anytime e = true)
    (hs : (machine cfg).step c l = some d) : Swept d := by
  have hplain := trailersPlain_of_spares hl
  refine ⟨closing_step h.closing hplain hs, ?_, unarmed_step h hl hs⟩
  by_cases hrefused : accepts c.st = false ∧ ∃ msg cb, l = .event (.op (.writeMessage msg cb))
  · -- the rules do not tell a full queue from one with room
    obtain ⟨hacc, msg, cb, rfl⟩ := hrefused
    obtain ⟨-, s, gs, hfire, rfl⟩ := Resume.System.step_event hs
    have hfire : applyOp c.st (.writeMessage msg cb) = some (s, gs) := hfire
    simp only [applyOp] at hfire
    split at hfire
    · obtain ⟨hsame, hgs⟩ := writeMessage_quiet msg cb hacc
      have hr : writeMessage c.st msg cb = (s, gs) := Option.some.inj hfire
      rw [hr] at hsame hgs
      have hof : Writer.of ⟨s, gs ++ c.frames⟩ = Writer.of c := by
        refine writer_append ?_
        rw [show gs = [] from hgs]
        exact hsame
      rw [hof]
      exact h.sparing
    · cases hfire
  · rcases views_step_or_again h.closing.dispatched hplain hs with ⟨t, ht, hw, -⟩ | ⟨-, hw, -⟩
    · refine Writer.sparing_step h.sparing ?_ ?_ ?_ ?_ ?_ hw
      · exact fun hcl => (h.closing.shut hcl).opened
      · exact fun hmem => h.closing.closed (mem_todo_closeErase.mp hmem)
      · rintro msg cb rfl
        cases triggers_of_trigger ht
        have hspare : c.st.h2.closed = true ∨ c.st.connClosed = true → accepts c.st = false := hl
        have hgo : ¬ (c.st.h2.closed = true ∨ c.st.connClosed = true) :=
          fun hend => hrefused ⟨hspare hend, msg, cb, rfl⟩
        simpa [Writer.of, writer] using hgo
      · rintro rfl
        cases triggers_of_trigger ht
        obtain ⟨hen, -⟩ := Resume.System.step_event hs
        refine ⟨?_, ?_⟩
        · simp [Writer.of, writer, (Resume.System.enabled_base rfl hen).1]
        · by_contra hconn
          have := hany _ rfl (by simpa [Writer.of, writer] using hconn)
          cases this
      · intro hend
        rw [spent_outline]
        rcases hend with rfl | rfl <;>
        · cases triggers_of_trigger ht
          exact hl
    · exact Writer.sparing_again h.sparing hw

theorem writer_finishShutdown {s : State} {fs : List Frame} :
    writer (finishShutdown s) fs = { writer s fs with connClosed := true } :=
  fireCancel_quiet

theorem reader_finishShutdown {s : State} : reader (finishShutdown s) = reader s :=
  Reader.reader_fireCancel

theorem swept_finishShutdown (h : Swept c) (hl : spares c (.event .finishShutdown))
    (hs : (hosted cfg).step c (.event .finishShutdown) = some d) : Swept d := by
  obtain ⟨hnil, rfl⟩ := hosted_finishShutdown hs
  obtain ⟨hspent, hheld⟩ := hl
  have hw : Writer.of ⟨finishShutdown c.st, []⟩ = { Writer.of c with connClosed := true } := by
    unfold Writer.of
    rw [hnil]
    exact writer_finishShutdown
  have hempty : ∀ k : Call, c.st.call = some k → k.readCb = none ∧ queueTokens k.outQueue = [] := by
    intro k hk
    simpa [hk, Call.held] using hheld
  refine ⟨⟨?_, ?_, ?_⟩, ⟨?_, ?_, ?_⟩, ?_⟩
  · rw [hw]
    exact h.closing.dispatched
  · intro hcl
    rw [reader_finishShutdown]
    have hsame : (Writer.of ⟨finishShutdown c.st, []⟩).h2 = c.st.h2 := by rw [hw]; rfl
    exact h.closing.shut (hsame ▸ hcl)
  · intro hmem
    cases hmem
  · rw [hw]
    intro _
    exact spent_outline.mpr hspent
  · rw [hw]
    intro hcl k hk
    have := (h.sparing.closing hcl k hk).1
    simp [Writer.of, writer, hnil, outline] at this
  · rw [hw]
    intro _ k hk
    obtain ⟨call, hc, rfl⟩ := Option.map_eq_some_iff.mp hk
    exact .inr (hempty call hc).2
  · intro _ k hk
    rw [reader_finishShutdown] at hk
    obtain ⟨call, hc, rfl⟩ := Option.map_eq_some_iff.mp hk
    exact (hempty call hc).1

theorem carried_eraseConn {f : Option CbId → Nat} {s : State} (h : s.h2.carried f = 0) :
    (eraseConn s).h2.carried f = 0 := by
  have hclose := Sender.close_carried f s.h2
  rw [h] at hclose
  simp only [Sender.carried, Nat.add_eq_zero_iff] at hclose ⊢
  exact ⟨⟨⟨rfl, hclose.1.1.2⟩, hclose.1.2⟩, hclose.2⟩

theorem swept_erase (h : Swept c) (hl : spares c (.event .erase))
    (hs : (hosted cfg).step c (.event .erase) = some d) : Swept d := by
  obtain ⟨hconn, hopen, rfl⟩ := hosted_erase hs
  have hnil : c.frames = [] := hl
  have hsession : c.st.h2.carried noteLength = 0 := (h.sparing.spent (.inr (.inl hconn))).2
  have hcall : (Writer.of ⟨eraseConn c.st, c.frames⟩).call = none := rfl
  refine ⟨⟨?_, ?_, ?_⟩, ⟨?_, ?_, ?_⟩, ?_⟩
  · constructor <;> simp [Writer.of, writer, eraseConn, hopen]
  · exact fun _ => ⟨hopen, fun k hk => by cases hk⟩
  · exact fun _ => rfl
  · intro _
    rw [spent_outline]
    exact ⟨by rw [hnil]; rfl, carried_eraseConn hsession⟩
  · intro _ k hk
    rw [hcall] at hk
    cases hk
  · intro _ k hk
    rw [hcall] at hk
    cases hk
  · intro _ k hk
    cases hk

/-! ## The ledger of callbacks -/

theorem noteWeight_le (t : Token) (note : Option CbId) : noteWeight t note ≤ noteLength note :=
  List.count_le_length

theorem Spent.count (h : Spent c.frames c.st.h2) (t : Token) :
    (c.frames.flatMap Frame.held).count t = 0 ∧ c.st.h2.carried (noteWeight t) = 0 := by
  refine ⟨by rw [h.1]; rfl, ?_⟩
  have := Sender.carried_mono (noteWeight_le t) c.st.h2
  have := h.2
  omega

/-- Every callback handed over is somewhere, or has been called. -/
theorem ledger_step {l : HostLabel} {issued : List Token} (h : Swept c)
    (hledger : ∀ t, balance t c.st c.frames = issued.count t) (hl : spares c l)
    (hs : (hosted cfg).step c l = some d) :
    ∀ t, balance t d.st d.frames = (issue issued l).count t := by
  intro t
  have hstream : ∀ l', (machine cfg).step c l' = some d →
      balance t d.st d.frames = (issued ++ issues l').count t := by
    intro l' hs'
    rw [balance_step hs' fun fs _ hf => by rw [h.held_erased hf]; rfl, List.count_append, hledger]
  cases l with
  | resume =>
      have := hstream .resume (hosted_resume hs)
      rwa [issues, List.append_nil] at this
  | event e =>
      cases e with
      | stream e => exact hstream (.event e) (hosted_stream hs).1
      | finishShutdown =>
          obtain ⟨hnil, rfl⟩ := hosted_finishShutdown hs
          have hsame : balance t (finishShutdown c.st) [] = balance t c.st [] := balance_fireCancel
          rw [hsame, ← hnil]
          exact hledger t
      | erase =>
          obtain ⟨hconn, -, rfl⟩ := hosted_erase hs
          have hnil : c.frames = [] := hl
          obtain ⟨hframes, hsession⟩ :=
            (spent_outline.mp (h.sparing.spent (.inr (.inl hconn)))).count t
          have hbefore := hledger t
          simp only [balance, h.held_left hnil hconn, hframes, hsession, List.count_nil] at hbefore
          have hafter := carried_eraseConn hsession
          simp only [balance, hframes, hafter]
          simpa [eraseConn, issue] using hbefore

theorem swept_reach {issued : List Token}
    (h : (hosted cfg).Hist issue spares fresh [] c issued) :
    Swept c ∧ ∀ t, balance t c.st c.frames = issued.count t := by
  refine h.inv (I := fun c issued => Swept c ∧ ∀ t, balance t c.st c.frames = issued.count t)
    ⟨swept_fresh, fun t => rfl⟩ ?_
  rintro c l d issued ⟨hswept, hledger⟩ hl hs
  refine ⟨?_, ledger_step hswept hledger hl hs⟩
  cases l with
  | resume => exact swept_step (l := .resume) hswept hl nofun (hosted_resume hs)
  | event e =>
      cases e with
      | stream e =>
          obtain ⟨hs', hany⟩ := hosted_stream hs
          refine swept_step (l := .event e) hswept hl ?_ hs'
          rintro _ ⟨⟩
          exact hany
      | finishShutdown => exact swept_finishShutdown hswept hl hs
      | erase => exact swept_erase hswept hl hs

end Steps

/-- **Server stream callbacks are exactly once.** In every run whose steps leave nothing behind:
    when the call is no longer in its connection, each callback has been called as often as it
    was given to `ReadMessage` or `WriteMessage`. -/
theorem callbacks_once (cfg : Config) (d : Conf) (issued : List Token)
    (h : (hosted cfg).Hist issue spares fresh [] d issued) (hgone : d.st.call = none) (t : Token) :
    (told d.st.log).count t = issued.count t := by
  obtain ⟨hswept, hledger⟩ := swept_reach h
  have hspent : Spent d.frames d.st.h2 :=
    spent_outline.mp (hswept.sparing.spent (.inr (.inr (congrArg (Option.map _) hgone))))
  obtain ⟨hframes, hsession⟩ := hspent.count t
  have hbal := hledger t
  simp only [balance, hframes, hsession, hgone, Option.toList_none, List.flatMap_nil,
    List.count_nil, Nat.add_zero] at hbal
  exact hbal

/-- A message is written and consumed, a read waits, the handler finishes and the stream closes. -/
theorem callbacks_once_closed :
    ∃ d issued, (hosted demo).Hist issue spares fresh [] d issued ∧ d.st.call = none ∧
      issued = [.write 1, .read 2] ∧ (told d.st.log).count (.write 1) = 1 ∧
      (told d.st.log).count (.read 2) = 1 := by
  obtain ⟨d, hd, hgone⟩ : ∃ d, (hosted demo).run spares fresh
      [.event (.stream (.headers (demoHeaders "/t/B") false)), .resume,
        .event (.stream (.op (.writeMessage [7] (some 1)))), .resume,
        .event (.stream (.op (.readMessage 2))), .event (.stream (.credit 100)),
        .event (.stream .consumed), .resume, .event (.stream (.op (.finish .okay))),
        .event (.stream .streamClose), .resume, .resume, .resume] = some d ∧
      d.st.call = none := ⟨_, rfl, rfl⟩
  have hist := Resume.System.hist_of_run issue [] _ hd
  exact ⟨d, _, hist, hgone, rfl, callbacks_once demo d _ hist hgone (.write 1),
    callbacks_once demo d _ hist hgone (.read 2)⟩

/-- A written message waits for window when the peer resets the stream; a read waits when
    `FinishShutdown` drops the connection. Neither callback is called. -/
theorem reset_drops_callback :
    (∃ d issued, (hosted demo).Hist issue (fun _ _ => True) fresh [] d issued ∧
      d.st.call = none ∧ d.frames = [] ∧ issued = [.write 1] ∧ told d.st.log = []) ∧
    ∃ d issued, (hosted demo).Hist issue (fun _ _ => True) fresh [] d issued ∧
      d.st.call = none ∧ d.frames = [] ∧ issued = [.read 2] ∧ told d.st.log = [] := by
  constructor
  · obtain ⟨d, hd, hfacts⟩ : ∃ d, (hosted demo).run (fun _ _ => True) fresh
        [.event (.stream (.headers (demoHeaders "/t/B") false)), .resume,
          .event (.stream (.op (.writeMessage [7] (some 1)))), .resume,
          .event (.stream .streamClose), .resume, .resume, .resume] = some d ∧
        d.st.call = none ∧ d.frames = [] ∧ told d.st.log = [] := ⟨_, rfl, rfl, rfl, rfl⟩
    exact ⟨d, _, Resume.System.hist_of_run issue [] _ hd, hfacts.1, hfacts.2.1, rfl, hfacts.2.2⟩
  · obtain ⟨d, hd, hfacts⟩ : ∃ d, (hosted demo).run (fun _ _ => True) fresh
        [.event (.stream (.headers (demoHeaders "/t/B") false)), .resume,
          .event (.stream (.op (.readMessage 2))), .event .finishShutdown, .event .erase] =
          some d ∧
        d.st.call = none ∧ d.frames = [] ∧ told d.st.log = [] := ⟨_, rfl, rfl, rfl, rfl⟩
    exact ⟨d, _, Resume.System.hist_of_run issue [] _ hd, hfacts.1, hfacts.2.1, rfl, hfacts.2.2⟩

end Urpc.Server
