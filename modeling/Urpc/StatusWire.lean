/-
  A handler's status, from `Respond` or `Finish` to the client's callback.

  The server writes the status into two header fields: `grpc-status` and, as it is, without
  the percent-encoding of the wire protocol, `grpc-message`. `Respond` with OK writes no
  message at all. nghttp2 sends a block as it was submitted, and drops a field that it receives
  with a value it does not accept. The client reads both fields back. So a status survives when
  its message is a header value, and a unary OK has no message.

  `Owes` follows a call that the handler has answered until its terminal block is submitted:
  at once, by the frames of `Respond`, or by the deferred finish.

  Proved: `owes_step`, `told_of_trailers`, `status_survives_iff`.
-/
import Urpc.Channel.Terminal
import Urpc.Server.Closing
import Urpc.Server.Drain

namespace Urpc

open Cxx

/-- The bytes of an HTTP/2 header value, as nghttp2 checks them: a tab, and everything from
    the blank on but DEL. -/
def headerByte (b : UInt8) : Bool := b == 9 || (32 ≤ b && b != 127)

/-- What nghttp2 accepts as a header value: such bytes, no blank or tab at an end. -/
def headerValue (v : Bytes) : Bool :=
  v.all headerByte && [v.head?, v.getLast?].all fun b => b != some 9 && b != some 32

/-- The fields that nghttp2 reports of a block that it has received. -/
def received (fields : HeaderMap) : HeaderMap := fields.filter fun f => headerValue f.2

/-- The codes of spec FR-003. -/
def StatusCode.known : StatusCode → Bool
  | .raw _ => false
  | _ => true

/-! ## The client -/

namespace Channel

/-- The status given to `done` or `on_complete`. -/
def Obs.outcome : Obs → Option Status
  | .done _ st _ | .complete _ st => some st
  | _ => none

/-- An operation that has not completed waits for a response on `sid`. -/
inductive Awaits (s : State) (sid : Nat) : Prop where
  | stream {id : Nat} {st : Stream} : s.streamBySid sid = some id → s.streams id = some st →
      st.completed = false → Awaits s sid
  | call {id : Nat} {call : Call} : s.streamBySid sid = none → s.byStream sid = some id →
      s.calls id = some call → call.completed = false → Awaits s sid

/-- The statuses that the user is told between two states. -/
def told (s s' : State) : List Status := (s'.log.drop s.log.length).filterMap Obs.outcome

theorem told_note {s s' : State} {os : List Obs} (h : s'.log = s.log ++ os) :
    told s s' = os.filterMap Obs.outcome := by
  simp [told, h]

theorem status_tellFail (id : Nat) (queue : List OutMsg) (events : StreamEvents) (st : Status)
    (h : events.onComplete = true) :
    (tellFail id queue events st).filterMap Obs.outcome = [st] := by
  have hflushed : (failQueue id queue st).filterMap Obs.outcome = [] := by
    rw [List.filterMap_eq_nil_iff]
    intro o ho
    obtain ⟨m, -, hm⟩ := List.mem_flatMap.mp ho
    obtain ⟨cb, -, rfl⟩ := List.mem_map.mp hm
    rfl
  rw [tellFail, List.filterMap_append, hflushed, tellComplete, if_pos h]
  rfl

/-- A terminal block completes the operation with the status that it carries. -/
theorem told_of_trailers {s : State} {sid : Nat} {headers : HeaderMap} {gs : Bytes}
    (h : Awaits s sid) (hgs : find headers "grpc-status" = some gs) :
    told s (onHeadersComplete s sid headers) = [trailersStatus headers gs] := by
  cases h with
  | @stream id st hsid hst hlive =>
      have hstep : onHeadersComplete s sid headers =
          completeStream s id st (trailersStatus headers gs) := by
        simp [onHeadersComplete, hsid, hst, hlive, hgs]
      have hlog : (completeStream s id st (trailersStatus headers gs)).log =
          s.log ++ tellFail id st.outQueue st.events (trailersStatus headers gs) := by
        simp only [completeStream, hlive, Bool.false_eq_true, if_false]
        split <;> split <;> rfl
      rw [hstep, told_note hlog, status_tellFail _ _ _ _ st.terminal]
  | @call id call hsid hid hcall hlive =>
      generalize hp : (if call.decoder.hasMessage then call.decoder.takeMessage.1 else []) =
        payload
      have hstep : onHeadersComplete s sid headers =
          complete s id call (trailersStatus headers gs) payload := by
        simp [onHeadersComplete, hsid, hid, hcall, hgs, hp]
      have hlog : (complete s id call (trailersStatus headers gs) payload).log =
          s.log ++ [.done id (trailersStatus headers gs) payload] := by
        simp only [complete, hlive, Bool.false_eq_true, if_false, call.whole hlive]
        split <;> split <;> rfl
      rw [hstep, told_note hlog]
      rfl

end Channel

/-! ## The two ends together -/

/-- The block's message has only header bytes, and the client that waits on `sid` and receives
    the block is told the status that the handler gave. -/
def Survives (st : Status) (block : Submission) (s : Channel.State) (sid : Nat) : Prop :=
  (∀ msg, find block.fields "grpc-message" = some msg → msg.all headerByte = true) ∧
    Channel.told s (Channel.onHeadersComplete s sid (received block.fields)) = [st]

theorem code_roundtrip {code : StatusCode} (h : code.known = true) :
    Channel.grpcStatusFromInt (stringOfInt code.toInt) .internal = code := by
  cases code with
  | raw n => cases h
  | _ => decide

/-- nghttp2 hands over the message of a status that it accepts. -/
theorem received_carries {st : Status} {block : Submission} (hcode : st.code.known = true)
    (hblock : Server.Writer.Carries st block) :
    find (received block.fields) "grpc-status" = some (stringOfInt st.code.toInt) ∧
      find (received block.fields) "grpc-message" =
        if headerValue st.message then some st.message else none := by
  obtain ⟨code, message⟩ := st
  have hvalue : headerValue (stringOfInt code.toInt) = true := by
    cases code with
    | raw n => cases hcode
    | _ => decide
  have hfixed : headerValue (str "200") = true ∧ headerValue kContentType = true := by decide
  cases hm : headerValue message <;> rcases hblock with rfl | rfl <;>
    simp [Submission.fields, grpcStatusFields, Server.trailersOnlyFields, Server.responseHeaders,
      received, find, hvalue, hm, hfixed, List.lookup]

/-- A block that carries the status as it is. -/
theorem survives_carries {st : Status} {block : Submission} {s : Channel.State} {sid : Nat}
    (hcode : st.code.known = true) (hblock : Server.Writer.Carries st block)
    (h : Channel.Awaits s sid) : Survives st block s sid ↔ headerValue st.message = true := by
  obtain ⟨hgs, hgm⟩ := received_carries hcode hblock
  have hsent : find block.fields "grpc-message" = some st.message := by
    rcases hblock with rfl | rfl <;> rfl
  unfold Survives
  rw [Channel.told_of_trailers h hgs, Channel.trailersStatus, hgm, code_roundtrip hcode, hsent]
  obtain ⟨code, message⟩ := st
  cases hm : headerValue message with
  | true =>
      have hbytes : message.all headerByte = true := (Bool.and_eq_true _ _ ▸ hm).1
      simpa using hbytes
  | false =>
      -- the client is told an empty message
      simp only [Option.some.injEq, forall_eq', Bool.false_eq_true, if_false, iff_false, not_and]
      rintro - ⟨⟩
      cases hm

/-- The trailers of a unary OK. -/
theorem survives_bare {st : Status} {s : Channel.State} {sid : Nat} (hok : st.ok = true)
    (h : Channel.Awaits s sid) :
    Survives st (.trailers [("grpc-status", str "0")]) s sid ↔ st.message = [] := by
  have hcode : st.code = .ok := by simpa [Status.ok] using hok
  have htold : Channel.trailersStatus [("grpc-status", str "0")] (str "0") = ⟨.ok, []⟩ := by
    decide
  have hgot : received [("grpc-status", str "0")] = [("grpc-status", str "0")] := by decide
  have hlog : Channel.told s
      (Channel.onHeadersComplete s sid (received [("grpc-status", str "0")])) = [⟨.ok, []⟩] := by
    rw [hgot, Channel.told_of_trailers h rfl, htold]
  simp only [Survives, Submission.fields, hlog]
  obtain ⟨code, message⟩ := st
  obtain rfl : code = .ok := hcode
  constructor
  · rintro ⟨-, heq⟩
    cases heq
    rfl
  · rintro rfl
    exact ⟨by simp [find, List.lookup], rfl⟩

/-! ## From the handler to the block -/

namespace Server

/-- The status that an operation ends the call with. -/
def Op.status : Op → Option Status
  | .respond st _ | .finish st => some st
  | _ => none

namespace Writer

/-- The handler has given `st`, when `n` submissions had been made. What is submitted from then
    on to end the call carries `st`; `bare`: it was a unary OK. -/
structure Owes (n : Nat) (bare : Bool) (st : Status) (v : Writer) : Prop where
  answered : Answered v
  made : n ≤ v.h2.subs.length
  deferred : ∀ k, v.call = some k → k.hasFinishPending = true →
    bare = false ∧ k.finishPending = st
  waiting : responding v.todo ≠ 0 → bare = true
  blocks : ∀ block ∈ terminals (v.h2.subs.drop n),
    if bare then block = .trailers [("grpc-status", str "0")] else Carries st block

section Steps

variable {n : Nat} {bare : Bool} {st : Status} {t : Trigger} {v w : Writer}

theorem Owes.keep (h : Owes n bare st v) (hw : Answered w) {subs : List Submission}
    (hs : w.h2.subs = v.h2.subs ++ subs)
    (hd : ∀ k, w.call = some k → k.hasFinishPending = true →
      ∃ k', v.call = some k' ∧ k'.hasFinishPending = true ∧ k'.finishPending = k.finishPending)
    (hr : responding w.todo ≤ responding v.todo)
    (hb : ∀ block ∈ terminals subs,
      if bare then block = .trailers [("grpc-status", str "0")] else Carries st block) :
    Owes n bare st w := by
  refine ⟨hw, ?_, ?_, ?_, ?_⟩
  · rw [hs, List.length_append]
    have := h.made
    omega
  · intro k hk hf
    obtain ⟨k', hk', hf', heq⟩ := hd k hk hf
    rw [← heq]
    exact h.deferred k' hk' hf'
  · intro hne
    exact h.waiting (by omega)
  · intro block hmem
    rw [hs, List.drop_append_of_le_length h.made, terminals, List.filter_append] at hmem
    rcases List.mem_append.mp hmem with hmem | hmem
    · exact h.blocks block hmem
    · exact hb block hmem

/-- A step that submits nothing. -/
theorem Owes.still (h : Owes n bare st v) (hw : Answered w) (hs : w.h2.subs = v.h2.subs)
    (hd : ∀ k, w.call = some k → k.hasFinishPending = true →
      ∃ k', v.call = some k' ∧ k'.hasFinishPending = true ∧ k'.finishPending = k.finishPending)
    (hr : responding w.todo ≤ responding v.todo) : Owes n bare st w :=
  h.keep hw (hs.trans (List.append_nil _).symm) hd hr fun _ hb => by cases hb

theorem owes_step (h : Owes n bare st v) (hs : Step t v w) : Owes n bare st w := by
  have hw := answered_step h.answered hs
  have hsame : ∀ k, v.call = some k → k.hasFinishPending = true →
      ∃ k', v.call = some k' ∧ k'.hasFinishPending = true ∧ k'.finishPending = k.finishPending :=
    fun k hk hf => ⟨k, hk, hf, rfl⟩
  cases hs with
  | created ho | unrouted ho | createdStream ho | badHeaders ho =>
      rw [h.answered.opened] at ho
      cases ho
  | written hc _ hr | pumped hc _ hr | answered hc _ hr | respondOk hc _ hr | respondErr hc _ hr
  | finishDeferred hc _ hr | finishOnly hc _ hr | finishTrailers hc _ hr | rejected hc hr
  | deadlineTrailers _ hc hr | deadlineOnly _ hc hr | queued hc _ hr =>
      rw [h.answered.ended _ hc] at hr
      cases hr
  | quiet => exact h
  | finishIgnored | closeIdle => exact h.still hw rfl hsame (Nat.le_refl _)
  | credit => exact h.still hw (Sender.credit_subs _ _) hsame (Nat.le_refl _)
  | close => exact h.still hw rfl hsame (by simp [Frame.responds])
  | deadlineFired hto | connectionLost hto =>
      exact h.still hw rfl hsame (by simp [hto, Frame.responds])
  | deadlineLate hto | consumedRest hto | cancelEnd hto =>
      exact h.still hw rfl hsame (by simp [hto])
  | requestEnded hc | dispatchedUnary hc | dispatchedStream hc | writeDone hc | cancelOut _ hc =>
      refine h.still hw rfl ?_ (Nat.le_refl _)
      rintro _ ⟨⟩ hf
      exact ⟨_, hc, hf, rfl⟩
  | erase hto => exact h.still hw rfl (by simp) (by simp [hto])
  | consumed =>
      refine h.still hw rfl ?_ (by simp [Frame.responds])
      intro k hk hf
      obtain ⟨k', hk', rfl⟩ := Option.map_eq_some_iff.mp hk
      exact ⟨k', hk', hf, rfl⟩
  | pumpOutData hto =>
      exact h.keep hw (Sender.sendData_subs _ _ _ _) hsame (by simp [hto])
        fun _ hb => by cases hb
  | respondData hto =>
      exact h.keep hw (Sender.sendData_subs _ _ _ _) hsame (by simp [hto, Frame.responds])
        fun _ hb => by cases hb
  | respondTrailers hto =>
      have hbare : bare = true := h.waiting (by simp [hto, Frame.responds])
      refine h.keep hw (Sender.sendTrailers_subs _ _) hsame (by simp [hto]) ?_
      intro block hb
      rw [List.mem_singleton.mp hb, if_pos hbare]
  | deferredFinish hto hc hp =>
      obtain ⟨hbare, hst⟩ := h.deferred _ hc hp
      refine h.keep hw (Sender.sendTrailers_subs _ _) ?_ (by simp [hto]) ?_
      · rintro _ ⟨⟩ hf
        cases hf
      · intro block hb
        rw [List.mem_singleton.mp hb, hbare, ← hst]
        exact .inl rfl

/-- A later header block finds the call answered, or the stream closed. -/
theorem owes_again (h : Owes n bare st v) (hcall : v.call ≠ none) (ha : Again v w) :
    Owes n bare st w := by
  cases ha with
  | answered => exact h
  | unknown _ hc => exact absurd hc hcall
  | refused _ hc hr =>
      rw [h.answered.ended _ hc] at hr
      cases hr

/-- A closed stream stays closed; a call goes only when its erasure waits. -/
theorem closed_stays (hs : Step t v w) (hc : v.h2.closed = true) : w.h2.closed = true := by
  by_cases ht : t = .event .streamClose
  · subst ht
    cases hs with
    | closeIdle h | close h =>
        rw [hc] at h
        cases h
    | _ => simpa using hc
  · rw [(closed_step hs ht).1]
    exact hc

theorem call_gone (hs : Step t v w) (hw : w.call = none) :
    v.call = none ∨ .closeErase ∈ v.todo := by
  cases hs with
  | erase hto => exact .inr (hto ▸ List.mem_cons_self)
  | written _ _ _ _ _ _ hp | pumped _ _ _ _ _ hp => cases hp <;> cases hw
  | consumed => exact .inl (Option.map_eq_none_iff.mp hw)
  | quiet | badHeaders | respondData | respondTrailers | deadlineFired | deadlineLate | pumpOutData
  | consumedRest | finishIgnored | credit | closeIdle | close | connectionLost | cancelEnd =>
      exact .inl hw
  | _ => cases hw

theorem again_gone (ha : Again v w) (hw : w.call = none) : v.call = none := by
  cases ha with
  | answered => exact hw
  | unknown _ hc => exact hc
  | refused => cases hw

end Steps

end Writer

open Writer

/-- A run after the handler has given `st`. -/
structure Owing (n : Nat) (bare : Bool) (st : Status) (c : Conf) : Prop where
  closing : Closing c
  owes : Owes n bare st (.of c)
  gone : c.st.call = none → c.st.h2.closed = true

section Runs

variable {cfg : Config} {c d : Conf} {l : Label} {n : Nat} {bare : Bool} {st : Status}

theorem of_call_none : (Writer.of c).call = none ↔ c.st.call = none := by
  simp [Writer.of, writer]

theorem owing_step (h : Owing n bare st c) (hl : trailersPlain c l)
    (hs : (machine cfg).step c l = some d) : Owing n bare st d := by
  have hclosing := closing_step h.closing hl hs
  rcases views_step_or_again h.closing.dispatched hl hs with
    ⟨t, -, hw, -⟩ | ⟨⟨fields, e, rfl, -, -⟩, hw, -⟩
  · refine ⟨hclosing, owes_step h.owes hw, fun hgone => closed_stays hw ?_⟩
    rcases call_gone hw (of_call_none.mpr hgone) with hc | hmem
    · exact h.gone (of_call_none.mp hc)
    · exact h.closing.closed (mem_todo_closeErase.mp hmem)
  · obtain ⟨-, s, gs, hfire, rfl⟩ := Resume.System.step_event hs
    have hfire : fire cfg (.headers fields e) c.st = some (s, gs) := hfire
    have hopen : c.st.h2.closed = false := by
      simp only [fire] at hfire
      split at hfire
      · cases hfire
      · next hn => simpa using hn
    have hcall : (Writer.of c).call ≠ none := by
      intro hnone
      rw [h.gone (of_call_none.mp hnone)] at hopen
      cases hopen
    refine ⟨hclosing, owes_again h.owes hcall hw, fun hgone => absurd ?_ hcall⟩
    exact again_gone hw (of_call_none.mpr hgone)

/-- Is it a unary call, answered with OK? -/
def bareOk (s : State) (st : Status) : Bool := decide (s.ctx = some .unary) && st.ok

/-- What every way to answer has in common: `gs` are the frames it leaves, `subs` what it
    submits. -/
theorem owing_init {b : Conf} {s : State} (gs : List Frame) {k : Call} (subs : List Submission)
    (hclosing : Closing ⟨s, gs ++ b.frames⟩) (hresp : responding (Writer.of b).todo = 0)
    (hopen : s.opened = true) (hc : s.call = some k) (hans : k.responded = true)
    (hsubs : s.h2.subs = b.st.h2.subs ++ subs)
    (hdef : k.hasFinishPending = true → bare = false ∧ k.finishPending = st)
    (hgs : gs ≠ [] → bare = true)
    (hterm : ∀ block ∈ terminals subs, bare = false ∧ Carries st block) :
    Owing b.st.h2.subs.length bare st ⟨s, gs ++ b.frames⟩ := by
  have hcall : (Writer.of ⟨s, gs ++ b.frames⟩).call = some k.toWriteSide :=
    congrArg (Option.map _) hc
  refine ⟨hclosing, ⟨⟨hopen, ?_⟩, ?_, ?_, ?_, ?_⟩, ?_⟩
  · intro k2 hk2
    cases hcall.symm.trans hk2
    exact hans
  · have hlen : s.h2.subs.length = b.st.h2.subs.length + subs.length := by
      rw [hsubs, List.length_append]
    exact hlen ▸ Nat.le_add_right _ _
  · intro k2 hk2
    cases hcall.symm.trans hk2
    exact hdef
  · intro hne
    refine hgs fun hnil => hne ?_
    subst hnil
    exact hresp
  · intro block hmem
    have hnew : (Writer.of ⟨s, gs ++ b.frames⟩).h2.subs.drop b.st.h2.subs.length = subs := by
      simp [Writer.of, writer, hsubs]
    rw [hnew] at hmem
    obtain ⟨hbare, hcarry⟩ := hterm block hmem
    rw [hbare]
    exact hcarry
  · intro hnone
    cases hc.symm.trans hnone

/-- A call that has not been answered: no frame of `Respond` waits and no finish is deferred. -/
theorem Writer.Orderly.unanswered {b : Conf} {k : Call} (ho : Orderly (.of b)) (hk : b.st.call = some k)
    (hr : k.responded = false) :
    b.st.opened = true ∧ responding (Writer.of b).todo = 0 ∧ k.hasFinishPending = false := by
  have hw : (Writer.of b).call = some k.toWriteSide := congrArg (Option.map _) hk
  have hturn := ho.turns.turn _ hw
  refine ⟨?_, hturn.unanswered hr, ?_⟩
  · by_contra hne
    have := ho.dispatched.fresh (by simpa [Writer.of, writer] using hne)
    simp [hw] at this
  · by_contra hne
    have := (hturn.deferred (by simpa using hne)).1
    rw [hr] at this
    cases this

theorem carries_only {block : Submission} (h : Carries st block) :
    ∀ b ∈ terminals [block], Carries st b := by
  intro b hmem
  rw [List.mem_singleton.mp (List.mem_of_mem_filter hmem)]
  exact h

/-- `Finish`, or `Respond` on a stream. -/
theorem owing_of_finish {b : Conf} {k : Call} {first : Option Bytes} (ho : Orderly (.of b))
    (hk : b.st.call = some k) (hr : k.responded = false) (hctx : b.st.ctx = some (.stream first))
    (hc : Closing ⟨finish b.st st, b.frames⟩) :
    Owing b.st.h2.subs.length (bareOk b.st st) st ⟨finish b.st st, b.frames⟩ := by
  obtain ⟨hopen, hresp, hpend⟩ := ho.unanswered hk hr
  have hbare : bareOk b.st st = false := by simp [bareOk, hctx]
  have hidle : ∀ {P : Prop}, k.hasFinishPending = true → P := by
    intro P hp
    rw [hpend] at hp
    cases hp
  simp only [finish, finishStream, hk, hr, Bool.false_eq_true, if_false] at hc ⊢
  split
  · next hq =>
      rw [if_pos hq] at hc
      exact owing_init [] [] hc hresp hopen rfl rfl (List.append_nil _).symm
        (fun _ => ⟨hbare, rfl⟩) (by simp) (fun _ hm => by cases hm)
  · next hq =>
      rw [if_neg hq] at hc
      split
      · next hh =>
          rw [if_pos hh] at hc
          exact owing_init [] _ hc hresp hopen rfl rfl (Sender.sendHeaders_subs _ _ _)
            hidle (by simp) fun bl hm => ⟨hbare, carries_only (.inr rfl) bl hm⟩
      · next hh =>
          rw [if_neg hh] at hc
          exact owing_init [] _ hc hresp hopen rfl rfl (Sender.sendTrailers_subs _ _)
            hidle (by simp) fun bl hm => ⟨hbare, carries_only (.inl rfl) bl hm⟩

/-- The handler answers with `st`. -/
theorem owing_of_op {b : Conf} {o : Op} {k : Call} (hb : Closing b) (ho : Orderly (.of b))
    (hk : b.st.call = some k) (hr : k.responded = false) (hst : o.status = some st)
    (hs : (machine cfg).step b (.event (.op o)) = some c) :
    Owing b.st.h2.subs.length (bareOk b.st st) st c := by
  have hc := closing_step hb (l := .event (.op o)) trivial hs
  obtain ⟨hopen, hresp, hpend⟩ := ho.unanswered hk hr
  have hidle : ∀ {P : Prop}, k.hasFinishPending = true → P := by
    intro P hp
    rw [hpend] at hp
    cases hp
  obtain ⟨-, s, gs, hfire, rfl⟩ := Resume.System.step_event hs
  have hfire : applyOp b.st o = some (s, gs) := hfire
  cases o with
  | readMessage | writeMessage | writeDone | onCancel => cases hst
  | finish st' =>
      cases hst
      simp only [applyOp] at hfire
      split at hfire
      · next first hctx =>
          cases hfire
          exact owing_of_finish ho hk hr hctx hc
      · cases hfire
  | respond st' payload =>
      cases hst
      simp only [applyOp] at hfire
      split at hfire
      · next hctx =>
          simp only [respond, hk, hr, Bool.false_eq_true, if_false, Option.some.injEq] at hfire
          split at hfire
          · next hok =>
              have hbare : bareOk b.st st = true := by simp [bareOk, hctx, hok]
              cases hfire
              exact owing_init _ _ hc hresp hopen rfl rfl (Sender.sendHeaders_subs _ _ _) hidle
                (fun _ => hbare) (fun _ hm => by cases hm)
          · next hok =>
              have hbare : bareOk b.st st = false := by simp [bareOk, hok]
              cases hfire
              exact owing_init _ _ hc hresp hopen rfl rfl (Sender.sendHeaders_subs _ _ _) hidle
                (by simp) fun bl hm => ⟨hbare, carries_only (.inr rfl) bl hm⟩
      · next first hctx =>
          cases hfire
          exact owing_of_finish ho hk hr hctx hc
      · cases hfire

end Runs

/-- A client with a stream that waits on stream 3. -/
theorem awaits_demo : ∃ c, Channel.machine.Reach Channel.anyStep (Channel.fresh Channel.demo) c ∧
    Channel.Awaits c.st 3 := by
  obtain ⟨c, hc, hawait⟩ : ∃ c, Channel.machine.run Channel.anyStep (Channel.fresh Channel.demo)
      Channel.callAndStream = some c ∧ Channel.Awaits c.st 3 := ⟨_, rfl, .stream rfl rfl rfl⟩
  exact ⟨c, Resume.System.reach_of_run _ _ _ hc, hawait⟩

end Server

end Urpc
