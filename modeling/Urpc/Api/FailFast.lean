/-
  Operations on a closed channel.

  The unary calls look at `closed` first and report UNAVAILABLE. The bridge functions of the
  streams do not: the guard of `ChannelOpenStreamRaw` is the body of `if (getenv(...))`, so without
  `URPC_WIRE_DEBUG` an opening dereferences the null core channel, or the null pointer that `lock`
  gives once the channel is gone; `ChannelStreamSendRaw`, `ChannelStreamCloseSendRaw` and
  `ChannelOnLoopThreadRaw` never ask whether the channel is closed, and a stream's raw pointer
  outlives the channel. What is left after `Close` is what never reaches the bridge
  (`mild`).

  Proved: `closed_fails_fast_iff`.
-/
import Urpc.Api.Bridge

namespace Urpc.Api

open Cxx Channel

/-- An operation that fails at once: it asks nothing of the core channel and reports UNAVAILABLE,
    or, having no status to report, returns. -/
def Outcome.failsFast : Outcome → Bool
  | .fault => false
  | .ran requests answer => requests.isEmpty && match answer with
      | .later => false
      | .status st => st.code == .unavailable
      | .refused | .void => true

namespace World

variable {Res : Type}

/-- No operation that starts on a channel that is closed or gone asks for anything or waits, each
    reports UNAVAILABLE where it reports, and no outcome depends on `URPC_WIRE_DEBUG`. -/
def FailsFast (w : World) (ops : List (Op Res)) : Prop :=
  (∀ debug, ∀ e ∈ run debug w ops, e.1.isClosed = true → e.2.failsFast = true) ∧
    (run true w ops).map Prod.snd = (run false w ops).map Prod.snd

instance (w : World) (ops : List (Op Res)) : Decidable (FailsFast w ops) :=
  inferInstanceAs (Decidable (_ ∧ _))

/-- On a channel that is closed or gone, the operation is not one of the streams, or it is a
    `Write` of null or to a stream that has terminated, or a repeated `WritesDone`. -/
def mild (w : World) (op : Op Res) : Bool :=
  !w.isClosed || match op with
    | .openReader .. | .openWriter .. | .openReaderWriter .. => false
    | .write i _ request _ => (w.writerAt i).all fun s => request.isNone || s.state.terminated
    | .writesDone i => (w.writerAt i).all fun s => s.writesDone
    | .finish i _ => w.streams[i]?.isNone
    | _ => true

/-- Every operation of the sequence is mild where it starts. -/
def meets : World → List (Op Res) → Bool
  | _, [] => true
  | w, op :: ops => w.mild op && match w.exec false op with
      | none => true
      | some (w', _) => meets w' ops

/-! ## One operation -/

structure Sound (w : World) : Prop where
  core : ∀ ch, w.channel = some ch → (ch.core = none ↔ ch.closed = true)
  refs : ∀ s ∈ w.streams, s.channel = .channel

variable {w w' : World}

theorem writerAt_mem {i : Nat} {s : ClientStream} (h : w.writerAt i = some s) :
    s ∈ w.streams ∧ w.streams[i]? = some s := by
  obtain ⟨hs, -⟩ := Option.filter_eq_some_iff.mp h
  exact ⟨List.mem_of_getElem? hs, hs⟩

/-- A channel that is closed or gone has no core channel to reach. -/
theorem Sound.derefCore_over (h : Sound w) (ho : w.isClosed = true) : w.derefCore .channel = none := by
  unfold derefCore deref
  cases hc : w.channel with
  | none => rfl
  | some ch =>
      have hclosed : ch.closed = true := by simpa [isClosed, hc] using ho
      exact (h.core ch hc).mpr hclosed

theorem Sound.open (h : Sound w) (ho : w.isClosed = false) :
    ∃ ch core, w.channel = some ch ∧ ch.closed = false ∧ ch.core = some core := by
  cases hc : w.channel with
  | none => simp [isClosed, hc] at ho
  | some ch =>
      have hclosed : ch.closed = false := by simpa [isClosed, hc] using ho
      cases hcore : ch.core with
      | none =>
          rw [(h.core ch hc).mp hcore] at hclosed
          cases hclosed
      | some core => exact ⟨ch, core, rfl, hclosed, hcore⟩

theorem Sound.setStreamAt (h : Sound w) (i : Nat) {s s' : ClientStream} (hs : s ∈ w.streams)
    (heq : s'.channel = s.channel) : Sound (w.setStreamAt i s') where
  core := h.core
  refs x hx := by
    rcases List.mem_or_eq_of_mem_set hx with hx | rfl
    · exact h.refs x hx
    · rw [heq]
      exact h.refs s hs

theorem writesDone_channel {s s' : ClientStream} {events : List Event}
    (h : w.writesDone s = some (s', events)) : s'.channel = s.channel ∧ s'.view = s.view := by
  unfold writesDone at h
  split at h
  · cases h
    exact ⟨rfl, rfl⟩
  · obtain ⟨_, -, heq⟩ := Option.map_eq_some_iff.mp h
    cases heq
    exact ⟨rfl, rfl⟩

/-- A stream of an open channel reaches the core channel. -/
theorem writesDone_isSome {core : Core} {s : ClientStream}
    (hs : w.derefCore s.channel = some core) : ∃ r, w.writesDone s = some r := by
  unfold writesDone channelStreamCloseSendRaw
  split
  · exact ⟨_, rfl⟩
  · rw [hs]
    split <;> exact ⟨_, rfl⟩

theorem write_isSome {core : Core} {s : ClientStream} (hs : w.derefCore s.channel = some core)
    (onLoopThread : Bool) (request : Option Request) (cb : CbId) :
    ∃ r, w.write s onLoopThread request cb = some r := by
  have hloop : ∃ b, w.channelOnLoopThreadRaw s.channel onLoopThread = some b := by
    unfold channelOnLoopThreadRaw
    rw [hs]
    split <;> exact ⟨_, rfl⟩
  have hsend : ∀ framed, ∃ r, w.channelStreamSendRaw s.channel s.id framed (some cb) false =
      some r := by
    intro framed
    unfold channelStreamSendRaw
    rw [hs]
    split <;> exact ⟨_, rfl⟩
  obtain ⟨b, hb⟩ := hloop
  unfold write
  split
  · exact ⟨_, rfl⟩
  · split
    · exact ⟨_, rfl⟩
    · rw [hb, Option.bind_some]
      split
      · exact ⟨_, rfl⟩
      · split
        · exact ⟨_, rfl⟩
        · next bytes _ =>
            obtain ⟨r, hr⟩ := hsend (encodeFrame bytes)
            rw [hr]
            exact ⟨_, rfl⟩

theorem finish_isSome {core : Core} {s : ClientStream} (hs : w.derefCore s.channel = some core)
    (caller : Caller Res) : ∃ r, w.finish s caller = some r ∧ r.1.channel = s.channel := by
  have hloop : ∃ b, w.channelOnLoopThreadRaw s.channel caller.onLoopThread = some b := by
    unfold channelOnLoopThreadRaw
    rw [hs]
    split <;> exact ⟨_, rfl⟩
  obtain ⟨b, hb⟩ := hloop
  unfold finish
  dsimp only
  split
  · rw [hb, Option.map_some]
    refine ⟨_, rfl, ?_⟩
    split
    · split <;> rfl
    · split <;> rfl
  · obtain ⟨⟨s', events⟩, hdone⟩ := writesDone_isSome hs
    obtain ⟨hchan, -⟩ := writesDone_channel hdone
    have hb' : w.channelOnLoopThreadRaw s'.channel caller.onLoopThread = some b := by
      rw [hchan, hb]
    rw [hdone, Option.bind_some]
    dsimp only
    rw [hb', Option.map_some]
    refine ⟨_, rfl, ?_⟩
    split
    · split <;> exact hchan
    · split <;> exact hchan

/-! ### On an open channel -/

theorem Sound.setChannel (h : Sound w) {ch : ChannelObj} (hclosed : ch.closed = false)
    (hcore : ch.core ≠ none) : Sound { w with channel := some ch } := by
  refine ⟨fun ch' hch' => ?_, h.refs⟩
  cases hch'
  simp [hclosed, hcore]

theorem callAsync_open {ch : ChannelObj} {core : Core} (hclosed : ch.closed = false)
    (hcore : ch.core = some core) (path : Bytes) (request : Request) (timeoutMs : Nat) :
    ∃ ch' events answer, ch.callAsync path request timeoutMs = some (ch', events, answer) ∧
      ch'.closed = false ∧ ch'.core ≠ none := by
  unfold ChannelObj.callAsync
  rw [if_neg (by simp [hclosed])]
  split
  · exact ⟨_, _, _, rfl, hclosed, by simp [hcore]⟩
  · split
    · exact ⟨_, _, _, rfl, hclosed, by simp [hcore]⟩
    · rw [ChannelObj.callRaw, hcore]
      exact ⟨_, _, _, rfl, hclosed, by simp⟩

/-- An opening asks the core channel, with or without the debug variable. -/
theorem openStream_open (h : Sound w) {ch : ChannelObj} {core : Core} (hc : w.channel = some ch)
    (hclosed : ch.closed = false) (hcore : ch.core = some core) (view : View) (path : Bytes)
    (timeoutMs : Nat) :
    ∃ w' s events, (∀ debug, w.openStream debug view path timeoutMs = some (w', s, events)) ∧
      Sound w' ∧ s.channel = .channel ∧ w'.derefCore .channel ≠ none := by
  have hlock : w.lock = .channel := by simp [lock, hc]
  let ch' : ChannelObj :=
    { ch with core := some { core with nextCallId := core.nextCallId + 1 } }
  refine ⟨{ w with channel := some ch' }, { id := core.nextCallId, view, channel := .channel },
    [.openStream path ⟨true, true⟩ timeoutMs], fun debug => ?_,
    @Sound.setChannel w h ch' hclosed (by simp [ch']), rfl, by simp [derefCore, deref, ch']⟩
  cases debug <;>
    simp [openStream, channelOpenStreamRaw, hlock, deref, hc, hclosed, hcore, ch']

theorem Sound.opened (h : Sound w) {s : ClientStream} (hs : s.channel = .channel)
    (events : List Event) : Sound (w.opened s events).1 := by
  refine ⟨h.core, fun x hx => ?_⟩
  rcases List.mem_append.mp hx with hx | hx
  · exact h.refs x hx
  · rw [List.mem_singleton.mp hx]
    exact hs

/-- On an open channel no operation faults, and `URPC_WIRE_DEBUG` changes nothing. -/
theorem Sound.exec_open (h : Sound w) (ho : w.isClosed = false) (op : Op Res) :
    ∃ r, (∀ debug, w.exec debug op = some r) ∧ Sound r.1 := by
  obtain ⟨ch, core, hc, hclosed, hcore⟩ := h.open ho
  have hderef : w.derefCore .channel = some core := by
    simp [derefCore, deref, hc, hcore]
  cases op with
  | callAsync path request timeoutMs =>
      obtain ⟨ch', events, answer, hr, hclosed', hcore'⟩ :=
        callAsync_open hclosed hcore path request timeoutMs
      refine ⟨({ w with channel := some ch' }, events, answer), fun _ => ?_,
        h.setChannel hclosed' hcore'⟩
      simp [exec, proxyCallAsync, hc, hclosed, hr]
  | call onLoopThread path request timeoutMs =>
      by_cases hl : onLoopThread = true
      · refine ⟨({ w with channel := some ch }, [], .status callOnLoopThread), fun _ => ?_,
          h.setChannel hclosed (by simp [hcore])⟩
        simp [exec, proxyCall, ChannelObj.call, hc, hclosed, hl]
      · obtain ⟨ch', events, answer, hr, hclosed', hcore'⟩ :=
          callAsync_open hclosed hcore path request timeoutMs
        refine ⟨({ w with channel := some ch' }, events, answer), fun _ => ?_,
          h.setChannel hclosed' hcore'⟩
        simp [exec, proxyCall, ChannelObj.call, hc, hclosed, hl, hr]
  | openReader path request timeoutMs =>
      obtain ⟨w', s, events, heq, hw', hs, hreach⟩ :=
        openStream_open h hc hclosed hcore .reader path timeoutMs
      obtain ⟨events', hsend⟩ : ∃ events', w'.sendSingleRequest s request = some events' := by
        obtain ⟨core', hcore'⟩ := Option.ne_none_iff_exists'.mp hreach
        unfold sendSingleRequest channelStreamSendRaw
        rw [hs, hcore']
        split
        · exact ⟨_, rfl⟩
        · split
          · exact ⟨_, rfl⟩
          · exact ⟨_, rfl⟩
      refine ⟨w'.opened s (events ++ events'), fun debug => ?_, hw'.opened hs _⟩
      simp [exec, openClientReader, heq debug, hsend]
  | openWriter path timeoutMs =>
      obtain ⟨w', s, events, heq, hw', hs, -⟩ :=
        openStream_open h hc hclosed hcore .writer path timeoutMs
      refine ⟨w'.opened s events, fun debug => ?_, hw'.opened hs _⟩
      simp [exec, openClientWriter, heq debug]
  | openReaderWriter path timeoutMs =>
      obtain ⟨w', s, events, heq, hw', hs, -⟩ :=
        openStream_open h hc hclosed hcore .readerWriter path timeoutMs
      refine ⟨w'.opened s events, fun debug => ?_, hw'.opened hs _⟩
      simp [exec, openClientReaderWriter, heq debug]
  | write i onLoopThread request cb =>
      cases hi : w.writerAt i with
      | none => exact ⟨(w, [], .void), fun _ => by simp [exec, hi], h⟩
      | some s =>
          have hs := h.refs s (writerAt_mem hi).1
          obtain ⟨⟨events, answer⟩, hr⟩ := write_isSome (hs ▸ hderef) onLoopThread request cb
          exact ⟨(w, events, answer), fun _ => by simp [exec, hi, hr], h⟩
  | writesDone i =>
      cases hi : w.writerAt i with
      | none => exact ⟨(w, [], .void), fun _ => by simp [exec, hi], h⟩
      | some s =>
          have hmem := (writerAt_mem hi).1
          obtain ⟨⟨s', events⟩, hr⟩ := writesDone_isSome (h.refs s hmem ▸ hderef)
          exact ⟨(w.setStreamAt i s', events, .void), fun _ => by simp [exec, hi, hr],
            h.setStreamAt i hmem (writesDone_channel hr).1⟩
  | finish i caller =>
      cases hi : w.streams[i]? with
      | none => exact ⟨(w, [], .void), fun _ => by simp [exec, hi], h⟩
      | some s =>
          have hmem := List.mem_of_getElem? hi
          obtain ⟨⟨s', events, answer⟩, hr, hchan⟩ :=
            finish_isSome (h.refs s hmem ▸ hderef) caller
          exact ⟨(w.setStreamAt i s', events, answer), fun _ => by simp [exec, hi, hr],
            h.setStreamAt i hmem hchan⟩
  | close =>
      refine ⟨_, fun _ => rfl, ⟨fun ch' hch' => ?_, h.refs⟩⟩
      simp only [hc, Option.map_some, ChannelObj.close, hclosed, Bool.false_eq_true, if_false,
        Option.some.injEq] at hch'
      subst hch'
      simp
  | expire =>
      refine ⟨_, fun _ => rfl, ⟨fun ch' hch' => ?_, h.refs⟩⟩
      cases hch'
  | told o =>
      refine ⟨({ w with streams := w.streams.map fun s =>
          { s with toClientWriter := s.toClientWriter.told o } }, [], .void),
        fun _ => by simp only [exec, ho, Bool.false_eq_true, if_false], ⟨h.core, fun x hx => ?_⟩⟩
      obtain ⟨s, hs, rfl⟩ := List.mem_map.mp hx
      exact h.refs s hs

/-! ### On a channel that is closed or gone -/

/-- On a channel that is closed or gone, a mild operation fails at once. -/
theorem Sound.exec_mild (h : Sound w) (ho : w.isClosed = true) {op : Op Res}
    (hm : w.mild op = true) :
    ∃ r, (∀ debug, w.exec debug op = some r) ∧ Sound r.1 ∧
      (Outcome.ran r.2.1 r.2.2).failsFast = true := by
  have hcall : w.channel = none ∨ ∃ ch, w.channel = some ch ∧ ch.closed = true := by
    cases hc : w.channel with
    | none => exact .inl rfl
    | some ch => exact .inr ⟨ch, rfl, by simpa [isClosed, hc] using ho⟩
  simp only [mild, ho, Bool.not_true, Bool.false_or] at hm
  cases op with
  | openReader | openWriter | openReaderWriter => cases hm
  | callAsync path request timeoutMs =>
      refine ⟨(w, [], .status channelClosed), fun _ => ?_, h, rfl⟩
      rcases hcall with hc | ⟨ch, hc, hclosed⟩
      · simp [exec, proxyCallAsync, hc]
      · simp [exec, proxyCallAsync, hc, hclosed]
  | call onLoopThread path request timeoutMs =>
      refine ⟨(w, [], .status channelClosed), fun _ => ?_, h, rfl⟩
      rcases hcall with hc | ⟨ch, hc, hclosed⟩
      · simp [exec, proxyCall, hc]
      · simp [exec, proxyCall, hc, hclosed]
  | write i onLoopThread request cb =>
      cases hi : w.writerAt i with
      | none => exact ⟨(w, [], .void), fun _ => by simp [exec, hi], h, rfl⟩
      | some s =>
          refine ⟨(w, [], .refused), fun _ => ?_, h, rfl⟩
          cases request with
          | none => simp [exec, hi, World.write]
          | some request =>
              have hterm : s.state.terminated = true := by simpa [hi] using hm
              simp [exec, hi, World.write, hterm]
  | writesDone i =>
      cases hi : w.writerAt i with
      | none => exact ⟨(w, [], .void), fun _ => by simp [exec, hi], h, rfl⟩
      | some s =>
          have hdone : s.writesDone = true := by simpa [hi] using hm
          have hmem := (writerAt_mem hi).1
          exact ⟨(w.setStreamAt i s, [], .void),
            fun _ => by simp [exec, hi, World.writesDone, hdone], h.setStreamAt i hmem rfl, rfl⟩
  | finish i caller =>
      have hi : w.streams[i]? = none := by simpa using hm
      exact ⟨(w, [], .void), fun _ => by simp [exec, hi], h, rfl⟩
  | close =>
      have hsame : w.channel.map ChannelObj.close = w.channel := by
        rcases hcall with hc | ⟨ch, hc, hclosed⟩
        · rw [hc, Option.map_none]
        · rw [hc, Option.map_some, ChannelObj.close, if_pos hclosed]
      exact ⟨(w, [], .void), fun _ => by simp only [exec, hsame], h, rfl⟩
  | expire =>
      refine ⟨_, fun _ => rfl, ⟨fun ch' hch' => ?_, h.refs⟩, rfl⟩
      cases hch'
  | told o => exact ⟨(w, [], .void), fun _ => by simp [exec, ho], h, rfl⟩

theorem openStream_fault (h : Sound w) (ho : w.isClosed = true) (view : View) (path : Bytes)
    (timeoutMs : Nat) : w.openStream false view path timeoutMs = none := by
  have hnone : (w.deref w.lock).bind ChannelObj.core = none := by
    cases hc : w.channel with
    | none => simp [lock, deref, hc]
    | some ch =>
        have hreach := h.derefCore_over ho
        simpa [lock, derefCore, hc] using hreach
  cases hd : w.deref w.lock with
  | none => simp [openStream, channelOpenStreamRaw, hd]
  | some ch =>
      rw [hd, Option.bind_some] at hnone
      simp [openStream, channelOpenStreamRaw, hd, hnone]

/-- Every other one dereferences what is not there. -/
theorem Sound.exec_fault (h : Sound w) {op : Op Res} (hm : w.mild op = false) :
    w.isClosed = true ∧ w.exec false op = none := by
  have ho : w.isClosed = true := by
    by_contra hne
    simp [mild, hne] at hm
  have hreach := h.derefCore_over ho
  simp only [mild, ho, Bool.not_true, Bool.false_or] at hm
  refine ⟨ho, ?_⟩
  cases op with
  | openReader path request timeoutMs =>
      simp [exec, openClientReader, openStream_fault h ho]
  | openWriter path timeoutMs => simp [exec, openClientWriter, openStream_fault h ho]
  | openReaderWriter path timeoutMs =>
      simp [exec, openClientReaderWriter, openStream_fault h ho]
  | write i onLoopThread request cb =>
      cases hi : w.writerAt i with
      | none => simp [hi] at hm
      | some s =>
          have hs := h.refs s (writerAt_mem hi).1
          simp only [hi, Option.all_some, Bool.or_eq_false_iff, Option.isNone_eq_false_iff] at hm
          obtain ⟨request, rfl⟩ := Option.isSome_iff_exists.mp hm.1
          simp [exec, hi, World.write, hm.2, channelOnLoopThreadRaw, hs, hreach]
  | writesDone i =>
      cases hi : w.writerAt i with
      | none => simp [hi] at hm
      | some s =>
          have hs := h.refs s (writerAt_mem hi).1
          have hdone : s.writesDone = false := by simpa [hi] using hm
          simp [exec, hi, World.writesDone, hdone, channelStreamCloseSendRaw, hs, hreach]
  | finish i caller =>
      cases hi : w.streams[i]? with
      | none => simp [hi] at hm
      | some s =>
          have hs := h.refs s (List.mem_of_getElem? hi)
          have hloop : ∀ b, w.channelOnLoopThreadRaw .channel b = none := fun b => by
            simp [channelOnLoopThreadRaw, hreach]
          suffices hnone : w.finish s caller = none by simp [exec, hi, hnone]
          unfold finish
          dsimp only
          split
          · rw [hs, hloop, Option.map_none]
          · cases hd : w.writesDone s with
            | none => rfl
            | some r =>
                rw [Option.bind_some, (writesDone_channel hd).1, hs, hloop, Option.map_none]
  | _ => cases hm

/-! ## Sequences -/

/-- The first operation does the same in both environments. -/
theorem failsFast_cons {op : Op Res} {ops : List (Op Res)} {r : World × List Event × Answer}
    (hr : ∀ debug, w.exec debug op = some r) :
    FailsFast w (op :: ops) ↔
      (w.isClosed = true → (Outcome.ran r.2.1 r.2.2).failsFast = true) ∧ FailsFast r.1 ops := by
  obtain ⟨w', events, answer⟩ := r
  have hrun : ∀ debug, run debug w (op :: ops) = (w, .ran events answer) :: run debug w' ops := by
    intro debug
    rw [run, hr debug]
  simp only [FailsFast, hrun, List.mem_cons, forall_eq_or_imp, List.map_cons, List.cons.injEq,
    true_and]
  constructor
  · intro ⟨hfast, heq⟩
    exact ⟨(hfast false).1, fun debug => (hfast debug).2, heq⟩
  · intro ⟨hfirst, hfast, heq⟩
    exact ⟨fun debug => ⟨hfirst, hfast debug⟩, heq⟩

theorem Sound.failsFast_iff (h : Sound w) (ops : List (Op Res)) :
    FailsFast w ops ↔ meets w ops = true := by
  induction ops generalizing w with
  | nil => simp [FailsFast, run, meets]
  | cons op ops ih =>
      cases hm : w.mild op with
      | false =>
          obtain ⟨ho, hfault⟩ := h.exec_fault hm
          simp only [meets, hm, Bool.false_and, Bool.false_eq_true, iff_false]
          intro hfast
          have hmem : (w, Outcome.fault) ∈ run false w (op :: ops) := by simp [run, hfault]
          cases hfast.1 false _ hmem ho
      | true =>
          obtain ⟨r, hr, hsound, hfirst⟩ : ∃ r, (∀ debug, w.exec debug op = some r) ∧
              Sound r.1 ∧ (w.isClosed = true → (Outcome.ran r.2.1 r.2.2).failsFast = true) := by
            cases ho : w.isClosed with
            | false =>
                obtain ⟨r, hr, hsound⟩ := h.exec_open ho op
                exact ⟨r, hr, hsound, by simp⟩
            | true =>
                obtain ⟨r, hr, hsound, hfast⟩ := h.exec_mild ho hm
                exact ⟨r, hr, hsound, fun _ => hfast⟩
          rw [failsFast_cons hr, ih hsound, meets, hm, Bool.true_and, hr false]
          exact ⟨fun hall => hall.2, fun hrest => ⟨hfirst, hrest⟩⟩

end World

/-- **Closed channels fail fast**, exactly as far as the operations never reach the bridge: in every
    sequence of typed operations on a channel, those that start after `Close` or after the channel
    is gone touch no core channel and report UNAVAILABLE, and `URPC_WIRE_DEBUG` changes no outcome,
    if and only if none of those opens a stream, finishes one, writes a message to one that has not
    terminated, or is the first `WritesDone` of one. -/
theorem closed_fails_fast_iff {Res : Type} (ops : List (Op Res)) :
    World.FailsFast {} ops ↔ World.meets {} ops = true := by
  have hsound : World.Sound {} := by
    refine ⟨fun ch hch => ?_, fun s hs => by cases hs⟩
    cases hch
    simp
  exact hsound.failsFast_iff ops

/-- A call on the closed channel fails. Opening a writer on it dereferences the null core channel,
    and reports UNAVAILABLE if `URPC_WIRE_DEBUG` is set. The writer that was opened before faults in
    `Write`, `WritesDone` and `Finish`, whether the channel is closed or gone. -/
theorem closed_channel_faults :
    let echo : Request := { encoded := some [7] }
    let caller : Caller Bytes := ⟨false, true, some⟩
    let outcomes (debug : Bool) (ops : List (Op Bytes)) : List Outcome :=
      (World.run debug {} ops).map Prod.snd
    ¬ World.FailsFast {} [Op.close, .openWriter (str "/e/U") 0, .finish 0 caller] ∧
      outcomes false [.close, .callAsync (str "/e/E") echo 0, .openWriter (str "/e/U") 0] =
        [.ran [] .void, .ran [] (.status channelClosed), .fault] ∧
      outcomes true [.close, .callAsync (str "/e/E") echo 0, .openWriter (str "/e/U") 0] =
        [.ran [] .void, .ran [] (.status channelClosed), .ran [] (.status channelClosed)] ∧
      ∀ op ∈ [Op.write 0 false (some echo) 1, .writesDone 0, .finish 0 caller],
        ∀ last ∈ [Op.close, .expire], ∀ debug, outcomes debug
            [.openWriter (str "/e/U") 0, last, op] =
          [.ran [.openStream (str "/e/U") ⟨true, true⟩ 0] .later, .ran [] .void, .fault] := by
  decide

end Urpc.Api
