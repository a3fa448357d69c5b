/-
  How much of a request a server call keeps.

  A call keeps the bytes in its decoder, the messages decoded and not taken, and `pending_msgs`.
  The loop of `OnData` empties the decoder of a client-streaming or bidi call, and `DeliverRead`
  keeps at most 64 unread messages. Nothing stops a call after a framing error, a unary call, or
  a server-streaming call with a second message: `OnData` goes on feeding the decoder, and nobody
  takes what it decodes. `admits` are the steps in which a chunk finds a decoder that has
  rejected nothing and, unless the request is a stream, at most 64 messages waiting.

  Proved: `receive_memory_bounded` (in every run of such steps), `errors_keep_growing`.
-/
import Urpc.Codec.Size
import Urpc.Server.Closing

namespace Urpc.Server

open Cxx FrameDecoder

def bytesOf (ms : List Bytes) : Nat := (ms.map List.length).sum

/-- The request bytes that a call keeps. -/
def Asked.retained (k : Asked) : Nat := k.decoder.size + bytesOf k.pendingMsgs

/-- The messages that wait to be read. -/
def Asked.waiting (k : Asked) : Nat := k.decoder.messages.length + k.pendingMsgs.length

/-- The last DATA chunk that arrived; `(nullptr, 0)` is none. -/
def lastChunk (last : Bytes) : Label → Bytes
  | .event (.data chunk _) => if chunk.isEmpty then last else chunk
  | _ => last

/-- The forms whose request is a stream. -/
def Asked.reads (k : Asked) : Bool := k.form == .clientStreaming || k.form == .bidi

/-- A chunk finds no call, or one that has not ended its request (nghttp2 takes no DATA after
    END_STREAM) and whose decoder has rejected nothing; a call that does not read a stream has
    at most 64 messages waiting. -/
def admitsChunk (s : State) (chunk : Bytes) : Bool :=
  chunk.isEmpty || s.call.all fun k =>
    !k.requestDone && k.decoder.drained.1.ok &&
      (k.asked.reads || decide (k.asked.waiting ≤ 64))

def admits (c : Conf) (l : Label) : Prop :=
  trailersPlain c l ∧ match l with
    | .event (.data chunk _) => admitsChunk c.st chunk = true
    | _ => True

instance (c : Conf) : (l : Label) → Decidable (admits c l)
  | .event (.data chunk _) =>
      inferInstanceAs (Decidable (_ ∧ admitsChunk c.st chunk = true))
  | .event (.headers ..) | .event (.deadline _) | .event .pump | .event .connectionLost
  | .event .streamClose | .event (.credit _) | .event .consumed | .event (.op _)
  | .resume => inferInstanceAs (Decidable (_ ∧ True))

theorem bytesOf_le {ms : List Bytes} {m : Nat} (h : ∀ b ∈ ms, b.length ≤ m) :
    bytesOf ms ≤ ms.length * m := by
  have := List.sum_le_card_nsmul (ms.map List.length) m (by simpa using h)
  simpa [bytesOf] using this

namespace Reader

variable {limit : Nat} {t : Trigger} {v w : Reader}

/-- What a call keeps is within its limits, one by one and together. -/
structure Frugal (limit : Nat) (last : Bytes) (k : Asked) : Prop where
  limited : k.decoder.maxMessageSize = limit
  bounded : Bounded k.decoder
  pending : ∀ m ∈ k.pendingMsgs, m.length ≤ limit
  short : k.decoder.drained.1.ok = true → k.decoder.buffer.length < max limit kPrefixLen
  within : k.retained ≤ 65 * max limit kPrefixLen + last.length

theorem frugal_new (limit : Nat) (last : Bytes) (k : Asked) (hd : k.decoder = .new limit)
    (hp : k.pendingMsgs = []) : Frugal limit last k := by
  refine ⟨by rw [hd]; rfl, hd ▸ bounded_new limit, by simp [hp], fun _ => ?_, ?_⟩
  · rw [hd]
    simp only [new, List.length_nil, kPrefixLen]
    omega
  · simp [Asked.retained, hd, hp, new, size, bytesOf]

/-- A call that keeps the same. -/
theorem Frugal.keep {last : Bytes} {k k' : Asked} (h : Frugal limit last k)
    (hd : k'.decoder = k.decoder) (hp : k'.pendingMsgs = k.pendingMsgs) :
    Frugal limit last k' := by
  refine ⟨hd ▸ h.limited, hd ▸ h.bounded, hp ▸ h.pending, hd ▸ h.short, ?_⟩
  have := h.within
  unfold Asked.retained at this ⊢
  rw [hd, hp]
  exact this

/-- A message is taken out of the decoder, and kept or not. -/
theorem Frugal.take {last : Bytes} {k k' : Asked} (h : Frugal limit last k)
    (hm : k.decoder.hasMessage = true) (hd : k'.decoder = k.decoder.takeMessage.2)
    (hp : k'.pendingMsgs = k.pendingMsgs ∨
      k'.pendingMsgs = k.pendingMsgs ++ [k.decoder.takeMessage.1]) : Frugal limit last k' := by
  have hsize := size_takeMessage hm
  have hfirst : k.decoder.takeMessage.1.length ≤ limit := by
    cases hms : k.decoder.messages with
    | nil => simp [hasMessage, hms] at hm
    | cons m ms =>
        have := h.bounded.messages m (by simp [hms])
        rw [h.limited] at this
        simpa [takeMessage, hms] using this
  refine ⟨?_, hd ▸ h.bounded.takeMessage, ?_, ?_, ?_⟩
  · rw [hd]
    exact h.limited
  · intro m hmem
    rcases hp with hp | hp
    · exact h.pending m (hp ▸ hmem)
    · rw [hp] at hmem
      rcases List.mem_append.mp hmem with hmem | hmem
      · exact h.pending m hmem
      · rw [List.mem_singleton.mp hmem]
        exact hfirst
  · rw [hd, drained_takeMessage _ hm]
    exact h.short
  · have hwithin := h.within
    have hbytes : bytesOf k'.pendingMsgs ≤
        bytesOf k.pendingMsgs + k.decoder.takeMessage.1.length := by
      rcases hp with hp | hp
      · rw [hp]
        omega
      · rw [hp]
        simp [bytesOf]
    unfold Asked.retained at hwithin ⊢
    rw [hd]
    omega

/-- A pending message is read. -/
theorem Frugal.read {last msg : Bytes} {msgs : List Bytes} {k k' : Asked}
    (h : Frugal limit last k) (hd : k'.decoder = k.decoder) (hp : k.pendingMsgs = msg :: msgs)
    (hp' : k'.pendingMsgs = msgs) : Frugal limit last k' := by
  refine ⟨hd ▸ h.limited, hd ▸ h.bounded, ?_, hd ▸ h.short, ?_⟩
  · intro m hm
    exact h.pending m (by rw [hp, ← hp']; exact List.mem_cons_of_mem _ hm)
  · have := h.within
    simp only [Asked.retained, hp, bytesOf, List.map_cons, List.sum_cons] at this
    simp only [Asked.retained, hd, hp', bytesOf]
    omega

/-- A chunk is fed to the decoder. -/
theorem Frugal.fed {last chunk : Bytes} {k k' : Asked} (h : Frugal limit last k)
    (hchunk : chunk = [] ∨ k.decoder.drained.1.ok = true ∧ k.waiting ≤ 64)
    (hd : k'.decoder = (k.decoder.consume chunk).2) (hp : k'.pendingMsgs = k.pendingMsgs) :
    Frugal limit (if chunk.isEmpty then last else chunk) k' := by
  obtain ⟨hsize, hbounded, hmax⟩ := drained_size (k.decoder.feed chunk) (h.bounded.feed chunk)
  rw [size_feed] at hsize
  have hmax : k'.decoder.maxMessageSize = limit := by
    rw [hd]
    exact hmax.trans h.limited
  refine ⟨hmax, hd ▸ hbounded, hp ▸ h.pending, ?_, ?_⟩
  · intro hok
    have hidem : k'.decoder.drained.1 = (k.decoder.feed chunk).drained.1 := by
      rw [hd, consume, drained_drained]
    have hshort := drained_short (k.decoder.feed chunk) (h.bounded.feed chunk) (hidem ▸ hok)
    rw [hd]
    have hlim : (k.decoder.feed chunk).maxMessageSize = limit := h.limited
    rw [hlim] at hshort
    exact hshort
  · have hretained : k'.retained ≤ k.retained + chunk.length := by
      simp only [Asked.retained, hd, hp, consume]
      omega
    rcases hchunk with rfl | ⟨hok, hwait⟩
    · have := h.within
      simp only [List.length_nil, Nat.add_zero, List.isEmpty_nil, if_true] at hretained ⊢
      omega
    · have hshort := h.short hok
      have hdec : bytesOf k.decoder.messages ≤ k.decoder.messages.length * limit :=
        bytesOf_le fun m hm => h.limited ▸ h.bounded.messages m hm
      have hpend := bytesOf_le h.pending
      have hall : bytesOf k.decoder.messages + bytesOf k.pendingMsgs ≤
          64 * max limit kPrefixLen := by
        calc bytesOf k.decoder.messages + bytesOf k.pendingMsgs
            ≤ k.decoder.messages.length * limit + k.pendingMsgs.length * limit :=
              Nat.add_le_add hdec hpend
          _ = k.waiting * limit := (Nat.add_mul _ _ _).symm
          _ ≤ 64 * max limit kPrefixLen := Nat.mul_le_mul hwait (Nat.le_max_left _ _)
      have hkept : k.retained = k.decoder.buffer.length + bytesOf k.decoder.messages +
          bytesOf k.pendingMsgs := rfl
      by_cases hempty : chunk = []
      · have := h.within
        simp only [hempty, List.length_nil, Nat.add_zero, List.isEmpty_nil, if_true]
          at hretained ⊢
        omega
      · rw [if_neg (by simpa using hempty)]
        omega

/-! ## What a step does to a call's messages -/

/-- A message is taken out of the decoder, or read, or nothing changes. -/
inductive Handled (k k' : Asked) : Prop where
  | same : k'.decoder = k.decoder → k'.pendingMsgs = k.pendingMsgs → Handled k k'
  | took : k.decoder.hasMessage = true → k'.decoder = k.decoder.takeMessage.2 →
      k'.pendingMsgs = k.pendingMsgs ∨
        k'.pendingMsgs = k.pendingMsgs ++ [k.decoder.takeMessage.1] → Handled k k'
  | read {msg : Bytes} : k'.decoder = k.decoder → k.pendingMsgs = msg :: k'.pendingMsgs →
      Handled k k'

/-- Every step but a chunk. -/
theorem handled_step (hs : Step limit t v w) (hdata : ∀ chunk e, t ≠ .event (.data chunk e))
    (hviol : ∀ chunk, t ≠ .violation chunk) {k' : Asked} (hk' : w.call = some k') :
    k'.decoder = .new limit ∧ k'.pendingMsgs = [] ∨
      ∃ k, v.call = some k ∧ k'.form = k.form ∧ Handled k k' := by
  cases hs with
  | fed => exact absurd rfl (hdata _ _)
  | rejected => exact absurd rfl (hviol _)
  | created | createdStream =>
      cases hk'
      exact .inl ⟨rfl, rfl⟩
  | quiet | badHeaders | readClosed | readFirst | readConcurrent =>
      exact .inr ⟨k', hk', rfl, .same rfl rfl⟩
  | first hc _ _ hm | handed hc _ hm | dropped hc _ hm | overrun hc _ hm | overrunLate hc _ hm
  | calledUnary hc _ _ hm =>
      cases hk'
      exact .inr ⟨_, hc, rfl, .took hm rfl (.inl rfl)⟩
  | stored hc _ _ hm =>
      cases hk'
      exact .inr ⟨_, hc, rfl, .took hm rfl (.inr rfl)⟩
  | readPending hc _ _ _ hp =>
      cases hk'
      exact .inr ⟨_, hc, rfl, .read rfl hp⟩
  | ended hc | eosArmed hc | eosUnarmed hc | readEos hc | readArm hc | finished hc
  | respondedUnary hc | deadline hc | cancelArmed _ hc | cancelled _ hc =>
      cases hk'
      exact .inr ⟨_, hc, rfl, .same rfl rfl⟩
  | erase => cases hk'

theorem handled_again (ha : Again v w) {k' : Asked} (hk' : w.call = some k') :
    ∃ k, v.call = some k ∧ k'.form = k.form ∧ Handled k k' := by
  cases ha with
  | same => exact ⟨k', hk', rfl, .same rfl rfl⟩
  | refused hc =>
      cases hk'
      exact ⟨_, hc, rfl, .same rfl rfl⟩

theorem Frugal.handled {last : Bytes} {k k' : Asked} (h : Frugal limit last k)
    (hk : Handled k k') : Frugal limit last k' := by
  cases hk with
  | same hd hp => exact h.keep hd hp
  | took hm hd hp => exact h.take hm hd hp
  | read hd hp => exact h.read hd hp rfl

/-- An empty decoder stays empty, and one that had rejected something still has. -/
theorem Handled.decoder {k k' : Asked} (h : Handled k k') :
    k'.decoder.drained.1 = k.decoder.drained.1 ∧
      (k.decoder.messages = [] → k'.decoder.messages = []) := by
  cases h with
  | same hd | read hd => rw [hd]; exact ⟨rfl, id⟩
  | took hm hd =>
      rw [hd]
      refine ⟨drained_takeMessage _ hm, fun hnil => ?_⟩
      simp [takeMessage, hnil]

/-- The messages not read yet. -/
def unread (v : Reader) : List Bytes := (v.call.map fun k => k.pendingMsgs).getD []

end Reader

/-! ## At most 64 unread messages -/

section Unread

open Reader

variable {s : State} {k : Call}

theorem unread_call (hc : s.call = some k) : (reader s).unread = k.pendingMsgs := by
  simp [unread, reader, hc, Call.asked]

theorem unread_finishStream (st : Status) :
    (reader (finishStream s st)).unread = (reader s).unread := by
  rcases s.call.eq_none_or_eq_some with hc | ⟨k, hc⟩
  · simp [finishStream, hc]
  · rw [reader_finishStream hc]
    split
    · rfl
    · rw [unread_call hc]
      rfl

theorem unread_trailersOnly (st : Status) :
    (reader (trailersOnly s st)).unread = (reader s).unread := by
  rcases s.call.eq_none_or_eq_some with hc | ⟨k, hc⟩
  · simp only [trailersOnly, hc]
    rfl
  · obtain ⟨responded, hr⟩ := reader_trailersOnly st hc
    rw [hr, unread_call hc]
    rfl

theorem unread_dispatchStream (first : Option Bytes) :
    (reader (dispatchStream s first)).unread = (reader s).unread := by
  unfold dispatchStream
  split
  · next k hc =>
      split
      · rfl
      · rw [unread_call hc]
        rfl
  · rfl

theorem unread_cancelStreamIo : (reader (cancelStreamIo s)).unread = (reader s).unread := by
  unfold cancelStreamIo
  split
  · next k hc =>
      rw [unread_call hc]
      split <;> rfl
  · rfl

/-- The one place that adds a message looks at the number first. -/
theorem unread_deliverRead {st : Status} {eos : Bool} {msg : Bytes}
    (h : (reader s).unread.length ≤ 64) :
    (reader (deliverRead s st eos msg)).unread.length ≤ 64 := by
  unfold deliverRead
  split
  · next k hc =>
      rw [unread_call hc] at h
      split
      · rwa [unread_call hc]
      · split
        · split <;> exact h
        · split
          · exact h
          · split
            · rw [unread_finishStream, unread_call hc]
              exact h
            · next hlt =>
                have hone : (k.pendingMsgs ++ [msg]).length ≤ 64 := by
                  simp only [List.length_append, List.length_singleton]
                  omega
                exact hone
  · exact h

theorem unread_finishRequest (h : (reader s).unread.length ≤ 64) :
    (reader (finishRequest s)).unread.length ≤ 64 := by
  unfold finishRequest
  split
  · exact h
  · next k hc =>
      have hk : k.pendingMsgs.length ≤ 64 := by rwa [unread_call hc] at h
      split
      · exact h
      · dsimp only
        split
        · rw [unread_trailersOnly]
          exact hk
        · split
          · split
            · rw [unread_trailersOnly]
              exact hk
            · split
              · rw [unread_trailersOnly]
                exact hk
              · exact hk
          · split
            · split
              · rw [unread_trailersOnly]
                exact hk
              · rw [unread_dispatchStream]
                exact hk
            · exact unread_deliverRead hk
          · split
            · rw [unread_trailersOnly]
              exact hk
            · exact unread_deliverRead hk

theorem unread_onDataRest (e : Bool) (h : (reader s).unread.length ≤ 64) :
    (reader (onDataRest s e).1).unread.length ≤ 64 := by
  unfold onDataRest
  split
  · exact h
  · next k hc =>
      have hk : k.pendingMsgs.length ≤ 64 := by rwa [unread_call hc] at h
      split
      · dsimp only
        split
        · split
          · rw [unread_finishStream]
            exact hk
          · rw [unread_dispatchStream]
            exact hk
        · exact unread_deliverRead hk
      · split
        · exact unread_finishRequest h
        · exact h

theorem unread_exec (f : Frame) (h : (reader s).unread.length ≤ 64) :
    (reader (exec f s).1).unread.length ≤ 64 := by
  cases f with
  | onHeadersRest e =>
      simp only [exec]
      split
      · exact unread_finishRequest h
      · exact h
  | onDataRest e => exact unread_onDataRest e h
  | respondData | respondTrailers | pumpOutData => exact h
  | onDeadlineRest =>
      simp only [exec, onDeadlineRest]
      split
      · next k hc =>
          rw [unread_call hc] at h
          split
          · rwa [unread_call hc]
          · split <;> exact h
      · exact h
  | consumedRest =>
      simp only [exec]
      rw [reader_maybeSendDeferredFinish]
      exact h
  | cancelOut =>
      simp only [exec]
      rw [reader_cancelOut]
      exact h
  | fireCancel =>
      simp only [exec]
      rw [reader_fireCancel]
      exact h
  | closeErase =>
      simp only [exec, closeErase]
      split
      · exact Nat.zero_le _
      · exact h

theorem unread_readMessage (first : Option Bytes) (cb : CbId)
    (h : (reader s).unread.length ≤ 64) :
    (reader (readMessage s first cb)).unread.length ≤ 64 := by
  unfold readMessage
  split
  · exact h
  · next k hc =>
      have hk : k.pendingMsgs.length ≤ 64 := by rwa [unread_call hc] at h
      split
      · exact h
      · split
        · exact h
        · split
          · next msg msgs hp =>
              rw [hp] at hk
              exact Nat.le_of_succ_le hk
          · split
            · exact hk
            · split
              · exact h
              · exact hk

theorem unread_applyOp {o : Op} {r : State × List Frame} (h : (reader s).unread.length ≤ 64)
    (hr : applyOp s o = some r) : (reader r.1).unread.length ≤ 64 := by
  cases o with
  | respond st payload =>
      simp only [applyOp] at hr
      split at hr
      · cases hr
        unfold respond
        split
        · next k hc =>
            have hk : k.pendingMsgs.length ≤ 64 := by rwa [unread_call hc] at h
            split
            · exact h
            · dsimp only
              split <;> exact hk
        · exact h
      · cases hr
        rw [finish, unread_finishStream]
        exact h
      · cases hr
  | readMessage cb =>
      simp only [applyOp] at hr
      split at hr
      · cases hr
        exact unread_readMessage _ cb h
      · cases hr
  | writeMessage msg cb =>
      simp only [applyOp] at hr
      split at hr
      · cases hr
        rw [reader_writeMessage]
        exact h
      · cases hr
  | writeDone =>
      simp only [applyOp] at hr
      split at hr
      · cases hr
        rw [reader_writeDone]
        exact h
      · cases hr
  | finish st =>
      simp only [applyOp] at hr
      split at hr
      · cases hr
        rw [finish, unread_finishStream]
        exact h
      · cases hr
  | onCancel cb =>
      simp only [applyOp] at hr
      split at hr
      · cases hr
        rw [reader_onCancel]
        exact h
      · cases hr

theorem unread_onHeadersComplete (cfg : Config) (headers : HeaderMap) (e : Bool)
    (h : (reader s).unread.length ≤ 64) :
    (reader (onHeadersComplete cfg s headers e).1).unread.length ≤ 64 := by
  have hrouted : ∀ path, (routedCall cfg s path).pendingMsgs = (reader s).unread := by
    intro path
    unfold routedCall
    dsimp only
    rcases s.call.eq_none_or_eq_some with hc | ⟨k, hc⟩ <;>
      split <;> simp [unread, reader, hc, Call.asked]
  have harm : ∀ k : Call, (reader (armDeadline s k headers)).unread = k.pendingMsgs := by
    intro k
    unfold armDeadline
    dsimp only
    split <;> rfl
  unfold onHeadersComplete
  split
  · split
    · rw [unread_trailersOnly]
      exact h
    · dsimp only
      split
      · rw [unread_dispatchStream, harm, hrouted]
        exact h
      · rw [harm, hrouted]
        exact h
  · rw [unread_trailersOnly]
    exact h

/-- What a chunk does to the call: it is fed, and the loop runs unless it is rejected. -/
theorem onData_asked (chunk : Bytes) (e : Bool) (hc : s.call = some k)
    (hreq : k.requestDone = false) :
    ∃ k', (onData s chunk e).1.call = some k' ∧ k'.form = k.form ∧
      k'.pendingMsgs = k.pendingMsgs ∧
      (if chunk.isEmpty then k'.decoder = k.decoder ∧ (onData s chunk e).2 = [.onDataRest e]
        else k'.decoder = (k.decoder.consume chunk).2 ∧
          ((k.decoder.consume chunk).1.ok = true → (onData s chunk e).2 = [.onDataRest e])) := by
  simp only [onData, hc, hreq, Bool.false_eq_true, if_false]
  split
  · exact ⟨_, rfl, rfl, rfl, rfl, rfl⟩
  · split
    · next hbad =>
        have hbad : (k.decoder.consume chunk).1.ok = false := by simpa using hbad
        simp only [respondError, State.setCall]
        split
        · exact ⟨_, rfl, rfl, rfl, rfl, by simp [hbad]⟩
        · exact ⟨_, rfl, rfl, rfl, rfl, by simp [hbad]⟩
    · exact ⟨_, rfl, rfl, rfl, rfl, fun _ => rfl⟩

theorem onData_done {chunk : Bytes} (e : Bool)
    (h : ∀ k, s.call = some k → k.requestDone = true) : onData s chunk e = (s, []) := by
  unfold onData
  split
  · rfl
  · next k hc => rw [if_pos (h k hc)]

theorem unread_onData (chunk : Bytes) (e : Bool) (h : (reader s).unread.length ≤ 64) :
    (reader (onData s chunk e).1).unread.length ≤ 64 := by
  by_cases hdone : ∀ k, s.call = some k → k.requestDone = true
  · rw [onData_done e hdone]
    exact h
  · push Not at hdone
    obtain ⟨k, hc, hreq⟩ := hdone
    obtain ⟨k', hk', -, hp, -⟩ := onData_asked chunk e hc (by simpa using hreq)
    rw [unread_call hk', hp, ← unread_call hc]
    exact h

theorem unread_fire {cfg : Config} {e : Event} {r : State × List Frame}
    (h : (reader s).unread.length ≤ 64) (hr : fire cfg e s = some r) :
    (reader r.1).unread.length ≤ 64 := by
  cases e with
  | headers fields b =>
      simp only [fire] at hr
      split at hr
      · cases hr
      · cases hr
        exact unread_onHeadersComplete cfg fields b h
  | data chunk b =>
      simp only [fire] at hr
      split at hr
      · cases hr
        exact unread_onData chunk b h
      · cases hr
  | deadline timer =>
      simp only [fire] at hr
      split at hr
      · split at hr
        · cases hr
          rw [reader_fireCancel]
          exact h
        · cases hr
          exact h
      · cases hr
  | pump =>
      simp only [fire] at hr
      split at hr
      · cases hr
        rw [reader_pumpOut]
        exact h
      · cases hr
  | connectionLost =>
      simp only [fire] at hr
      split at hr
      · cases hr
      · cases hr
        rw [unread_cancelStreamIo]
        exact h
  | streamClose =>
      simp only [fire] at hr
      split at hr
      · split at hr
        · cases hr
          rw [unread_cancelStreamIo]
          exact h
        · cases hr
          exact h
      · cases hr
  | credit n =>
      simp only [fire] at hr
      split at hr
      · cases hr
      · cases hr
        exact h
  | consumed =>
      simp only [fire] at hr
      split at hr
      · cases hr
      · cases hr
        rw [reader_onConsumed]
        exact h
  | op o => exact unread_applyOp h hr

/-- **A call keeps at most 64 messages for its reader.** -/
theorem unread_step {cfg : Config} {c d : Conf} {l : Label}
    (h : (reader c.st).unread.length ≤ 64) (hs : (machine cfg).step c l = some d) :
    (reader d.st).unread.length ≤ 64 := by
  cases l with
  | resume =>
      obtain ⟨f, fs, -, rfl⟩ := Resume.System.step_resume hs
      exact unread_exec f h
  | event e =>
      obtain ⟨-, s, gs, hfire, rfl⟩ := Resume.System.step_event hs
      exact unread_fire h hfire

end Unread

/-! ## Runs -/

/-- What every state of a run keeps: a decoder with messages that a stream's reader waits for
    is in the middle of the loop of `OnData`. -/
structure Thrifty (cfg : Config) (c : Conf) (last : Bytes) : Prop where
  dispatched : Writer.Dispatched (.of c)
  unread : (reader c.st).unread.length ≤ 64
  looped : ∀ k, c.st.call = some k → k.asked.reads = true → k.decoder.drained.1.ok = true →
    k.decoder.messages = [] ∨ ∃ e, .onDataRest e ∈ c.frames
  frugal : ∀ k, c.st.call = some k → Reader.Frugal cfg.maxReceiveSize last k.asked

section Steps

variable {cfg : Config} {c d : Conf} {l : Label} {last : Bytes}

theorem thrifty_fresh (cfg : Config) : Thrifty cfg fresh [] := by
  refine ⟨sound_fresh.dispatched, Nat.zero_le _, ?_, ?_⟩
  · intro k hk
    cases hk
  · intro k hk
    cases hk

/-- The loop goes on as long as there is a message. -/
theorem onDataRest_again {s : State} {k : Call} {e : Bool} (hc : s.call = some k)
    (hr : k.asked.reads = true) (hm : k.decoder.hasMessage = true) :
    (onDataRest s e).2 = [.onDataRest e] := by
  have hform : k.form = .clientStreaming ∨ k.form = .bidi := by
    simpa [Asked.reads, Call.asked] using hr
  have hne : k.form ≠ .unary ∧ k.form ≠ .serverStreaming := by
    rcases hform with h | h <;> simp [h]
  simp only [onDataRest, hc, hne.1, ne_eq, not_false_eq_true, hm, and_self, if_true, hne.2,
    if_false]

/-- Every step but a chunk. -/
theorem thrifty_other (h : Thrifty cfg c last) (hl : trailersPlain c l)
    (hdata : ∀ chunk e, l ≠ .event (.data chunk e)) (hs : (machine cfg).step c l = some d) :
    Thrifty cfg d last := by
  have hviews := views_step_or_again h.dispatched hl hs
  have hdisp : Writer.Dispatched (.of d) := by
    rcases hviews with ⟨t, -, hw, -⟩ | ⟨-, hw, -⟩
    · exact Writer.dispatched_step h.dispatched hw
    · exact Writer.dispatched_again h.dispatched hw
  have hcall : ∀ k', d.st.call = some k' →
      k'.decoder = .new cfg.maxReceiveSize ∧ k'.pendingMsgs = [] ∨
        ∃ k, c.st.call = some k ∧ k'.form = k.form ∧ Reader.Handled k.asked k'.asked := by
    intro k' hk'
    have hfound : ∀ k, (reader c.st).call = some k → k'.form = k.form →
        Reader.Handled k k'.asked →
        ∃ k, c.st.call = some k ∧ k'.form = k.form ∧ Reader.Handled k.asked k'.asked := by
      intro k hk hf hh
      obtain ⟨k0, hk0, rfl⟩ := Option.map_eq_some_iff.mp hk
      exact ⟨k0, hk0, hf, hh⟩
    rcases hviews with ⟨t, ht, -, hr⟩ | ⟨-, -, hr⟩
    · have htrig := triggers_of_trigger ht
      have hd : ∀ chunk e, t ≠ .event (.data chunk e) := by
        rintro chunk e rfl
        cases htrig
        exact hdata _ _ rfl
      have hv : ∀ chunk, t ≠ .violation chunk := by
        rintro chunk rfl
        cases htrig
        exact hdata _ _ rfl
      rcases Reader.handled_step hr hd hv (Reader.reader_call hk') with hnew | ⟨k, hk, hf, hh⟩
      · exact .inl hnew
      · exact .inr (hfound k hk hf hh)
    · obtain ⟨k, hk, hf, hh⟩ := Reader.handled_again hr (Reader.reader_call hk')
      exact .inr (hfound k hk hf hh)
  refine ⟨hdisp, unread_step h.unread hs, ?_, ?_⟩
  · intro k' hk' hreads hok
    rcases hcall k' hk' with ⟨hnew, -⟩ | ⟨k, hk, hf, hh⟩
    · exact .inl (by rw [hnew]; rfl)
    · obtain ⟨hsame, hempty⟩ := hh.decoder
      have hreads' : k.asked.reads = true := by
        simpa [Asked.reads, Call.asked, hf] using hreads
      have hok' : k.decoder.drained.1.ok = true := by
        rw [show k.decoder.drained.1 = k'.decoder.drained.1 from hsame.symm]
        exact hok
      rcases h.looped k hk hreads' hok' with hnil | ⟨e, hmem⟩
      · exact .inl (hempty hnil)
      · cases l with
        | event ev =>
            obtain ⟨-, s, gs, -, rfl⟩ := Resume.System.step_event hs
            exact .inr ⟨e, List.mem_append_right _ hmem⟩
        | resume =>
            obtain ⟨f, fs, hfs, rfl⟩ := Resume.System.step_resume hs
            rw [hfs] at hmem
            rcases List.mem_cons.mp hmem with rfl | hmem
            · by_cases hnil : k.decoder.messages = []
              · exact .inl (hempty hnil)
              · -- one more trip round the loop
                have hagain : ((machine cfg).exec (.onDataRest e) c.st).2 = [.onDataRest e] :=
                  onDataRest_again hk hreads' (by simp [hasMessage, hnil])
                exact .inr ⟨e, by rw [hagain]; exact List.mem_cons_self⟩
            · exact .inr ⟨e, List.mem_append_right _ hmem⟩
  · intro k' hk'
    rcases hcall k' hk' with ⟨hnew, hp⟩ | ⟨k, hk, -, hh⟩
    · exact Reader.frugal_new _ _ _ hnew hp
    · exact (h.frugal k hk).handled hh

/-- A chunk. -/
theorem thrifty_data {chunk : Bytes} {e : Bool} (h : Thrifty cfg c last)
    (hl : admitsChunk c.st chunk = true)
    (hs : (machine cfg).step c (.event (.data chunk e)) = some d) :
    Thrifty cfg d (if chunk.isEmpty then last else chunk) := by
  have hdisp : Writer.Dispatched (.of d) := by
    obtain ⟨t, -, hw⟩ := writer_step h.dispatched (l := .event (.data chunk e)) trivial hs
    exact Writer.dispatched_step h.dispatched hw
  have hunread := unread_step h.unread hs
  obtain ⟨hen, s, gs, hfire, rfl⟩ := Resume.System.step_event hs
  have hframes : c.frames = [] := (Resume.System.enabled_base rfl hen).1
  have hfire : fire cfg (.data chunk e) c.st = some (s, gs) := hfire
  have hdata : onData c.st chunk e = (s, gs) := by
    simp only [fire] at hfire
    split at hfire
    · exact Option.some.inj hfire
    · cases hfire
  by_cases hdone : ∀ k, c.st.call = some k → k.requestDone = true
  · -- the chunk is not for a call that is still reading
    rw [onData_done e hdone] at hdata
    cases hdata
    refine ⟨hdisp, hunread, h.looped, fun k hk => ?_⟩
    by_cases hemp : chunk.isEmpty = true
    · rw [if_pos hemp]
      exact h.frugal k hk
    · have hk : c.st.call = some k := hk
      simp [admitsChunk, hemp, hk, hdone k hk] at hl
  · push Not at hdone
    obtain ⟨k, hk, hreq⟩ := hdone
    have hreq : k.requestDone = false := by simpa using hreq
    obtain ⟨k', hk', hform, hpend, hfed⟩ := onData_asked chunk e hk hreq
    rw [hdata] at hk' hfed
    refine ⟨hdisp, hunread, ?_, ?_⟩
    · intro k2 hk2 hreads hok
      cases hk'.symm.trans hk2
      by_cases hemp : chunk.isEmpty = true
      · rw [if_pos hemp] at hfed
        have hloop : gs = [.onDataRest e] := hfed.2
        exact .inr ⟨e, by rw [hloop]; exact List.mem_cons_self⟩
      · rw [if_neg hemp] at hfed
        have hgood : (k.decoder.consume chunk).1.ok = true := by
          rw [hfed.1, consume, drained_drained] at hok
          exact hok
        have hloop : gs = [.onDataRest e] := hfed.2 hgood
        exact .inr ⟨e, by rw [hloop]; exact List.mem_cons_self⟩
    · intro k2 hk2
      cases hk'.symm.trans hk2
      by_cases hemp : chunk.isEmpty = true
      · rw [if_pos hemp] at hfed ⊢
        exact (h.frugal k hk).keep hfed.1 hpend
      · rw [if_neg hemp] at hfed
        simp only [admitsChunk, hemp, Bool.false_or, hk, Option.all_some, hreq, Bool.not_false,
          Bool.true_and, Bool.and_eq_true, Bool.or_eq_true, decide_eq_true_eq] at hl
        obtain ⟨hok, hwait⟩ := hl
        have hwaiting : k.asked.waiting ≤ 64 := by
          rcases hwait with hreads | hwait
          · have hnil : k.decoder.messages = [] := by
              rcases h.looped k hk hreads hok with hnil | ⟨e', hmem⟩
              · exact hnil
              · rw [hframes] at hmem
                cases hmem
            have hu := h.unread
            rw [unread_call hk] at hu
            simpa [Asked.waiting, Call.asked, hnil] using hu
          · exact hwait
        exact (h.frugal k hk).fed (.inr ⟨hok, hwaiting⟩) hfed.1 hpend

theorem thrifty_step (h : Thrifty cfg c last) (hl : admits c l)
    (hs : (machine cfg).step c l = some d) : Thrifty cfg d (lastChunk last l) := by
  by_cases hdata : ∃ chunk e, l = .event (.data chunk e)
  · obtain ⟨chunk, e, rfl⟩ := hdata
    exact thrifty_data h hl.2 hs
  · push Not at hdata
    have hlast : lastChunk last l = last := by
      unfold lastChunk
      split
      · next chunk e => exact absurd rfl (hdata chunk e)
      · rfl
    rw [hlast]
    exact thrifty_other h hl.1 hdata hs

end Steps

/-- **The bytes kept for a call are bounded** in every run in which each chunk finds a call
    whose decoder has rejected nothing and, unless the request is a stream, at most 64 messages
    waiting. -/
theorem receive_memory_bounded (cfg : Config) (d : Conf) (last : Bytes) (k : Call)
    (h : (machine cfg).Hist lastChunk admits fresh [] d last) (hk : d.st.call = some k) :
    k.asked.retained ≤ 65 * max cfg.maxReceiveSize kPrefixLen + last.length := by
  have hinv : Thrifty cfg d last := by
    refine h.inv (I := Thrifty cfg) (thrifty_fresh cfg) ?_
    intro _ _ _ _ hi hl hs
    exact thrifty_step hi hl hs
  exact (hinv.frugal k hk).within

/-- The demo services, with a limit of five bytes. -/
def small : Config := { demo with maxReceiveSize := 5 }

/-- A bidi call reads one message and has half of another. -/
theorem receive_memory_bounded_bidi :
    ∃ d k, (machine small).Hist lastChunk admits fresh [] d [0, 0, 0, 0, 3, 7] ∧
      d.st.call = some k ∧ k.asked.retained = 3 ∧
      k.asked.retained ≤ 65 * max small.maxReceiveSize kPrefixLen + 6 := by
  obtain ⟨d, hd, k, hk, hret⟩ : ∃ d, (machine small).run admits fresh (openBidi ++
      [.event (.data (encodeFrame [1, 2]) false), .resume, .resume,
       .event (.data [0, 0, 0, 0, 3, 7] false), .resume]) = some d ∧
      ∃ k, d.st.call = some k ∧ k.asked.retained = 3 := ⟨_, rfl, _, rfl, rfl⟩
  have hh := Resume.System.hist_of_run lastChunk [] _ hd
  exact ⟨d, k, hh, hk, hret, receive_memory_bounded small d _ k hh hk⟩

/-- Ten messages of five bytes. -/
def tenMessages : Bytes := (List.replicate 10 (encodeFrame [1, 2, 3, 4, 5])).flatten

set_option maxRecDepth 4000 in
/-- A bad flag, then more data: all of it is kept. And a unary call, with ten messages after
    ten messages. -/
theorem errors_keep_growing :
    (∃ d k, (machine small).Hist lastChunk trailersPlain fresh [] d (List.replicate 30 0) ∧
      d.st.call = some k ∧ k.asked.retained = 365 ∧
      65 * max small.maxReceiveSize kPrefixLen + 30 < k.asked.retained) ∧
    ∃ d k, (machine small).Hist lastChunk trailersPlain fresh [] d tenMessages ∧
      d.st.call = some k ∧ k.asked.retained = 450 ∧
      65 * max small.maxReceiveSize kPrefixLen + tenMessages.length < k.asked.retained := by
  constructor
  · obtain ⟨d, hd, k, hk, hret⟩ : ∃ d, (machine small).run trailersPlain fresh (openBidi ++
        .event (.data [1, 0, 0, 0, 0] false) ::
        List.replicate 12 (.event (.data (List.replicate 30 0) false))) = some d ∧
        ∃ k, d.st.call = some k ∧ k.asked.retained = 365 := ⟨_, rfl, _, rfl, rfl⟩
    exact ⟨d, k, Resume.System.hist_of_run lastChunk [] _ hd, hk, hret, by rw [hret]; decide⟩
  · obtain ⟨d, hd, k, hk, hret⟩ : ∃ d, (machine small).run trailersPlain fresh
        ([.event (.headers (demoHeaders "/t/U") false), .resume] ++
        (List.replicate 9 [.event (.data tenMessages false), .resume]).flatten) = some d ∧
        ∃ k, d.st.call = some k ∧ k.asked.retained = 450 := ⟨_, rfl, _, rfl, rfl⟩
    exact ⟨d, k, Resume.System.hist_of_run lastChunk [] _ hd, hk, hret, by rw [hret]; decide⟩

end Urpc.Server
