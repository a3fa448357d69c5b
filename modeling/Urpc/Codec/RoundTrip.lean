/-
  The frame codec round trip: what `EncodeFrame` writes, `FrameDecoder` reads back, however
  the bytes are cut and whenever messages are taken out.

  `Decoded max w taken d` says what a decoder is: it has been fed `w`, `taken` has been taken
  out, and nothing else about its past matters. `Consume` and `TakeMessage` keep it
  (`Decoded.consume`, `Decoded.takeMessage`), so a decoder's state can be computed from the
  bytes alone (`(new max).consume w`).

  * `consume_encodeFrames`: a fresh decoder on whole frames.
  * `consume_of_isPrefix`: on a prefix of whole frames, OK and a prefix of the messages.
  * `decoder_roundTrip`: any schedule of `Consume` and `TakeMessage`.
-/
import Urpc.Codec.Frame

namespace Urpc

open Cxx

namespace FrameDecoder

/-- Every message fits the 32-bit length field and the decoder's limit. -/
def Fits (max : Nat) (ms : List Bytes) : Prop := ∀ m ∈ ms, m.length < 2 ^ 32 ∧ m.length ≤ max

/-! ## One frame -/

/-- One trip over a whole frame: the message is queued and the rest stays buffered. -/
theorem pass_encodeFrame (d : FrameDecoder) (m rest : Bytes) (hm : m.length < 2 ^ 32)
    (hmax : m.length ≤ d.maxMessageSize) (hh : d.haveHeader = false)
    (hb : d.buffer = encodeFrame m ++ rest) :
    d.pass = (none, { d with flag := 0, needed := 0, messages := d.messages ++ [m],
                             buffer := rest }) := by
  have hlen : (UInt32.ofNat m.length).toNat = m.length := by
    rw [UInt32.toNat_ofNat']
    exact Nat.mod_eq_of_lt hm
  have hle : ¬ d.maxMessageSize < m.length := by omega
  simp only [pass, readPrefix, hh, hb, encodeFrame, appendU32BE, List.cons_append,
    List.nil_append, u32OfBytes_appendU32BE, hlen]
  simp [hle, takePayload]

theorem drained_encodeFrames (ms : List Bytes) (d : FrameDecoder) (rest : Bytes)
    (hfit : Fits d.maxMessageSize ms) (hh : d.haveHeader = false) (hn : d.needed = 0)
    (hf : d.flag = 0) (hb : d.buffer = encodeFrames ms ++ rest) :
    d.drained = ({ d with messages := d.messages ++ ms, buffer := rest } : FrameDecoder).drained := by
  induction ms generalizing d with
  | nil =>
      have : d.buffer = rest := by simpa [encodeFrames] using hb
      rw [← this]
      simp
  | cons m ms ih =>
      obtain ⟨h32, hmax⟩ := hfit m List.mem_cons_self
      have hb' : d.buffer = encodeFrame m ++ (encodeFrames ms ++ rest) := by
        rw [hb]; simp [encodeFrames]
      rw [drained_eq, pass_encodeFrame d m _ h32 hmax hh hb']
      have htail := ih { d with flag := 0, needed := 0, messages := d.messages ++ [m],
                                buffer := encodeFrames ms ++ rest }
        (fun x hx => hfit x (List.mem_cons_of_mem _ hx)) hh rfl rfl rfl
      simp only [List.append_assoc, List.singleton_append] at htail
      rw [hn, hf]
      exact htail

/-- A fresh decoder on whole frames: every message, nothing left over. -/
theorem consume_encodeFrames (max : Nat) (ms : List Bytes) (h : Fits max ms) :
    (new max).consume (encodeFrames ms) = (.okay, { new max with messages := ms }) := by
  unfold consume
  rw [drained_encodeFrames ms ((new max).feed (encodeFrames ms)) [] h rfl rfl rfl
    (by simp [feed, new])]
  rw [drained_eq]
  rfl

/-! ## Prefixes -/

theorem pass_messages {d d' : FrameDecoder} {o : Option Status} (h : d.pass = (o, d')) :
    d.messages <+: d'.messages := by
  cases o with
  | none =>
      obtain ⟨e, he, hp⟩ := pass_none h
      obtain ⟨-, rfl⟩ := takePayload_none hp
      obtain ⟨-, ⟨-, rfl⟩ | ⟨-, p1, p2, p3, p4, -, -, he'⟩⟩ := readPrefix_none he
      · exact List.prefix_append _ _
      · rw [he']; exact List.prefix_append _ _
  | some st =>
      rcases pass_some h with he | ⟨e, he, hp⟩
      · obtain ⟨-, he', -⟩ := readPrefix_some he
        exact congrArg FrameDecoder.messages he' ▸ List.prefix_rfl
      · obtain ⟨-, rfl, -⟩ := takePayload_some hp
        obtain ⟨-, ⟨-, rfl⟩ | ⟨-, p1, p2, p3, p4, -, -, he'⟩⟩ := readPrefix_none he
        · exact List.prefix_rfl
        · exact congrArg FrameDecoder.messages he' ▸ List.prefix_rfl

/-- `Consume` only adds messages. -/
theorem drained_messages (d : FrameDecoder) : d.messages <+: d.drained.2.messages := by
  induction d using drained_induct with
  | h d ih =>
      rw [drained_eq]
      cases hp : d.pass with
      | mk o d' =>
          have hpre := pass_messages hp
          cases o with
          | none => exact hpre.trans (ih d' hp)
          | some st => exact hpre

theorem consume_append_of_ok {max : Nat} {a b : Bytes} (h : ((new max).consume a).1.ok = true) :
    (new max).consume (a ++ b) = ((new max).consume a).2.consume b := by
  unfold consume at h ⊢
  rw [← feed_feed]
  exact drained_feed_of_ok _ _ h

/-- A rejected prefix stays rejected. -/
theorem consume_ok_of_append {max : Nat} {a b : Bytes}
    (h : ((new max).consume (a ++ b)).1.ok = true) : ((new max).consume a).1.ok = true := by
  by_contra hne
  have hne' : ((new max).feed a).drained.1.ok = false := by simpa [consume] using hne
  unfold consume at h
  rw [← feed_feed, drained_feed_of_err _ _ hne', hne'] at h
  cases h

/-- A prefix of whole frames is accepted and gives a prefix of the messages. -/
theorem consume_of_isPrefix {max : Nat} {w : Bytes} {ms : List Bytes} (hfit : Fits max ms)
    (hw : w <+: encodeFrames ms) :
    ((new max).consume w).1.ok = true ∧ ((new max).consume w).2.messages <+: ms := by
  obtain ⟨b, hb⟩ := hw
  have hall := consume_encodeFrames max ms hfit
  rw [← hb] at hall
  have hok : ((new max).consume w).1.ok = true := consume_ok_of_append (by rw [hall]; rfl)
  refine ⟨hok, ?_⟩
  rw [consume_append_of_ok hok] at hall
  have hpre := drained_messages (((new max).consume w).2.feed b)
  have hm : (((new max).consume w).2.consume b).2.messages = ms := by rw [hall]
  rw [← hm]
  exact hpre

/-! ## What a decoder is -/

/-- Put taken messages back and forget how many they were. -/
def untake (taken : List Bytes) (d : FrameDecoder) : FrameDecoder :=
  { d with messages := taken ++ d.messages, messageCount := 0 }

theorem pass_untake (taken : List Bytes) (d : FrameDecoder) :
    (d.untake taken).pass = (d.pass.1, d.pass.2.untake taken) := by
  have hpre : ∀ d : FrameDecoder, (d.untake taken).readPrefix =
      (d.readPrefix.1, d.readPrefix.2.untake taken) := by
    rintro ⟨mx, buffer, n, hh, fl, ms, c⟩
    simp only [readPrefix, untake]
    cases hh with
    | true => rfl
    | false =>
        rcases buffer with _ | ⟨p0, _ | ⟨p1, _ | ⟨p2, _ | ⟨p3, _ | ⟨p4, rest⟩⟩⟩⟩⟩ <;> try rfl
        by_cases h0 : p0 = 0 <;> by_cases hm : mx < (u32OfBytes p1 p2 p3 p4).toNat <;>
          simp [h0, hm]
  have hpay : ∀ d : FrameDecoder, (d.untake taken).takePayload =
      (d.takePayload.1, d.takePayload.2.untake taken) := by
    intro d
    by_cases hb : d.buffer.length < d.needed <;> simp [takePayload, untake, hb]
  simp only [pass, hpre]
  cases hr : d.readPrefix with
  | mk o e =>
      cases o with
      | none => exact hpay e
      | some st => rfl

theorem drained_untake (taken : List Bytes) (d : FrameDecoder) :
    (d.untake taken).drained = (d.drained.1, d.drained.2.untake taken) := by
  induction d using drained_induct with
  | h d ih =>
      rw [drained_eq (d.untake taken), drained_eq d, pass_untake]
      cases hp : d.pass with
      | mk o d' =>
          cases o with
          | none => exact ih d' hp
          | some st => rfl

theorem pass_messageCount (d : FrameDecoder) : d.pass.2.messageCount = d.messageCount := by
  have hpre : ∀ d : FrameDecoder, d.readPrefix.2.messageCount = d.messageCount := by
    intro d
    simp only [readPrefix]
    split
    · rfl
    · split
      · split
        · rfl
        · split <;> rfl
      · rfl
  have hpay : ∀ d : FrameDecoder, d.takePayload.2.messageCount = d.messageCount := by
    intro d
    simp only [takePayload]
    split <;> rfl
  have := hpre d
  simp only [pass]
  cases hr : d.readPrefix with
  | mk o e =>
      rw [hr] at this
      cases o with
      | none => exact (hpay e).trans this
      | some st => exact this

theorem drained_messageCount (d : FrameDecoder) : d.drained.2.messageCount = d.messageCount := by
  induction d using drained_induct with
  | h d ih =>
      have hc := pass_messageCount d
      rw [drained_eq]
      cases hp : d.pass with
      | mk o d' =>
          rw [hp] at hc
          cases o with
          | none => exact (ih d' hp).trans hc
          | some st => exact hc

/-- A decoder that has been fed `w` without a rejection, and from which `taken` was taken. -/
structure Decoded (max : Nat) (w : Bytes) (taken : List Bytes) (d : FrameDecoder) : Prop where
  ok : ((new max).consume w).1.ok = true
  state : d.untake taken = ((new max).consume w).2
  count : d.messageCount = taken.length

theorem decoded_new (max : Nat) : Decoded max [] [] (new max) := by
  refine ⟨?_, ?_, rfl⟩ <;>
    · rw [consume, feed_nil, drained_eq]
      rfl

namespace Decoded

variable {max : Nat} {w : Bytes} {taken : List Bytes} {d : FrameDecoder}

theorem messages_eq (h : Decoded max w taken d) :
    taken ++ d.messages = ((new max).consume w).2.messages := by
  have := congrArg FrameDecoder.messages h.state
  simpa [untake] using this

/-- `Consume` on such a decoder returns what a fresh one returns on all the bytes. -/
theorem consume_fst (h : Decoded max w taken d) (b : Bytes) :
    (d.consume b).1 = ((new max).consume (w ++ b)).1 := by
  rw [consume_append_of_ok h.ok, ← h.state]
  have : (d.untake taken).feed b = (d.feed b).untake taken := rfl
  simp only [FrameDecoder.consume, this, drained_untake]

theorem consume (h : Decoded max w taken d) {b : Bytes}
    (hok : ((new max).consume (w ++ b)).1.ok = true) :
    Decoded max (w ++ b) taken (d.consume b).2 := by
  refine ⟨hok, ?_, ?_⟩
  · rw [consume_append_of_ok h.ok, ← h.state]
    have : (d.untake taken).feed b = (d.feed b).untake taken := rfl
    simp only [FrameDecoder.consume, this, drained_untake]
  · rw [← h.count]
    exact drained_messageCount _

theorem takeMessage (h : Decoded max w taken d) (hm : d.hasMessage = true) :
    Decoded max w (taken ++ [d.takeMessage.1]) d.takeMessage.2 := by
  obtain ⟨m, ms, hms⟩ : ∃ m ms, d.messages = m :: ms := by
    cases hd : d.messages with
    | nil => simp [hasMessage, hd] at hm
    | cons m ms => exact ⟨m, ms, rfl⟩
  refine ⟨h.ok, ?_, ?_⟩
  · rw [← h.state]
    simp [untake, FrameDecoder.takeMessage, hms]
  · simp [FrameDecoder.takeMessage, h.count]

end Decoded

/-! ## Any schedule of `Consume` and `TakeMessage` -/

/-- A caller's operation. `take` is `if (HasMessage()) TakeMessage()`. -/
inductive Use where
  | consume (data : Bytes)
  | take

/-- The bytes a schedule feeds. -/
def fed : List Use → Bytes
  | [] => []
  | .consume data :: us => data ++ fed us
  | .take :: us => fed us

/-- What a schedule returns: the statuses, the messages taken and the decoder left. -/
def uses : FrameDecoder → List Use → List Status × List Bytes × FrameDecoder
  | d, [] => ([], [], d)
  | d, .consume data :: us =>
      let r := uses (d.consume data).2 us
      ((d.consume data).1 :: r.1, r.2.1, r.2.2)
  | d, .take :: us =>
      if d.hasMessage then
        let r := uses d.takeMessage.2 us
        (r.1, d.takeMessage.1 :: r.2.1, r.2.2)
      else uses d us

/-- Take until `HasMessage()` is false. -/
def takeAll (d : FrameDecoder) : List Bytes × FrameDecoder :=
  go d.messages.length d
where
  go : Nat → FrameDecoder → List Bytes × FrameDecoder
    | 0, d => ([], d)
    | n + 1, d =>
        if d.hasMessage then
          let r := go n d.takeMessage.2
          (d.takeMessage.1 :: r.1, r.2)
        else ([], d)

/-- A schedule keeps `Decoded`, when the bytes it feeds are accepted. -/
theorem Decoded.uses {max : Nat} (us : List Use) {w : Bytes} {taken : List Bytes}
    {d : FrameDecoder} (h : Decoded max w taken d)
    (hok : ((new max).consume (w ++ fed us)).1.ok = true) :
    (∀ st ∈ (d.uses us).1, st.ok = true) ∧
      Decoded max (w ++ fed us) (taken ++ (d.uses us).2.1) (d.uses us).2.2 := by
  induction us generalizing w taken d with
  | nil => simpa [FrameDecoder.uses, fed] using h
  | cons u us ih =>
      cases u with
      | consume data =>
          simp only [fed, ← List.append_assoc] at hok ⊢
          have hpre := consume_ok_of_append hok
          obtain ⟨hst, hd⟩ := ih (h.consume hpre) hok
          refine ⟨?_, hd⟩
          intro st hmem
          rcases List.mem_cons.mp hmem with rfl | hmem
          · rw [h.consume_fst]; exact hpre
          · exact hst st hmem
      | take =>
          by_cases hm : d.hasMessage = true
          · simp only [FrameDecoder.uses, if_pos hm, fed]
            obtain ⟨hst, hd⟩ := ih (h.takeMessage hm) hok
            refine ⟨hst, ?_⟩
            simpa [List.append_assoc] using hd
          · simp only [FrameDecoder.uses, if_neg hm, fed]
            exact ih h hok

theorem Decoded.takeAll {max : Nat} {w : Bytes} {taken : List Bytes} {d : FrameDecoder}
    (h : Decoded max w taken d) :
    d.takeAll.1 = d.messages ∧ d.takeAll.2.messages = [] ∧
      Decoded max w (taken ++ d.takeAll.1) d.takeAll.2 := by
  have key : ∀ n d taken, Decoded max w taken d → d.messages.length = n →
      (takeAll.go n d).1 = d.messages ∧ (takeAll.go n d).2.messages = [] ∧
        Decoded max w (taken ++ (takeAll.go n d).1) (takeAll.go n d).2 := by
    intro n
    induction n with
    | zero =>
        intro d taken hd hn
        have hnil : d.messages = [] := List.eq_nil_of_length_eq_zero hn
        simpa [takeAll.go, hnil] using hd
    | succ n ih =>
        intro d taken hd hn
        obtain ⟨m, ms, hms⟩ : ∃ m ms, d.messages = m :: ms :=
          List.exists_cons_of_length_pos (by omega)
        have hm : d.hasMessage = true := by simp [hasMessage, hms]
        have hlen : d.takeMessage.2.messages.length = n := by
          simp only [FrameDecoder.takeMessage, hms, List.tail_cons]
          rw [hms] at hn
          simpa using hn
        obtain ⟨h1, h2, h3⟩ := ih _ _ (hd.takeMessage hm) hlen
        simp only [takeAll.go, if_pos hm]
        refine ⟨?_, h2, by simpa [List.append_assoc] using h3⟩
        rw [h1]
        simp [FrameDecoder.takeMessage, hms]
  exact key _ d taken h rfl

/-- **Frame codec round trip.** Cut the frames of `ms` into chunks any way, empty chunks
    included, feed them to a fresh decoder and take messages at any moments: every `Consume`
    returns OK, and taking until `HasMessage` is false gives exactly `ms`, counts `ms.length`
    messages and leaves no byte buffered. -/
theorem decoder_roundTrip (max : Nat) (ms : List Bytes)
    (hfit : ∀ m ∈ ms, m.length < 2 ^ 32 ∧ m.length ≤ max) (us : List Use)
    (hfed : fed us = ms.flatMap encodeFrame) :
    (∀ st ∈ ((new max).uses us).1, st.ok = true) ∧
      ((new max).uses us).2.1 ++ ((new max).uses us).2.2.takeAll.1 = ms ∧
      ((new max).uses us).2.2.takeAll.2.hasMessage = false ∧
      ((new max).uses us).2.2.takeAll.2.messageCount = ms.length ∧
      ((new max).uses us).2.2.takeAll.2.buffer = [] ∧
      ((new max).uses us).2.2.takeAll.2.haveHeader = false := by
  have hall := consume_encodeFrames max ms hfit
  have hok : ((new max).consume ([] ++ fed us)).1.ok = true := by
    rw [hfed, List.nil_append]
    exact congrArg (fun r => Status.ok r.1) hall
  obtain ⟨hst, hd⟩ := Decoded.uses us (decoded_new max) hok
  rw [List.nil_append, List.nil_append, hfed] at hd
  obtain ⟨-, hnil, hend⟩ := hd.takeAll
  have hmsgs := hend.messages_eq
  have hstate := hend.state
  change (new max).consume (ms.flatMap encodeFrame) = _ at hall
  rw [hnil, List.append_nil, hall] at hmsgs
  rw [hall] at hstate
  refine ⟨hst, hmsgs, by simp [hasMessage, hnil], ?_, ?_, ?_⟩
  · rw [hend.count, hmsgs]
  · exact congrArg FrameDecoder.buffer hstate
  · exact congrArg FrameDecoder.haveHeader hstate

/-- Two messages, one of them empty, cut inside a prefix, with an empty chunk and an early
    take. -/
theorem decoder_roundTrip_two :
    ((new 8).uses [.consume [0, 0, 0], .consume [0, 2, 7, 9, 0, 0], .take, .consume [],
        .consume [0, 0, 0]]).2.1 ++
      ((new 8).uses [.consume [0, 0, 0], .consume [0, 2, 7, 9, 0, 0], .take, .consume [],
        .consume [0, 0, 0]]).2.2.takeAll.1 = [[7, 9], []] :=
  (decoder_roundTrip 8 [[7, 9], []] (by decide)
    [.consume [0, 0, 0], .consume [0, 2, 7, 9, 0, 0], .take, .consume [], .consume [0, 0, 0]]
    (by decide)).2.1

end FrameDecoder

end Urpc
