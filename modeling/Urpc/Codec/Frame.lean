/-
  Message framing (`urpc/core/codec.h`, `urpc_codec.cpp`): `EncodeFrame` and the incremental
  `FrameDecoder`.

  `Consume` appends to `buffer_` and then loops. `FrameDecoder.pass` is one trip round that
  loop: it returns a status (the loop's `return`) or goes round again. `FrameDecoder.loop`
  repeats it; a trip that goes round again shrinks `measure`, so `consume` gives it enough
  fuel (`loop_fuel`), and `drained` is the loop with no fuel in sight (`drained_eq`).

  Proved here: the prefix survives (`u32OfBytes_appendU32BE`), and the loop does not care
  where the bytes were cut (`drained_feed_of_ok`, `drained_feed_of_err`).
-/
import Urpc.Status

namespace Urpc

open Cxx

/-! ## Encoding -/

def kPrefixLen : Nat := 5

/-- `AppendU32BE`. -/
def appendU32BE (v : UInt32) : Bytes :=
  [(v >>> 24).toUInt8, (v >>> 16).toUInt8, (v >>> 8).toUInt8, v.toUInt8]

/-- `EncodeFrame`: flag 0, the length cast to 32 bits, the message. -/
def encodeFrame (msg : Bytes) : Bytes :=
  (0 :: appendU32BE (UInt32.ofNat msg.length)) ++ msg

/-- The frames of several messages, one after the other. -/
def encodeFrames (ms : List Bytes) : Bytes := ms.flatMap encodeFrame

theorem encodeFrame_ne_nil (msg : Bytes) : encodeFrame msg ≠ [] := by simp [encodeFrame]

/-- The length field as `Consume` assembles it. -/
def u32OfBytes (p1 p2 p3 p4 : UInt8) : UInt32 :=
  (p1.toUInt32 <<< 24) ||| (p2.toUInt32 <<< 16) ||| (p3.toUInt32 <<< 8) ||| p4.toUInt32

theorem u32OfBytes_appendU32BE (v : UInt32) :
    u32OfBytes (v >>> 24).toUInt8 (v >>> 16).toUInt8 (v >>> 8).toUInt8 v.toUInt8 = v := by
  apply UInt32.toNat_inj.mp
  apply Nat.eq_of_testBit_eq
  intro i
  have h24 : UInt32.toNat 24 % 32 = 24 := rfl
  have h16 : UInt32.toNat 16 % 32 = 16 := rfl
  have h8 : UInt32.toNat 8 % 32 = 8 := rfl
  simp only [u32OfBytes, UInt32.toNat_or, UInt32.toNat_shiftLeft, UInt8.toNat_toUInt32,
    UInt32.toNat_toUInt8, UInt32.toNat_shiftRight, h24, h16, h8, Nat.testBit_or,
    Nat.testBit_shiftLeft, Nat.testBit_mod_two_pow, Nat.testBit_shiftRight]
  -- each bit below 32 comes from exactly one of the four bytes
  by_cases h : i < 32
  · rcases (by omega : 24 ≤ i ∨ (16 ≤ i ∧ i < 24) ∨ (8 ≤ i ∧ i < 16) ∨ i < 8)
      with h1 | h1 | h1 | h1
    · simp [h, h1, show i - 24 < 8 by omega, show 24 + (i - 24) = i by omega,
        show ¬ i - 16 < 8 by omega, show ¬ i - 8 < 8 by omega, show ¬ i < 8 by omega]
    · simp [h, show i - 16 < 8 by omega, show ¬ 24 ≤ i by omega, show 16 ≤ i by omega,
        show 16 + (i - 16) = i by omega, show ¬ i - 8 < 8 by omega, show ¬ i < 8 by omega]
    · simp [h, show i - 8 < 8 by omega, show ¬ 24 ≤ i by omega, show ¬ 16 ≤ i by omega,
        show 8 ≤ i by omega, show 8 + (i - 8) = i by omega, show ¬ i < 8 by omega]
    · simp [h1, show ¬ 24 ≤ i by omega, show ¬ 16 ≤ i by omega, show ¬ 8 ≤ i by omega]
  · have hb : v.toNat.testBit i = false :=
      Nat.testBit_lt_two_pow
        (Nat.lt_of_lt_of_le v.toNat_lt (Nat.pow_le_pow_right (by omega) (by omega)))
    simp [h, hb, show ¬ i < 8 by omega]

/-! ## Decoding -/

structure FrameDecoder where
  maxMessageSize : Nat
  buffer : Bytes := []          -- unconsumed bytes
  needed : Nat := 0             -- payload bytes still needed
  haveHeader : Bool := false
  flag : UInt8 := 0
  messages : List Bytes := []
  messageCount : Nat := 0
  deriving DecidableEq, Repr

namespace FrameDecoder

/-- The default of `max_message_size` (FR-007). -/
def defaultMaxMessageSize : Nat := 4 * 1024 * 1024

/-- A fresh decoder. -/
def new (maxMessageSize : Nat) : FrameDecoder := { maxMessageSize }

def compressedStatus : Status :=
  ⟨.internal, str "compressed messages are not supported"⟩

def oversizeStatus (mlen max : Nat) : Status :=
  ⟨.resourceExhausted, str "message of " ++ natDigits mlen ++ str " bytes exceeds limit of "
    ++ natDigits max⟩

/-- The first half of a trip: parse a prefix unless one is already parsed. -/
def readPrefix (d : FrameDecoder) : Option Status × FrameDecoder :=
  if d.haveHeader then (none, d)
  else
    match d.buffer with
    | p0 :: p1 :: p2 :: p3 :: p4 :: rest =>
        if p0 ≠ 0 then (some compressedStatus, { d with flag := p0 })
        else
          let mlen := (u32OfBytes p1 p2 p3 p4).toNat
          if mlen > d.maxMessageSize then
            (some (oversizeStatus mlen d.maxMessageSize), { d with flag := p0 })
          else
            (none, { d with flag := p0, needed := mlen, haveHeader := true, buffer := rest })
    | _ => (some .okay, d)

/-- The second half: wait for `needed_` bytes, or cut one message off. -/
def takePayload (d : FrameDecoder) : Option Status × FrameDecoder :=
  if d.buffer.length < d.needed then (some .okay, d)
  else (none, { d with
    messages := d.messages ++ [d.buffer.take d.needed]
    buffer := d.buffer.drop d.needed
    haveHeader := false
    needed := 0 })

/-- One trip round the loop of `Consume`: `some st` is `return st`, `none` goes round again. -/
def pass (d : FrameDecoder) : Option Status × FrameDecoder :=
  match d.readPrefix with
  | (some st, d') => (some st, d')
  | (none, d') => d'.takePayload

def loop : Nat → FrameDecoder → Status × FrameDecoder
  | 0, d => (.okay, d)
  | fuel + 1, d =>
      match d.pass with
      | (some st, d') => (st, d')
      | (none, d') => loop fuel d'

/-- Shrinks on every trip that goes round again. -/
def measure (d : FrameDecoder) : Nat := d.buffer.length + if d.haveHeader then 1 else 0

/-- The loop of `Consume` on what is buffered. -/
def drained (d : FrameDecoder) : Status × FrameDecoder := d.loop (d.measure + 1)

/-- More bytes at the end of the buffer. -/
def feed (d : FrameDecoder) (data : Bytes) : FrameDecoder := { d with buffer := d.buffer ++ data }

/-- `Consume`. -/
def consume (d : FrameDecoder) (data : Bytes) : Status × FrameDecoder := (d.feed data).drained

/-- `HasMessage`. -/
def hasMessage (d : FrameDecoder) : Bool := !d.messages.isEmpty

/-- `TakeMessage`, for a decoder that has one. -/
def takeMessage (d : FrameDecoder) : Bytes × FrameDecoder :=
  (d.messages.headD [], { d with messages := d.messages.tail, messageCount := d.messageCount + 1 })

/-! ## What the two halves of a trip can do -/

theorem readPrefix_none {d d' : FrameDecoder} (h : d.readPrefix = (none, d')) :
    d'.haveHeader = true ∧
      ((d.haveHeader = true ∧ d' = d) ∨
        (d.haveHeader = false ∧ ∃ p1 p2 p3 p4,
          d.buffer = 0 :: p1 :: p2 :: p3 :: p4 :: d'.buffer ∧
          (u32OfBytes p1 p2 p3 p4).toNat ≤ d.maxMessageSize ∧
          d' = { d with flag := 0, needed := (u32OfBytes p1 p2 p3 p4).toNat, haveHeader := true,
                        buffer := d'.buffer })) := by
  unfold readPrefix at h
  split at h
  · next hh =>
      obtain rfl := (Prod.mk.inj h).2
      exact ⟨hh, .inl ⟨hh, rfl⟩⟩
  · next hh =>
      split at h
      · next p0 p1 p2 p3 p4 rest hb =>
          split at h
          · cases h
          · next hp0 =>
              obtain rfl : p0 = 0 := by simpa using hp0
              simp only at h
              split at h
              · cases h
              · next hle =>
                  obtain rfl := (Prod.mk.inj h).2
                  exact ⟨rfl, .inr ⟨by simpa using hh, p1, p2, p3, p4, hb, by omega, rfl⟩⟩
      · cases h

theorem readPrefix_some {d d' : FrameDecoder} {st : Status} (h : d.readPrefix = (some st, d')) :
    d.haveHeader = false ∧ d' = { d with flag := d'.flag } ∧
      ((st = .okay ∧ d' = d ∧ d.buffer.length < kPrefixLen) ∨
        (st.ok = false ∧ ∀ b, (d.feed b).readPrefix = (some st, d'.feed b))) := by
  unfold readPrefix at h
  split at h
  · cases h
  · next hh =>
      refine ⟨by simpa using hh, ?_⟩
      split at h
      · next p0 p1 p2 p3 p4 rest hb =>
          split at h
          · next hp0 =>
              obtain ⟨h1, rfl⟩ := Prod.mk.inj h
              obtain rfl := Option.some.inj h1
              refine ⟨rfl, .inr ⟨rfl, fun b => ?_⟩⟩
              simp [readPrefix, feed, hh, hb, hp0]
          · next hp0 =>
              simp only at h
              split at h
              · next hgt =>
                  obtain ⟨h1, rfl⟩ := Prod.mk.inj h
                  obtain rfl := Option.some.inj h1
                  refine ⟨rfl, .inr ⟨rfl, fun b => ?_⟩⟩
                  simp [readPrefix, feed, hh, hb, hp0, hgt]
              · cases h
      · next hb =>
          obtain ⟨h1, rfl⟩ := Prod.mk.inj h
          refine ⟨rfl, .inl ⟨(Option.some.inj h1).symm, rfl, ?_⟩⟩
          match hbuf : d.buffer with
          | p0 :: p1 :: p2 :: p3 :: p4 :: rest => exact absurd hbuf (hb p0 p1 p2 p3 p4 rest)
          | [] | [_] | [_, _] | [_, _, _] | [_, _, _, _] => simp [kPrefixLen]

theorem takePayload_none {d d' : FrameDecoder} (h : d.takePayload = (none, d')) :
    d.needed ≤ d.buffer.length ∧
      d' = { d with messages := d.messages ++ [d.buffer.take d.needed],
                    buffer := d.buffer.drop d.needed, haveHeader := false, needed := 0 } := by
  unfold takePayload at h
  split at h
  · cases h
  · exact ⟨by omega, (Prod.mk.inj h).2.symm⟩

theorem takePayload_some {d d' : FrameDecoder} {st : Status} (h : d.takePayload = (some st, d')) :
    st = .okay ∧ d' = d ∧ d.buffer.length < d.needed := by
  unfold takePayload at h
  split at h
  · next hlt =>
      obtain ⟨h1, rfl⟩ := Prod.mk.inj h
      exact ⟨(Option.some.inj h1).symm, rfl, hlt⟩
  · cases h

/-- A trip that goes round again parsed a prefix (or had one) and cut off a message. -/
theorem pass_none {d d' : FrameDecoder} (h : d.pass = (none, d')) :
    ∃ e, d.readPrefix = (none, e) ∧ e.takePayload = (none, d') := by
  unfold pass at h
  split at h
  · cases h
  · next e he => exact ⟨e, he, h⟩

/-- A trip that returns stopped at the prefix or at the payload. -/
theorem pass_some {d d' : FrameDecoder} {st : Status} (h : d.pass = (some st, d')) :
    d.readPrefix = (some st, d') ∨
      ∃ e, d.readPrefix = (none, e) ∧ e.takePayload = (some st, d') := by
  unfold pass at h
  split at h
  · next e he => rw [← h]; exact .inl he
  · next e he => exact .inr ⟨e, he, h⟩

/-! ## The loop ends -/

theorem pass_measure {d d' : FrameDecoder} (h : d.pass = (none, d')) :
    d'.measure < d.measure := by
  obtain ⟨e, he, hp⟩ := pass_none h
  obtain ⟨hlen, rfl⟩ := takePayload_none hp
  obtain ⟨hh, ⟨hd, rfl⟩ | ⟨hd, p1, p2, p3, p4, hb, -, -⟩⟩ := readPrefix_none he
  · simp only [measure, hh, if_true, List.length_drop, Bool.false_eq_true, if_false]
    omega
  · simp only [measure, hd, hb, List.length_drop, List.length_cons, Bool.false_eq_true, if_false]
    omega

/-- Past `measure`, more fuel changes nothing. -/
theorem loop_fuel (d : FrameDecoder) (fuel : Nat) (h : d.measure < fuel) :
    d.loop fuel = d.drained := by
  have key : ∀ n d, measure d < n → ∀ m, measure d < m → d.loop n = d.loop m := by
    intro n
    induction n with
    | zero => intro d hn; omega
    | succ n ih =>
        intro d hn m hm
        obtain ⟨m, rfl⟩ : ∃ k, m = k + 1 := ⟨m - 1, by omega⟩
        simp only [loop]
        split
        · rfl
        · next d' hp =>
            have := pass_measure hp
            exact ih d' (by omega) m (by omega)
  exact key fuel d h _ (by omega)

/-- The loop of `Consume`, unrolled once. -/
theorem drained_eq (d : FrameDecoder) :
    d.drained = match d.pass with
      | (some st, d') => (st, d')
      | (none, d') => d'.drained := by
  conv => lhs; unfold drained loop
  split
  · rfl
  · next d' hp => exact loop_fuel d' _ (pass_measure hp)

/-- Induction along the trips of the loop. -/
theorem drained_induct {P : FrameDecoder → Prop}
    (h : ∀ d, (∀ d', d.pass = (none, d') → P d') → P d) (d : FrameDecoder) : P d := by
  have key : ∀ n d, measure d < n → P d := by
    intro n
    induction n with
    | zero => intro d hd; omega
    | succ n ih =>
        intro d hd
        refine h d fun d' hp => ih d' ?_
        have := pass_measure hp
        omega
  exact key (d.measure + 1) d (by omega)

/-! ## Cutting the input does not matter -/

theorem feed_nil (d : FrameDecoder) : d.feed [] = d := by simp [feed]

theorem feed_feed (d : FrameDecoder) (a b : Bytes) : (d.feed a).feed b = d.feed (a ++ b) := by
  simp [feed, List.append_assoc]

theorem readPrefix_feed_none {d e : FrameDecoder} (h : d.readPrefix = (none, e)) (b : Bytes) :
    (d.feed b).readPrefix = (none, e.feed b) := by
  obtain ⟨-, ⟨hh, rfl⟩ | ⟨hh, p1, p2, p3, p4, hb, hle, he⟩⟩ := readPrefix_none h
  · simp [readPrefix, feed, hh]
  · rw [he]
    simp [readPrefix, feed, hh, hb, hle]

theorem takePayload_feed_none {d d' : FrameDecoder} (h : d.takePayload = (none, d')) (b : Bytes) :
    (d.feed b).takePayload = (none, d'.feed b) := by
  obtain ⟨hle, rfl⟩ := takePayload_none h
  have hn : ¬ (d.feed b).buffer.length < (d.feed b).needed := by
    simp only [feed, List.length_append]; omega
  simp only [takePayload, if_neg hn]
  simp only [feed, List.take_append_of_le_length hle, List.drop_append_of_le_length hle]

theorem pass_feed_none {d d' : FrameDecoder} (h : d.pass = (none, d')) (b : Bytes) :
    (d.feed b).pass = (none, d'.feed b) := by
  obtain ⟨e, he, hp⟩ := pass_none h
  simp only [pass, readPrefix_feed_none he b]
  exact takePayload_feed_none hp b

/-- A trip that rejects the prefix rejects it whatever follows. -/
theorem pass_feed_err {d d' : FrameDecoder} {st : Status} (h : d.pass = (some st, d'))
    (hst : st.ok = false) (b : Bytes) : (d.feed b).pass = (some st, d'.feed b) := by
  rcases pass_some h with he | ⟨e, -, hp⟩
  · obtain ⟨-, -, ⟨rfl, -⟩ | ⟨-, hfeed⟩⟩ := readPrefix_some he
    · cases hst
    · simp only [pass, hfeed b]
  · obtain ⟨rfl, -⟩ := takePayload_some hp
    cases hst

/-- After a trip that returned OK, more bytes go on as if that trip had not been made. -/
theorem pass_feed_ok {d d' : FrameDecoder} {st : Status} (h : d.pass = (some st, d'))
    (hst : st.ok = true) (b : Bytes) : (d.feed b).pass = (d'.feed b).pass := by
  rcases pass_some h with he | ⟨e, he, hp⟩
  · obtain ⟨-, -, ⟨-, rfl, -⟩ | ⟨herr, -⟩⟩ := readPrefix_some he
    · rfl
    · rw [hst] at herr; cases herr
  · obtain ⟨-, rfl, -⟩ := takePayload_some hp
    have hh := (readPrefix_none he).1
    have hself : (d'.feed b).readPrefix = (none, d'.feed b) := by simp [readPrefix, feed, hh]
    simp only [pass, readPrefix_feed_none he b, hself]

/-- Bytes after an OK stop: the loop goes on from where it stopped. -/
theorem drained_feed_of_ok (d : FrameDecoder) (b : Bytes) (h : d.drained.1.ok = true) :
    (d.feed b).drained = (d.drained.2.feed b).drained := by
  induction d using drained_induct with
  | h d ih =>
      rw [drained_eq d] at h ⊢
      cases hp : d.pass with
      | mk o d' =>
          rw [hp] at h
          cases o with
          | none =>
              rw [drained_eq (d.feed b), pass_feed_none hp b]
              exact ih d' hp h
          | some st => rw [drained_eq (d.feed b), drained_eq (d'.feed b), pass_feed_ok hp h b]

/-- Bytes after a rejection: the loop stops at the same place with the same status. -/
theorem drained_feed_of_err (d : FrameDecoder) (b : Bytes) (h : d.drained.1.ok = false) :
    (d.feed b).drained = (d.drained.1, d.drained.2.feed b) := by
  induction d using drained_induct with
  | h d ih =>
      rw [drained_eq d] at h ⊢
      rw [drained_eq (d.feed b)]
      cases hp : d.pass with
      | mk o d' =>
          rw [hp] at h
          cases o with
          | none =>
              rw [pass_feed_none hp b]
              exact ih d' hp h
          | some st => rw [pass_feed_err hp h b]

end FrameDecoder

end Urpc
