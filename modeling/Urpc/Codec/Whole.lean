/-
  What bytes a decoder has accepted: whole frames, and the rest of one frame.

  The round trip says what a decoder makes of frames. Here is the other direction: accepted
  bytes are the frames of the messages that came out, followed by `rest`, the bytes of a frame
  that is not complete (`Decoded.bytes_eq`). So whether the bytes were whole frames can be read
  off the decoder (`Decoded.whole_iff`, `Decoded.single_iff`).
-/
import Urpc.Codec.RoundTrip

namespace Urpc

open Cxx

/-! ## The length field, read and written back -/

theorem testBit_u32OfBytes (p1 p2 p3 p4 : UInt8) (i : Nat) :
    (u32OfBytes p1 p2 p3 p4).toNat.testBit i =
      (decide (i < 32) && decide (24 ≤ i) && p1.toNat.testBit (i - 24) ||
        (decide (i < 32) && decide (16 ≤ i) && p2.toNat.testBit (i - 16)) ||
        (decide (i < 32) && decide (8 ≤ i) && p3.toNat.testBit (i - 8)) ||
        p4.toNat.testBit i) := by
  have h24 : UInt32.toNat 24 % 32 = 24 := rfl
  have h16 : UInt32.toNat 16 % 32 = 16 := rfl
  have h8 : UInt32.toNat 8 % 32 = 8 := rfl
  simp only [u32OfBytes, UInt32.toNat_or, UInt32.toNat_shiftLeft, UInt8.toNat_toUInt32, h24, h16,
    h8, Nat.testBit_or, Nat.testBit_mod_two_pow, Nat.testBit_shiftLeft, Bool.and_assoc,
    ge_iff_le]

/-- A byte has no bit past the eighth. -/
theorem testBit_byte (p : UInt8) {i : Nat} (h : 8 ≤ i) : p.toNat.testBit i = false :=
  Nat.testBit_lt_two_pow
    (Nat.lt_of_lt_of_le p.toNat_lt (Nat.pow_le_pow_right (by omega) h))

theorem appendU32BE_u32OfBytes (p1 p2 p3 p4 : UInt8) :
    appendU32BE (u32OfBytes p1 p2 p3 p4) = [p1, p2, p3, p4] := by
  -- each byte of the result is one of the four, bit by bit
  have hbyte : ∀ (p : UInt8) (k : Nat) (q : UInt8),
      (∀ i < 8, (u32OfBytes p1 p2 p3 p4).toNat.testBit (k + i) = p.toNat.testBit i) →
      q.toNat = (u32OfBytes p1 p2 p3 p4).toNat >>> k % 2 ^ 8 → q = p := by
    intro p k q hbits hq
    apply UInt8.toNat_inj.mp
    apply Nat.eq_of_testBit_eq
    intro i
    rw [hq, Nat.testBit_mod_two_pow, Nat.testBit_shiftRight]
    by_cases hi : i < 8
    · simp [hi, hbits i hi]
    · simp [hi, testBit_byte p (by omega : 8 ≤ i)]
  simp only [appendU32BE, List.cons.injEq, and_true]
  refine ⟨hbyte p1 24 _ (fun i hi => ?_) ?_, hbyte p2 16 _ (fun i hi => ?_) ?_,
    hbyte p3 8 _ (fun i hi => ?_) ?_, hbyte p4 0 _ (fun i hi => ?_) ?_⟩
  · rw [testBit_u32OfBytes, testBit_byte p2 (by omega), testBit_byte p3 (by omega),
      testBit_byte p4 (by omega)]
    simp [show 24 + i < 32 by omega]
  · simp [UInt32.toNat_toUInt8, UInt32.toNat_shiftRight]
  · rw [testBit_u32OfBytes, testBit_byte p3 (by omega), testBit_byte p4 (by omega)]
    simp [show 16 + i < 32 by omega, show ¬ 24 ≤ 16 + i by omega]
  · simp [UInt32.toNat_toUInt8, UInt32.toNat_shiftRight]
  · rw [testBit_u32OfBytes, testBit_byte p4 (by omega)]
    simp [show 8 + i < 32 by omega, show ¬ 24 ≤ 8 + i by omega, show ¬ 16 ≤ 8 + i by omega]
  · simp [UInt32.toNat_toUInt8, UInt32.toNat_shiftRight]
  · rw [Nat.zero_add, testBit_u32OfBytes]
    simp [show ¬ 24 ≤ i by omega, show ¬ 16 ≤ i by omega, show ¬ 8 ≤ i by omega]
  · simp [UInt32.toNat_toUInt8]

namespace FrameDecoder

/-- The bytes of the frame that is not complete yet. -/
def rest (d : FrameDecoder) : Bytes :=
  if d.haveHeader then (0 :: appendU32BE (UInt32.ofNat d.needed)) ++ d.buffer else d.buffer

/-- No part of a frame is left over. -/
def whole (d : FrameDecoder) : Bool := d.buffer.isEmpty && !d.haveHeader

/-- Exactly one message, and no part of another. -/
def single (d : FrameDecoder) : Bool := d.whole && d.messages.length == 1

theorem whole_eq_true {d : FrameDecoder} :
    d.whole = true ↔ d.buffer = [] ∧ d.haveHeader = false := by
  simp [whole]

theorem rest_of_whole {d : FrameDecoder} (h : d.whole = true) : d.rest = [] := by
  obtain ⟨hb, hh⟩ := whole_eq_true.mp h
  simp [rest, hb, hh]

/-- The frames that came out and the rest are all the bytes that went in. -/
def held (d : FrameDecoder) : Bytes := encodeFrames d.messages ++ d.rest

/-- A parsed length fits its field, and so do the messages. -/
structure Sized (d : FrameDecoder) : Prop where
  needed : d.needed < 2 ^ 32
  messages : ∀ m ∈ d.messages, m.length < 2 ^ 32

theorem readPrefix_held {d e : FrameDecoder} (hs : Sized d) (h : d.readPrefix = (none, e)) :
    e.held = d.held ∧ Sized e := by
  obtain ⟨hh, ⟨-, rfl⟩ | ⟨hd, p1, p2, p3, p4, hb, -, he⟩⟩ := readPrefix_none h
  · exact ⟨rfl, hs⟩
  · have hlt := (u32OfBytes p1 p2 p3 p4).toNat_lt
    refine ⟨?_, ?_⟩
    · rw [held, held, rest, rest, hh, hd, if_pos rfl, if_neg (by simp), hb]
      rw [he]
      simp [appendU32BE_u32OfBytes]
    · rw [he]
      exact ⟨hlt, hs.messages⟩

theorem takePayload_held {d e : FrameDecoder} (hs : Sized d) (hh : d.haveHeader = true)
    (h : d.takePayload = (none, e)) : e.held = d.held ∧ Sized e := by
  obtain ⟨hle, rfl⟩ := takePayload_none h
  have hlen : (d.buffer.take d.needed).length = d.needed := by simp [hle]
  refine ⟨?_, by simp, ?_⟩
  · simp only [held, rest, hh, if_true, Bool.false_eq_true, if_false, encodeFrames,
      List.flatMap_append, List.flatMap_cons, List.flatMap_nil, List.append_nil, encodeFrame, hlen,
      List.append_assoc, List.take_append_drop]
  · intro m hm
    rcases List.mem_append.mp hm with hm | hm
    · exact hs.messages m hm
    · obtain rfl := List.mem_singleton.mp hm
      rw [hlen]
      exact hs.needed

/-- The loop of `Consume` loses no byte: what it rejects stays in the buffer. -/
theorem drained_held (d : FrameDecoder) (hs : Sized d) :
    d.drained.2.held = d.held ∧ Sized d.drained.2 := by
  induction d using drained_induct with
  | h d ih =>
      rw [drained_eq]
      cases hp : d.pass with
      | mk o d' =>
          cases o with
          | none =>
              obtain ⟨e, he, ht⟩ := pass_none hp
              obtain ⟨h1, hs1⟩ := readPrefix_held hs he
              obtain ⟨h2, hs2⟩ := takePayload_held hs1 (readPrefix_none he).1 ht
              obtain ⟨h3, hs3⟩ := ih d' hp hs2
              exact ⟨h3.trans (h2.trans h1), hs3⟩
          | some st =>
              rcases pass_some hp with he | ⟨e, he, ht⟩
              · obtain ⟨-, hd', -⟩ := readPrefix_some he
                rw [hd']
                exact ⟨rfl, hs.needed, hs.messages⟩
              · obtain ⟨-, rfl, -⟩ := takePayload_some ht
                exact readPrefix_held hs he

/-- A frame above the limit is rejected. -/
theorem pass_oversize (d : FrameDecoder) (m : Bytes) (hm : m.length < 2 ^ 32)
    (hmax : d.maxMessageSize < m.length) (hh : d.haveHeader = false)
    (hb : d.buffer = encodeFrame m) : ∃ st d', d.pass = (some st, d') ∧ st.ok = false := by
  have hlen : (UInt32.ofNat m.length).toNat = m.length := by
    rw [UInt32.toNat_ofNat']
    exact Nat.mod_eq_of_lt hm
  refine ⟨oversizeStatus m.length d.maxMessageSize, { d with flag := 0 }, ?_, rfl⟩
  simp only [pass, readPrefix, hh, hb, encodeFrame, appendU32BE, List.cons_append,
    List.nil_append, u32OfBytes_appendU32BE, hlen]
  simp [hmax]

/-- A fresh decoder that accepts frames within the length field gives back their messages. -/
theorem consume_frames_of_ok {max : Nat} {ms : List Bytes} (hlen : ∀ m ∈ ms, m.length < 2 ^ 32)
    (h : ((new max).consume (encodeFrames ms)).1.ok = true) :
    ((new max).consume (encodeFrames ms)).2 = { new max with messages := ms } := by
  suffices hfit : Fits max ms by rw [consume_encodeFrames max ms hfit]
  -- otherwise the first message above the limit would have been rejected
  induction ms using List.reverseRecOn with
  | nil => exact fun m hm => by cases hm
  | append_singleton ms m ih =>
      have happ : encodeFrames (ms ++ [m]) = encodeFrames ms ++ encodeFrame m := by
        simp [encodeFrames]
      rw [happ] at h
      have hfit := ih (fun x hx => hlen x (List.mem_append_left _ hx)) (consume_ok_of_append h)
      have hm := hlen m (by simp)
      intro x hx
      rcases List.mem_append.mp hx with hx | hx
      · exact hfit x hx
      · obtain rfl := List.mem_singleton.mp hx
        refine ⟨hm, ?_⟩
        by_contra hbig
        obtain ⟨st, d', hpass, hst⟩ := pass_oversize
          (({ new max with messages := ms } : FrameDecoder).feed (encodeFrame x)) x hm
          (by simpa [feed, new] using hbig) rfl rfl
        rw [consume_append_of_ok (by rw [consume_encodeFrames max ms hfit]; rfl),
          consume_encodeFrames max ms hfit, consume, drained_eq, hpass] at h
        simp only at h
        rw [h] at hst
        cases hst

namespace Decoded

variable {max : Nat} {w : Bytes} {taken : List Bytes} {d : FrameDecoder}

/-- Accepted bytes are the frames of the messages and the rest of a frame. -/
theorem bytes_eq (h : Decoded max w taken d) :
    w = encodeFrames (taken ++ d.messages) ++ d.rest ∧
      ∀ m ∈ taken ++ d.messages, m.length < 2 ^ 32 := by
  have hfresh : Sized ((new max).feed w) := ⟨by simp [feed, new], by simp [feed, new]⟩
  obtain ⟨hheld, hsized⟩ := drained_held _ hfresh
  have hstate : ((new max).feed w).drained.2 = d.untake taken := h.state.symm
  rw [hstate] at hheld hsized
  refine ⟨?_, hsized.messages⟩
  have hw : ((new max).feed w).held = w := by simp [held, rest, feed, new, encodeFrames]
  rw [hw] at hheld
  exact hheld.symm

/-- **Whole frames leave nothing over**, and only they do. -/
theorem whole_iff (h : Decoded max w taken d) :
    d.whole = true ↔ ∃ ms : List Bytes, (∀ m ∈ ms, m.length < 2 ^ 32) ∧ w = encodeFrames ms := by
  constructor
  · intro hw
    obtain ⟨hbytes, hlen⟩ := h.bytes_eq
    refine ⟨taken ++ d.messages, hlen, ?_⟩
    rw [hbytes, rest_of_whole hw, List.append_nil]
  · rintro ⟨ms, hlen, rfl⟩
    have hstate := h.state.trans (consume_frames_of_ok hlen h.ok)
    have hb := congrArg FrameDecoder.buffer hstate
    have hh := congrArg FrameDecoder.haveHeader hstate
    exact whole_eq_true.mpr ⟨hb, hh⟩

/-- What is handed on as the response of a unary call: its message, or nothing. -/
theorem single_iff (h : Decoded max w [] d) :
    d.single = true ↔ w = encodeFrame (d.messages.headD []) := by
  constructor
  · intro hs
    obtain ⟨hw, hone⟩ : d.whole = true ∧ d.messages.length = 1 := by simpa [single] using hs
    obtain ⟨m, hm⟩ := List.length_eq_one_iff.mp hone
    have hbytes := h.bytes_eq.1
    rw [rest_of_whole hw, hm] at hbytes
    rw [hm]
    simpa [encodeFrames] using hbytes
  · intro hw
    generalize hm : d.messages.headD [] = m at hw
    have hlen : ∀ x ∈ [m], x.length < 2 ^ 32 := by
      rintro _ hx
      obtain rfl := List.mem_singleton.mp hx
      cases hms : d.messages with
      | nil => simp [← hm, hms]
      | cons y ys =>
          rw [← hm, hms]
          exact h.bytes_eq.2 y (by simp [hms])
    have hframes : w = encodeFrames [m] := by simpa [encodeFrames] using hw
    have hstate := h.state
    rw [hframes, consume_frames_of_ok hlen (hframes ▸ h.ok)] at hstate
    have hmsgs : d.messages = [m] := congrArg FrameDecoder.messages hstate
    simp [single, h.whole_iff.mpr ⟨_, hlen, hframes⟩, hmsgs]

end Decoded

end FrameDecoder

end Urpc
