/-
  Which bytes are one frame, or the beginning of one.

  A decoder that has no message and no complaint has seen less than a prefix, or a prefix with a
  length within the limit and less payload than that (`acceptable_of_empty`). Conversely such bytes
  give no message, or exactly the one whose frame they are (`acceptable_cases`). A rejection leaves
  the rejected prefix in the buffer, so a decoder with nothing left over has rejected nothing
  (`ok_of_whole`), and was fed complete frames (`whole_consume_iff`).
-/
import Urpc.Codec.Size
import Urpc.Codec.Whole

namespace Urpc

open Cxx

namespace FrameDecoder

/-- Less than a prefix, or the beginning (or all) of the frame of one message within the limit. -/
def Acceptable (max : Nat) (w : Bytes) : Prop :=
  w.length < kPrefixLen ∨ ∃ m, m.length ≤ max ∧ m.length < 2 ^ 32 ∧ w <+: encodeFrame m

theorem encodeFrame_length (m : Bytes) : (encodeFrame m).length = kPrefixLen + m.length := by
  simp [encodeFrame, appendU32BE, kPrefixLen]
  omega

theorem encodeFrame_inj {m m' : Bytes} (h : encodeFrame m = encodeFrame m') : m = m' := by
  have := congrArg (List.drop kPrefixLen) h
  simpa [encodeFrame, appendU32BE, kPrefixLen] using this

/-- The frame of a message of more than 32 bits is not acceptable. -/
theorem Acceptable.length {max : Nat} {m : Bytes} (h : Acceptable max (encodeFrame m)) :
    m.length < 2 ^ 32 := by
  rcases h with hlt | ⟨m', -, h32, hpre⟩
  · rw [encodeFrame_length] at hlt
    omega
  · have := hpre.length_le
    rw [encodeFrame_length, encodeFrame_length] at this
    omega

/-! ## Lengths -/

theorem sized_consume (max : Nat) (w : Bytes) : Sized ((new max).consume w).2 :=
  (drained_held _ ⟨by simp [feed, new], by simp [feed, new]⟩).2

theorem bounded_consume (max : Nat) (w : Bytes) : Bounded ((new max).consume w).2 :=
  (drained_size _ ((bounded_new max).feed w)).2.1

theorem maxMessageSize_consume (max : Nat) (w : Bytes) :
    ((new max).consume w).2.maxMessageSize = max :=
  (drained_size _ ((bounded_new max).feed w)).2.2

/-! ## Where the loop stops -/

/-- A stop with OK waits for a prefix or for payload; a rejection keeps what it rejected. -/
structure Stopped (st : Status) (d : FrameDecoder) : Prop where
  waits : st.ok = true → if d.haveHeader then d.buffer.length < d.needed
    else d.buffer.length < kPrefixLen
  keeps : st.ok = false → d.buffer ≠ []

theorem pass_stopped {d e : FrameDecoder} {st : Status} (h : d.pass = (some st, e)) :
    Stopped st e := by
  rcases pass_some h with hr | ⟨f, hf, hp⟩
  · obtain ⟨hh, he, ⟨rfl, rfl, hlt⟩ | ⟨herr, -⟩⟩ := readPrefix_some hr
    · exact ⟨fun _ => by simpa [hh] using hlt, nofun⟩
    · refine ⟨fun hok => absurd hok (by simp [herr]), fun _ hnil => ?_⟩
      have hbuf : d.buffer = [] := by rw [← hnil, he]
      have hstop : d.readPrefix = (some .okay, d) := by simp [readPrefix, hh, hbuf]
      rw [hstop] at hr
      cases hr
      cases herr
  · obtain ⟨rfl, rfl, hlt⟩ := takePayload_some hp
    exact ⟨fun _ => by simpa [(readPrefix_none hf).1] using hlt, nofun⟩

theorem drained_stopped (d : FrameDecoder) : Stopped d.drained.1 d.drained.2 := by
  induction d using drained_induct with
  | h d ih =>
      rw [drained_eq d]
      cases hp : d.pass with
      | mk o e =>
          cases o with
          | none => exact ih e hp
          | some st => exact pass_stopped hp

theorem consume_stopped (max : Nat) (w : Bytes) :
    Stopped ((new max).consume w).1 ((new max).consume w).2 := drained_stopped _

/-- Nothing left over: nothing was rejected. -/
theorem ok_of_whole {max : Nat} {w : Bytes} (h : ((new max).consume w).2.whole = true) :
    ((new max).consume w).1.ok = true := by
  by_contra hbad
  exact (consume_stopped max w).keeps (by simpa using hbad) (whole_eq_true.mp h).1

/-! ## Complete frames -/

/-- The frames of messages within the limit, one after the other. -/
def Frames (max : Nat) (w : Bytes) : Prop := ∃ ms, Fits max ms ∧ w = encodeFrames ms


theorem decoded_consume {max : Nat} {w : Bytes} (h : ((new max).consume w).1.ok = true) :
    Decoded max w [] ((new max).consume w).2 := by
  have hcount : ((new max).consume w).2.messageCount = 0 := drained_messageCount _
  refine ⟨h, ?_, hcount⟩
  rw [untake, List.nil_append, ← hcount]

/-- A decoder with nothing left over was fed complete frames, and only then is nothing left
    over. -/
theorem whole_consume_iff {max : Nat} {w : Bytes} :
    ((new max).consume w).2.whole = true ↔ Frames max w := by
  constructor
  · intro hw
    obtain ⟨hbytes, hlen⟩ := (decoded_consume (ok_of_whole hw)).bytes_eq
    have hmax := (bounded_consume max w).messages
    rw [maxMessageSize_consume] at hmax
    rw [rest_of_whole hw, List.append_nil] at hbytes
    exact ⟨_, fun m hm => ⟨hlen m hm, hmax m hm⟩, hbytes⟩
  · rintro ⟨ms, hfit, rfl⟩
    rw [consume_encodeFrames max ms hfit]
    rfl

theorem Replay.whole_iff {max : Nat} {w : Bytes} {taken : List Bytes} {d : FrameDecoder}
    (h : Replay max w taken d) : d.whole = true ↔ Frames max w := by
  rw [← whole_consume_iff, ← show d.untake taken = ((new max).consume w).2 from h]
  rfl

/-! ## One frame or the beginning of one -/

theorem acceptable_of_empty {max : Nat} {w : Bytes} (hok : ((new max).consume w).1.ok = true)
    (hnone : ((new max).consume w).2.messages = []) : Acceptable max w := by
  have hw := (decoded_consume hok).bytes_eq.1
  have hstop := (consume_stopped max w).waits hok
  have hneeded := (bounded_consume max w).needed
  have hneeded' := (sized_consume max w).needed
  rw [maxMessageSize_consume] at hneeded
  generalize ((new max).consume w).2 = d at hw hnone hstop hneeded hneeded'
  rw [hnone] at hw
  simp only [List.append_nil, encodeFrames, List.flatMap_nil, List.nil_append, rest] at hw
  split at hstop
  · next hh =>
      -- the payload so far, made up to its length
      have hlen : (d.buffer ++ List.replicate (d.needed - d.buffer.length) 0).length = d.needed := by
        simp only [List.length_append, List.length_replicate]
        omega
      rw [if_pos hh] at hw
      refine .inr ⟨d.buffer ++ List.replicate (d.needed - d.buffer.length) 0, ?_, ?_, ?_⟩
      · omega
      · omega
      · rw [encodeFrame, hlen, hw, ← List.append_assoc]
        exact List.prefix_append _ _
  · next hh =>
      rw [if_neg hh] at hw
      exact .inl (hw ▸ hstop)

theorem messages_encodeFrame {max : Nat} {m : Bytes} (hmax : m.length ≤ max)
    (h32 : m.length < 2 ^ 32) : ((new max).consume (encodeFrame m)).2.messages = [m] := by
  have hfit : Fits max [m] := fun x hx => List.mem_singleton.mp hx ▸ ⟨h32, hmax⟩
  rw [show encodeFrame m = encodeFrames [m] by simp [encodeFrames], consume_encodeFrames _ _ hfit]

/-- Bytes that do not give exactly one message are not one frame. -/
theorem ne_encodeFrame {max : Nat} {w m : Bytes} (hw : w.length < 2 ^ 32) (hmax : m.length ≤ max)
    (h : ((new max).consume w).2.messages.length ≠ 1) : w ≠ encodeFrame m := by
  rintro rfl
  rw [encodeFrame_length] at hw
  exact h (by rw [messages_encodeFrame hmax (by omega)]; rfl)

theorem acceptable_cases {max : Nat} {w : Bytes} (h : Acceptable max w) :
    ((new max).consume w).1.ok = true ∧ (((new max).consume w).2.messages = [] ∨
      ∃ m, m.length ≤ max ∧ w = encodeFrame m ∧ ((new max).consume w).2.messages = [m]) := by
  rcases h with hlt | ⟨m, hmax, h32, hpre⟩
  · have hpass : ((new max).feed w).pass = (some .okay, (new max).feed w) := by
      match w, hlt with
      | [], _ | [_], _ | [_, _], _ | [_, _, _], _ | [_, _, _, _], _ => rfl
      | _ :: _ :: _ :: _ :: _ :: _, hlt => exact absurd hlt (by simp [kPrefixLen])
    rw [consume, drained_eq, hpass]
    exact ⟨rfl, .inl rfl⟩
  · have hfit : Fits max [m] := by
      intro x hx
      rw [List.mem_singleton.mp hx]
      exact ⟨h32, hmax⟩
    obtain ⟨hok, hmsgs⟩ := consume_of_isPrefix hfit (w := w) (by simpa [encodeFrames] using hpre)
    refine ⟨hok, ?_⟩
    rcases List.prefix_cons_iff.mp hmsgs with hnil | ⟨t, ht, htnil⟩
    · exact .inl hnil
    · obtain rfl := List.prefix_nil.mp htnil
      have hw := (decoded_consume hok).bytes_eq.1
      rw [List.nil_append, ht, show encodeFrames [m] = encodeFrame m by simp [encodeFrames]] at hw
      have hle := hpre.length_le
      rw [hw, List.length_append] at hle
      have hrest : ((new max).consume w).2.rest = [] := List.length_eq_zero_iff.mp (by omega)
      exact .inr ⟨m, hmax, by rw [hw, hrest, List.append_nil], ht⟩

end FrameDecoder

end Urpc
