/-
  The representation invariant of `FrameDecoder`: its state and the messages taken from it are the
  bytes that were fed, byte by byte.

  This holds for every input, also a malformed one: a prefix that is rejected stays in `buffer_`, and
  so does everything that is fed after it.

  Proved:
  * `decoder_rebuilds_input`: after every sequence of `Consume` and `TakeMessage`.
-/
import Urpc.Codec.Accept

namespace Urpc

open Cxx

namespace FrameDecoder

/-- The prefix that was parsed and whose payload is not complete. -/
def parsedPrefix (d : FrameDecoder) : Bytes :=
  if d.haveHeader then 0 :: appendU32BE (UInt32.ofNat d.needed) else []

theorem rest_eq (d : FrameDecoder) : d.rest = d.parsedPrefix ++ d.buffer := by
  unfold rest parsedPrefix
  split <;> rfl

theorem held_feed (d : FrameDecoder) (b : Bytes) : (d.feed b).held = d.held ++ b := by
  have hprefix : (d.feed b).parsedPrefix = d.parsedPrefix := rfl
  rw [held, held, rest_eq, rest_eq, hprefix]
  simp [feed]

/-- `w` was fed and `taken` was taken out. -/
structure Rebuilds (max : Nat) (w : Bytes) (taken : List Bytes) (d : FrameDecoder) : Prop where
  bytes : w = encodeFrames taken ++ d.held
  sized : Sized d
  bounded : Bounded d
  limit : d.maxMessageSize = max
  taken : ∀ m ∈ taken, m.length ≤ max

namespace Rebuilds

variable {max : Nat} {w : Bytes} {taken : List Bytes} {d : FrameDecoder}

theorem fresh (max : Nat) : Rebuilds max [] [] (new max) where
  bytes := by simp [encodeFrames, held, rest, new]
  sized := ⟨by simp [new], by simp [new]⟩
  bounded := bounded_new max
  limit := rfl
  taken := by simp

theorem consume (h : Rebuilds max w taken d) (b : Bytes) :
    Rebuilds max (w ++ b) taken (d.consume b).2 := by
  obtain ⟨hheld, hsized⟩ := drained_held (d.feed b) ⟨h.sized.needed, h.sized.messages⟩
  obtain ⟨-, hbounded, hlimit⟩ := drained_size (d.feed b) (h.bounded.feed b)
  refine ⟨?_, hsized, hbounded, hlimit.trans h.limit, h.taken⟩
  rw [FrameDecoder.consume, hheld, held_feed, h.bytes, List.append_assoc]

theorem takeMessage (h : Rebuilds max w taken d) (hm : d.hasMessage = true) :
    Rebuilds max w (taken ++ [d.takeMessage.1]) d.takeMessage.2 := by
  cases hms : d.messages with
  | nil => simp [hasMessage, hms] at hm
  | cons m ms =>
      have hsized : ∀ m' ∈ m :: ms, m'.length < 2 ^ 32 := hms ▸ h.sized.messages
      have hlen : m.length ≤ max := by
        rw [← h.limit]
        exact h.bounded.messages m (by simp [hms])
      refine ⟨?_, ⟨h.sized.needed, ?_⟩, h.bounded.takeMessage, h.limit, ?_⟩
      · rw [h.bytes]
        simp [held, rest, encodeFrames, FrameDecoder.takeMessage, hms]
      · intro m' hm'
        refine hsized m' (List.mem_cons_of_mem _ ?_)
        simpa [FrameDecoder.takeMessage, hms] using hm'
      · intro m' hm'
        rcases List.mem_append.mp hm' with hm' | hm'
        · exact h.taken m' hm'
        · obtain rfl := List.mem_singleton.mp hm'
          simpa [FrameDecoder.takeMessage, hms] using hlen

theorem uses (h : Rebuilds max w taken d) (us : List Use) :
    Rebuilds max (w ++ fed us) (taken ++ (d.uses us).2.1) (d.uses us).2.2 := by
  induction us generalizing w taken d with
  | nil => simpa [FrameDecoder.uses, fed] using h
  | cons u us ih =>
      cases u with
      | consume data => simpa [FrameDecoder.uses, fed] using ih (h.consume data)
      | take =>
          by_cases hm : d.hasMessage = true
          · simpa [FrameDecoder.uses, fed, hm] using ih (h.takeMessage hm)
          · simpa [FrameDecoder.uses, fed, hm] using ih h

end Rebuilds

/-- After every sequence of `Consume` and `TakeMessage`: the bytes fed are the frames of the messages
    taken and queued, then the parsed prefix, then `buffer_`; no message is above the limit; and a
    `Consume` that returns OK leaves less than the payload, or less than a prefix. -/
theorem decoder_rebuilds_input (max : Nat) (us : List Use) :
    let r := (new max).uses us
    let taken := r.2.1
    let d := r.2.2
    fed us = encodeFrames (taken ++ d.messages) ++ (d.parsedPrefix ++ d.buffer) ∧
      d.needed < 2 ^ 32 ∧ (∀ m ∈ taken ++ d.messages, m.length ≤ max) ∧
      ∀ data, (d.consume data).1.ok = true →
        if (d.consume data).2.haveHeader then
          (d.consume data).2.buffer.length < (d.consume data).2.needed
        else (d.consume data).2.buffer.length < kPrefixLen := by
  have h := (Rebuilds.fresh max).uses us
  rw [List.nil_append, List.nil_append] at h
  refine ⟨?_, h.sized.needed, ?_, fun data => (drained_stopped _).waits⟩
  · have hbytes := h.bytes
    simpa [held, rest_eq, encodeFrames, List.append_assoc] using hbytes
  · intro m hm
    rcases List.mem_append.mp hm with hm | hm
    · exact h.taken m hm
    · rw [← h.limit]
      exact h.bounded.messages m hm

end FrameDecoder

end Urpc
