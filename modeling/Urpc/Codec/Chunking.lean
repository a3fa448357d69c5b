/-
  The decoder on any input, malformed input included.

  `drained_feed`: whether the loop of `Consume` stopped with OK or with an error, more bytes go
  on as if they had been there at once. So a decoder is what a fresh one makes of all the bytes
  it was fed (`Replay`), also after errors, and a rejection is repeated for ever.

  Proved: `chunking_irrelevant` (two ways to cut the same bytes give the same messages and the
  same final status; after an error nothing but that error).
-/
import Urpc.Codec.RoundTrip

namespace Urpc

open Cxx

namespace FrameDecoder

/-- A rejected prefix stays in the buffer and is rejected again. -/
theorem readPrefix_again {d d' : FrameDecoder} {st : Status}
    (h : d.readPrefix = (some st, d')) : d'.readPrefix = (some st, d') := by
  unfold readPrefix at h
  split at h
  · cases h
  · next hh =>
      split at h
      · next p0 p1 p2 p3 p4 rest hb =>
          split at h
          · next hp0 =>
              obtain ⟨h1, rfl⟩ := Prod.mk.inj h
              simp [readPrefix, hh, hb, hp0, ← h1]
          · next hp0 =>
              simp only at h
              split at h
              · next hgt =>
                  obtain ⟨h1, rfl⟩ := Prod.mk.inj h
                  simp [readPrefix, hh, hb, hp0, hgt, ← h1]
              · cases h
      · next hb =>
          obtain ⟨h1, rfl⟩ := Prod.mk.inj h
          rw [← h1]
          unfold readPrefix
          rw [if_neg hh]
          split
          · next p0 p1 p2 p3 p4 rest hbuf => exact absurd hbuf (hb p0 p1 p2 p3 p4 rest)
          · rfl

/-- A trip that returned returns the same again. -/
theorem pass_again {d d' : FrameDecoder} {st : Status} (h : d.pass = (some st, d')) :
    d'.pass = (some st, d') := by
  rcases pass_some h with he | ⟨e, he, hp⟩
  · simp only [pass, readPrefix_again he]
  · obtain ⟨-, rfl, -⟩ := takePayload_some hp
    have hself : d'.readPrefix = (none, d') := by simp [readPrefix, (readPrefix_none he).1]
    simp only [pass, hself, hp]

/-- What the loop left is left as it is by the loop. -/
theorem drained_drained (d : FrameDecoder) : d.drained.2.drained = d.drained := by
  induction d using drained_induct with
  | h d ih =>
      rw [drained_eq d]
      cases hp : d.pass with
      | mk o d' =>
          cases o with
          | none => exact ih d' hp
          | some st => rw [drained_eq, pass_again hp]

/-- The loop goes on from where it stopped, whatever it returned. -/
theorem drained_feed (d : FrameDecoder) (b : Bytes) :
    (d.feed b).drained = (d.drained.2.feed b).drained := by
  cases hok : d.drained.1.ok with
  | true => exact drained_feed_of_ok d b hok
  | false =>
      have hagain : d.drained.2.drained.1.ok = false := by rw [drained_drained, hok]
      rw [drained_feed_of_err d b hok, drained_feed_of_err _ b hagain, drained_drained]

theorem consume_append (d : FrameDecoder) (a b : Bytes) :
    d.consume (a ++ b) = (d.consume a).2.consume b := by
  unfold consume
  rw [← feed_feed]
  exact drained_feed _ b

/-- After a rejection nothing is decoded any more; the bytes pile up in the buffer. -/
theorem consume_append_of_err {d : FrameDecoder} {a : Bytes} (h : (d.consume a).1.ok = false)
    (b : Bytes) : d.consume (a ++ b) = ((d.consume a).1, (d.consume a).2.feed b) := by
  unfold consume at h ⊢
  rw [← feed_feed]
  exact drained_feed_of_err _ _ h

theorem new_consume_nil (max : Nat) : (new max).consume [] = (.okay, new max) := by
  rw [consume, feed_nil, drained_eq]
  rfl

theorem consume_untake (d : FrameDecoder) (taken : List Bytes) (b : Bytes) :
    (d.untake taken).consume b = ((d.consume b).1, (d.consume b).2.untake taken) :=
  drained_untake taken (d.feed b)

/-! ## What a decoder is, errors included -/

/-- Apart from the messages `taken` out, `d` is a fresh decoder that was fed `w`. -/
def Replay (max : Nat) (w : Bytes) (taken : List Bytes) (d : FrameDecoder) : Prop :=
  d.untake taken = ((new max).consume w).2

namespace Replay

variable {max : Nat} {w : Bytes} {taken : List Bytes} {d : FrameDecoder}

theorem fresh (max : Nat) : Replay max [] [] (new max) := by
  rw [Replay, new_consume_nil]
  rfl

theorem messages_eq (h : Replay max w taken d) :
    taken ++ d.messages = ((new max).consume w).2.messages :=
  congrArg FrameDecoder.messages h

theorem consume (h : Replay max w taken d) (b : Bytes) :
    (d.consume b).1 = ((new max).consume (w ++ b)).1 ∧
      Replay max (w ++ b) taken (d.consume b).2 := by
  have hall : (new max).consume (w ++ b) =
      ((d.consume b).1, (d.consume b).2.untake taken) := by
    rw [consume_append, ← show d.untake taken = ((new max).consume w).2 from h, consume_untake]
  exact ⟨by rw [hall], by unfold Replay; rw [hall]⟩

theorem takeMessage (h : Replay max w taken d) (hm : d.hasMessage = true) :
    Replay max w (taken ++ [d.takeMessage.1]) d.takeMessage.2 := by
  obtain ⟨m, ms, hms⟩ : ∃ m ms, d.messages = m :: ms := by
    cases hd : d.messages with
    | nil => simp [hasMessage, hd] at hm
    | cons m ms => exact ⟨m, ms, rfl⟩
  unfold Replay at h ⊢
  rw [← h]
  simp [untake, FrameDecoder.takeMessage, hms]

/-- A schedule of `Consume` and `TakeMessage`: its last status and what it leaves are those of
    one `Consume` of all the bytes. -/
theorem uses (h : Replay max w taken d) (us : List Use) :
    (d.uses us).1.getLastD ((new max).consume w).1 = ((new max).consume (w ++ fed us)).1 ∧
      Replay max (w ++ fed us) (taken ++ (d.uses us).2.1) (d.uses us).2.2 := by
  induction us generalizing w taken d with
  | nil => simpa [FrameDecoder.uses, fed] using h
  | cons u us ih =>
      cases u with
      | consume data =>
          obtain ⟨hst, hd⟩ := h.consume data
          simp only [FrameDecoder.uses, fed, List.getLastD_cons, hst, ← List.append_assoc]
          exact ih hd
      | take =>
          by_cases hm : d.hasMessage = true
          · simp only [FrameDecoder.uses, if_pos hm, fed]
            obtain ⟨hst, hd⟩ := ih (h.takeMessage hm)
            exact ⟨hst, by simpa [List.append_assoc] using hd⟩
          · simp only [FrameDecoder.uses, if_neg hm, fed]
            exact ih h

/-- After a rejection every `Consume` returns it again. -/
theorem uses_rejected {st : Status} (h : Replay max w taken d)
    (hst : ((new max).consume w).1 = st) (herr : st.ok = false) (us : List Use) :
    ∀ st' ∈ (d.uses us).1, st' = st := by
  induction us generalizing w taken d with
  | nil => simp [FrameDecoder.uses]
  | cons u us ih =>
      cases u with
      | consume data =>
          obtain ⟨hfirst, hd⟩ := h.consume data
          have hagain : ((new max).consume (w ++ data)).1 = st := by
            subst hst
            rw [consume_append_of_err herr]
          intro st' hmem
          rcases List.mem_cons.mp hmem with rfl | hmem
          · exact hfirst.trans hagain
          · exact ih hd hagain st' hmem
      | take =>
          by_cases hm : d.hasMessage = true
          · simp only [FrameDecoder.uses, if_pos hm]
            exact ih (h.takeMessage hm) hst
          · simp only [FrameDecoder.uses, if_neg hm]
            exact ih h hst

end Replay

/-- **Decoding does not depend on chunking and errors are sticky.** Two schedules that feed the
    same bytes to a fresh decoder, cut in any two ways and with messages taken at any moments,
    give the same messages and the same final status. After a `Consume` that returned an error,
    in any schedule, every later one returns that error and no message is added. -/
theorem chunking_irrelevant (max : Nat) (us : List Use) :
    (∀ vs, fed vs = fed us →
      ((new max).uses vs).2.1 ++ ((new max).uses vs).2.2.messages =
        ((new max).uses us).2.1 ++ ((new max).uses us).2.2.messages ∧
      ((new max).uses vs).1.getLastD .okay = ((new max).uses us).1.getLastD .okay) ∧
    ∀ data later st d, ((new max).uses us).2.2.consume data = (st, d) → st.ok = false →
      (∀ st' ∈ (d.uses later).1, st' = st) ∧
      (d.uses later).2.1 ++ (d.uses later).2.2.messages = d.messages := by
  have hfirst : ((new max).consume []).1 = .okay := by rw [new_consume_nil]
  obtain ⟨hst, hd⟩ := (Replay.fresh max).uses us
  rw [hfirst, List.nil_append] at hst
  rw [List.nil_append] at hd
  refine ⟨fun vs hfed => ?_, fun data later st d hrej herr => ?_⟩
  · obtain ⟨hst', hd'⟩ := (Replay.fresh max).uses vs
    rw [hfirst, List.nil_append, hfed] at hst'
    rw [List.nil_append, hfed] at hd'
    exact ⟨hd'.messages_eq.trans hd.messages_eq.symm, hst'.trans hst.symm⟩
  · obtain ⟨hst', hd'⟩ := hd.consume data
    rw [hrej] at hst' hd'
    refine ⟨hd'.uses_rejected hst'.symm herr later, ?_⟩
    have hall := (hd'.uses later).2.messages_eq
    have hmore : ((new max).consume (fed us ++ data ++ fed later)).2.messages =
        ((new max).consume (fed us ++ data)).2.messages := by
      rw [consume_append_of_err (by rw [← hst', herr])]
      rfl
    rw [hmore, ← hd'.messages_eq, List.append_assoc] at hall
    exact List.append_cancel_left hall

/-- A good frame and a bad flag byte, at once and byte by byte. -/
theorem chunking_irrelevant_bytes :
    ((new 8).uses [.consume [0, 0, 0, 0, 1, 7, 1, 0, 0, 0, 0]]).1.getLastD .okay =
        compressedStatus ∧
      ((new 8).uses [.consume [0, 0, 0], .consume [0, 1], .take, .consume [7, 1, 0, 0], .take,
        .consume [0], .consume [0]]).1.getLastD .okay = compressedStatus := by
  have hsame := ((chunking_irrelevant 8 [.consume [0, 0, 0, 0, 1, 7, 1, 0, 0, 0, 0]]).1
    [.consume [0, 0, 0], .consume [0, 1], .take, .consume [7, 1, 0, 0], .take, .consume [0],
      .consume [0]] (by decide)).2
  have hone : ((new 8).uses [.consume [0, 0, 0, 0, 1, 7, 1, 0, 0, 0, 0]]).1.getLastD .okay =
      compressedStatus := by decide
  exact ⟨hone, hsame.trans hone⟩

end FrameDecoder

end Urpc
