/-
  How many bytes a decoder keeps.

  `size` counts the buffer and the messages not taken yet. The loop of `Consume` never adds to
  it (`drained_size`), every message fits the limit (`Bounded`), and when it stops with OK what
  is left in the buffer is less than the limit or a prefix (`drained_short`). After an error
  nothing of the kind holds: the buffer keeps all that is fed.
-/
import Urpc.Codec.Chunking

namespace Urpc

open Cxx

namespace FrameDecoder

def size (d : FrameDecoder) : Nat := d.buffer.length + (d.messages.map List.length).sum

/-- The limit is kept. -/
structure Bounded (d : FrameDecoder) : Prop where
  needed : d.needed ≤ d.maxMessageSize
  messages : ∀ m ∈ d.messages, m.length ≤ d.maxMessageSize

theorem bounded_new (max : Nat) : Bounded (new max) := ⟨Nat.zero_le _, by simp [new]⟩

theorem Bounded.feed {d : FrameDecoder} (h : Bounded d) (b : Bytes) : Bounded (d.feed b) :=
  ⟨h.needed, h.messages⟩

theorem Bounded.takeMessage {d : FrameDecoder} (h : Bounded d) : Bounded d.takeMessage.2 :=
  ⟨h.needed, fun m hm => h.messages m (List.mem_of_mem_tail hm)⟩

/-- Parsing a prefix keeps the limit and adds no byte. -/
theorem readPrefix_size {d e : FrameDecoder} {o : Option Status} (hb : Bounded d)
    (h : d.readPrefix = (o, e)) :
    e.size ≤ d.size ∧ Bounded e ∧ e.maxMessageSize = d.maxMessageSize := by
  cases o with
  | none =>
      obtain ⟨-, ⟨-, rfl⟩ | ⟨-, p1, p2, p3, p4, hbuf, hle, he⟩⟩ := readPrefix_none h
      · exact ⟨Nat.le_refl _, hb, rfl⟩
      · have hsize : e.size ≤ d.size := by
          have hlen := congrArg List.length hbuf
          have hmsgs : e.messages = d.messages := by rw [he]
          simp only [List.length_cons] at hlen
          simp only [size, hmsgs]
          omega
        exact ⟨hsize, by rw [he]; exact ⟨hle, hb.messages⟩, by rw [he]⟩
  | some st =>
      obtain ⟨-, he, -⟩ := readPrefix_some h
      rw [he]
      exact ⟨Nat.le_refl _, ⟨hb.needed, hb.messages⟩, rfl⟩

/-- Cutting a message off moves its bytes. -/
theorem takePayload_size {d e : FrameDecoder} {o : Option Status} (hb : Bounded d)
    (h : d.takePayload = (o, e)) :
    e.size ≤ d.size ∧ Bounded e ∧ e.maxMessageSize = d.maxMessageSize := by
  cases o with
  | none =>
      obtain ⟨hle, rfl⟩ := takePayload_none h
      refine ⟨?_, ⟨Nat.zero_le _, ?_⟩, rfl⟩
      · simp only [size, List.map_append, List.sum_append, List.map_cons, List.map_nil,
          List.sum_cons, List.sum_nil, List.length_take, List.length_drop]
        omega
      · intro m hm
        rcases List.mem_append.mp hm with hm | hm
        · exact hb.messages m hm
        · obtain rfl := List.mem_singleton.mp hm
          have := hb.needed
          simp only [List.length_take]
          omega
  | some st =>
      obtain ⟨-, rfl, -⟩ := takePayload_some h
      exact ⟨Nat.le_refl _, hb, rfl⟩

theorem pass_size {d e : FrameDecoder} {o : Option Status} (hb : Bounded d)
    (h : d.pass = (o, e)) :
    e.size ≤ d.size ∧ Bounded e ∧ e.maxMessageSize = d.maxMessageSize := by
  have htwo : ∀ {f}, d.readPrefix = (none, f) → f.takePayload = (o, e) →
      e.size ≤ d.size ∧ Bounded e ∧ e.maxMessageSize = d.maxMessageSize := by
    intro f hf hp
    obtain ⟨hs, hb', hm⟩ := readPrefix_size hb hf
    obtain ⟨hs', hb'', hm'⟩ := takePayload_size hb' hp
    exact ⟨Nat.le_trans hs' hs, hb'', hm'.trans hm⟩
  cases o with
  | none =>
      obtain ⟨f, hf, hp⟩ := pass_none h
      exact htwo hf hp
  | some st =>
      rcases pass_some h with hr | ⟨f, hf, hp⟩
      · exact readPrefix_size hb hr
      · exact htwo hf hp

/-- The loop of `Consume` keeps the limit and adds no byte. -/
theorem drained_size (d : FrameDecoder) (hb : Bounded d) :
    d.drained.2.size ≤ d.size ∧ Bounded d.drained.2 ∧
      d.drained.2.maxMessageSize = d.maxMessageSize := by
  induction d using drained_induct with
  | h d ih =>
      rw [drained_eq d]
      cases hp : d.pass with
      | mk o e =>
          obtain ⟨hs, hb', hm⟩ := pass_size hb hp
          cases o with
          | none =>
              obtain ⟨hs', hb'', hm'⟩ := ih e hp hb'
              exact ⟨Nat.le_trans hs' hs, hb'', hm'.trans hm⟩
          | some st => exact ⟨hs, hb', hm⟩

/-- A trip that stops with OK leaves less than a message, or less than a prefix. -/
theorem pass_short {d e : FrameDecoder} {st : Status} (hb : Bounded d)
    (h : d.pass = (some st, e)) (hok : st.ok = true) :
    e.buffer.length < max d.maxMessageSize kPrefixLen := by
  rcases pass_some h with hr | ⟨f, hf, hp⟩
  · obtain ⟨-, -, ⟨-, rfl, hlt⟩ | ⟨herr, -⟩⟩ := readPrefix_some hr
    · omega
    · rw [hok] at herr
      cases herr
  · obtain ⟨-, hb', hm⟩ := readPrefix_size hb hf
    obtain ⟨-, rfl, hlt⟩ := takePayload_some hp
    have := hb'.needed
    omega

theorem drained_short (d : FrameDecoder) (hb : Bounded d) (hok : d.drained.1.ok = true) :
    d.drained.2.buffer.length < max d.maxMessageSize kPrefixLen := by
  induction d using drained_induct with
  | h d ih =>
      rw [drained_eq d] at hok ⊢
      cases hp : d.pass with
      | mk o e =>
          rw [hp] at hok
          cases o with
          | none =>
              obtain ⟨-, hb', hm⟩ := pass_size hb hp
              rw [← hm]
              exact ih e hp hb' hok
          | some st => exact pass_short hb hp hok

theorem size_feed (d : FrameDecoder) (b : Bytes) : (d.feed b).size = d.size + b.length := by
  simp only [size, feed, List.length_append]
  omega

/-- Taking a message gives its bytes away. -/
theorem size_takeMessage {d : FrameDecoder} (h : d.hasMessage = true) :
    d.takeMessage.2.size + d.takeMessage.1.length = d.size := by
  cases hm : d.messages with
  | nil => simp [hasMessage, hm] at h
  | cons m ms =>
      simp only [size, takeMessage, hm, List.tail_cons, List.headD_cons, List.map_cons,
        List.sum_cons]
      omega

/-- Taking a message does not change what the buffer is worth. -/
theorem drained_takeMessage (d : FrameDecoder) (h : d.hasMessage = true) :
    d.takeMessage.2.drained.1 = d.drained.1 := by
  have hback : d.takeMessage.2.untake [d.takeMessage.1] = d.untake [] := by
    cases hm : d.messages with
    | nil => simp [hasMessage, hm] at h
    | cons m ms => simp [untake, takeMessage, hm]
  have h1 := drained_untake [d.takeMessage.1] d.takeMessage.2
  rw [hback, drained_untake [] d] at h1
  exact (congrArg Prod.fst h1).symm

end FrameDecoder

end Urpc
