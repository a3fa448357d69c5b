/-
  The body provider (`BodyRead2` of `urpc_h2_session.cc`), call after call.

  nghttp2 chooses the length of its buffer anew for every call. `bodyReads` makes one call for each
  length, also after the end of the body was flagged. `Ends` says what `BodyRead2` can do: stop
  short of the end, or return all that is left, flag the end and hand over the notification.

  Proved: `body_read_exact`.
-/
import Urpc.Session.Sender

namespace Urpc

open Cxx

variable {ν : Type}

/-- What one call of `BodyRead2` was asked for and gave. -/
structure ReadCall (ν : Type) where
  length : Nat
  bytes : Bytes
  eof : Bool
  note : Option ν
  deriving DecidableEq

/-- A call for each length, in order. -/
def bodyReads (body : PendingBody ν) : List Nat → List (ReadCall ν)
  | [] => []
  | n :: lengths =>
      let (bytes, eof, body', note) := bodyRead2 n body
      ⟨n, bytes, eof, note⟩ :: bodyReads body' lengths

/-- The bytes that the calls returned. -/
def readBytes (calls : List (ReadCall ν)) : Bytes := calls.flatMap ReadCall.bytes

/-- The call `c` that follows calls without the end: what it returns, flags and hands over, when
    `rest` was to be read and `note` to be handed over. -/
structure Ends (rest : Bytes) (note : Option ν) (before : List (ReadCall ν)) (c : ReadCall ν)
    (after : List (ReadCall ν)) : Prop where
  flags : c.eof = true ↔ readBytes (before ++ [c]) = rest
  last : c.eof = true → rest ≠ [] → c.bytes ≠ []
  empty : c.eof = true → rest = [] → before = []
  hands : c.note = if c.eof then note else none
  done : c.eof = true → ∀ a ∈ after, a.bytes = [] ∧ a.note = none

theorem PendingBody.rest_length (body : PendingBody ν) :
    body.rest.length = body.data.length - body.offset := by
  rw [PendingBody.rest, List.length_drop]

/-- After the call that flags the end. -/
theorem PendingBody.rest_of_end (body : PendingBody ν) :
    ({ body with offset := body.offset + body.rest.length, onConsumed := none } :
      PendingBody ν).rest = [] := by
  have hlen := body.rest_length
  rw [PendingBody.rest, List.drop_eq_nil_iff]
  simp only
  omega

theorem bodyReads_length_le (body : PendingBody ν) (lengths : List Nat) :
    ∀ c ∈ bodyReads body lengths, c.bytes.length ≤ c.length := by
  induction lengths generalizing body with
  | nil => simp [bodyReads]
  | cons n lengths ih =>
      rcases Sender.bodyRead2_cases n body with ⟨-, hr⟩ | ⟨hle, hr⟩
      · simp only [bodyReads, hr, List.forall_mem_cons]
        exact ⟨List.length_take_le _ _, ih _⟩
      · simp only [bodyReads, hr, List.forall_mem_cons]
        exact ⟨hle, ih _⟩

/-- A body that was read to its end has nothing more to give. -/
theorem bodyReads_drained {body : PendingBody ν} (hrest : body.rest = [])
    (hnote : body.onConsumed = none) (lengths : List Nat) :
    ∀ c ∈ bodyReads body lengths, c.bytes = [] ∧ c.note = none := by
  induction lengths generalizing body with
  | nil => simp [bodyReads]
  | cons n lengths ih =>
      rcases Sender.bodyRead2_cases n body with ⟨hlt, -⟩ | ⟨-, hr⟩
      · have hlen := body.rest_length
        rw [hrest, List.length_nil] at hlen
        omega
      · simp only [bodyReads, hr, List.forall_mem_cons]
        exact ⟨⟨hrest, hnote⟩, ih body.rest_of_end rfl⟩

/-- The calls of a run, one by one. -/
theorem ends_of_bodyReads (body : PendingBody ν) (lengths : List Nat) (hpos : ∀ n ∈ lengths, 0 < n)
    (before after : List (ReadCall ν)) (c : ReadCall ν)
    (hcalls : bodyReads body lengths = before ++ c :: after)
    (hopen : ∀ b ∈ before, b.eof = false) :
    Ends body.rest body.onConsumed before c after := by
  induction lengths generalizing body before with
  | nil => cases before <;> cases hcalls
  | cons n lengths ih =>
      have hn : 0 < n := hpos n List.mem_cons_self
      have hlen := body.rest_length
      rcases Sender.bodyRead2_cases n body with ⟨hlt, hr⟩ | ⟨-, hr⟩
      · -- stopped short: the rest is longer than what was returned
        have hsplit : body.rest.take n ++ body.rest.drop n = body.rest :=
          List.take_append_drop n body.rest
        have hmore : body.rest.take n ≠ body.rest := by
          intro heq
          have := congrArg List.length heq
          rw [List.length_take] at this
          omega
        have hnext : ({ body with offset := body.offset + n } : PendingBody ν).rest =
            body.rest.drop n := by
          simp [PendingBody.rest, List.drop_drop]
        simp only [bodyReads, hr] at hcalls
        cases before with
        | nil =>
            obtain ⟨rfl, -⟩ := List.cons.inj hcalls
            exact ⟨by simp [readBytes, hmore], (by simp), (by simp), rfl, (by simp)⟩
        | cons b before =>
            obtain ⟨rfl, htail⟩ := List.cons.inj hcalls
            have hrest := ih _ (fun m hm => hpos m (List.mem_cons_of_mem n hm)) before htail
              fun b hb => hopen b (List.mem_cons_of_mem _ hb)
            rw [hnext] at hrest
            refine ⟨?_, fun he _ => hrest.last he ?_, fun _ hnil => ?_, hrest.hands, hrest.done⟩
            · rw [hrest.flags, ← List.append_cancel_left_eq (body.rest.take n), hsplit]
              rfl
            · intro hnil
              rw [hnil, List.append_nil] at hsplit
              exact hmore hsplit
            · rw [hnil, List.take_nil] at hmore
              exact absurd rfl hmore
      · simp only [bodyReads, hr] at hcalls
        cases before with
        | nil =>
            obtain ⟨rfl, rfl⟩ := List.cons.inj hcalls
            exact ⟨by simp [readBytes], fun _ h => h, fun _ _ => rfl, rfl,
              fun _ => bodyReads_drained body.rest_of_end rfl lengths⟩
        | cons b before =>
            obtain ⟨rfl, -⟩ := List.cons.inj hcalls
            cases hopen _ List.mem_cons_self

/-- Buffers for the whole body reach its end. -/
theorem bodyReads_reaches (body : PendingBody ν) (lengths : List Nat) (hne : lengths ≠ [])
    (hsum : body.rest.length ≤ lengths.sum) : ∃ c ∈ bodyReads body lengths, c.eof = true := by
  induction lengths generalizing body with
  | nil => exact absurd rfl hne
  | cons n lengths ih =>
      have hlen := body.rest_length
      rcases Sender.bodyRead2_cases n body with ⟨hlt, hr⟩ | ⟨-, hr⟩
      · rw [List.sum_cons] at hsum
        have hrest : ({ body with offset := body.offset + n } : PendingBody ν).rest.length =
            body.rest.length - n := by
          simp [PendingBody.rest, Nat.sub_add_eq]
        obtain ⟨c, hc, he⟩ := ih { body with offset := body.offset + n }
          (by rintro rfl; simp at hsum; omega) (by omega)
        exact ⟨c, by simpa [bodyReads, hr] using .inr hc, he⟩
      · rw [bodyReads, hr]
        exact ⟨_, List.mem_cons_self, rfl⟩

/-- For every body, notification and sequence of positive buffer lengths: no call returns more than
    it was asked for; the first call that flags the end is the one that returns the last byte, or
    the first call of all for an empty body, and the bytes up to it are the body; that call and no
    other hands over the notification; and calls whose lengths cover the body flag the end. -/
theorem body_read_exact (data : Bytes) (note : Option ν) (lengths : List Nat)
    (hpos : ∀ n ∈ lengths, 0 < n) :
    (∀ c ∈ bodyReads { data, onConsumed := note } lengths, c.bytes.length ≤ c.length) ∧
    (∀ before c after, bodyReads { data, onConsumed := note } lengths = before ++ c :: after →
      (∀ b ∈ before, b.eof = false) → Ends data note before c after) ∧
    (lengths ≠ [] → data.length ≤ lengths.sum →
      ∃ c ∈ bodyReads { data, onConsumed := note } lengths, c.eof = true) :=
  ⟨bodyReads_length_le _ lengths,
    fun before c after hcalls hopen => ends_of_bodyReads _ lengths hpos before after c hcalls hopen,
    fun hne hsum => bodyReads_reaches _ lengths hne hsum⟩

/-- Three bytes by buffers of two, and one call too many. -/
theorem body_read_exact_three :
    bodyReads { data := [1, 2, 3], onConsumed := some () } [2, 2, 2] =
        [⟨2, [1, 2], false, none⟩] ++ ⟨2, [3], true, some ()⟩ :: [⟨2, [], true, none⟩] ∧
      Ends [1, 2, 3] (some ()) [⟨2, [1, 2], false, none⟩] ⟨2, [3], true, some ()⟩
        [⟨2, [], true, none⟩] :=
  ⟨rfl, (body_read_exact [1, 2, 3] (some ()) [2, 2, 2] (by decide)).2.1 _ _ _ rfl (by decide)⟩

end Urpc
