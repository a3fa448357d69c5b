/-
  The sending side of one HTTP/2 stream: what `H2Session` (`urpc_h2_session.cc`) submits and
  what nghttp2 makes of it.

  `SendHeaders`, `SendData`, `SendTrailers` hand frames to nghttp2 and flush. nghttp2 is
  assumed to do this, per stream:

  * a header block goes out at once, unless the sending side has ended or the stream closed;
  * one DATA item at a time: `nghttp2_submit_data2` refuses a second one, one on an ended
    sending side and one on a closed stream, and `SendData` ignores the refusal;
  * a DATA item is read by `BodyRead2` as far as the window allows, not at all at window zero;
  * trailers submitted while a DATA item is unread end the sending side without the rest.

  `Sender ν` is that state, generic in the notifications `ν` that a consumed body queues.
  `wire` is everything the peer will see, in order. `subs`, `lost`, `overtook` and `crowded`
  are records kept for the proofs: the submissions made, the bodies destroyed by the stream's
  close, and whether trailers, or a body, were ever submitted with a body not read to its end.
-/
import Urpc.Codec.Frame

namespace Urpc

open Cxx

/-- A submission to the session. -/
inductive Submission where
  | headers (fields : HeaderMap) (endStream : Bool)
  | data (body : Bytes) (endStream : Bool)
  | trailers (fields : HeaderMap)
  | reset
  deriving DecidableEq

/-- Trailers, or a HEADERS block with END_STREAM. -/
def Submission.isTerminal : Submission → Bool
  | .headers _ endStream => endStream
  | .trailers _ => true
  | _ => false

/-- The fields of a header block. -/
def Submission.fields : Submission → HeaderMap
  | .headers fields _ | .trailers fields => fields
  | _ => []

/-- The terminal blocks among submissions. -/
def terminals (subs : List Submission) : List Submission := subs.filter Submission.isTerminal

/-- What crosses the wire on one stream: a header block, one byte of DATA, or the END_STREAM
    flag of a DATA frame. -/
inductive Atom where
  | block (fields : HeaderMap) (endStream : Bool)
  | byte (b : UInt8)
  | endStream
  deriving DecidableEq

/-- The DATA bytes among them. -/
def wireBytes : List Atom → Bytes
  | [] => []
  | .byte b :: w => b :: wireBytes w
  | _ :: w => wireBytes w

/-- The DATA bodies among submissions. -/
def bodies : List Submission → List Bytes
  | [] => []
  | .data body _ :: subs => body :: bodies subs
  | _ :: subs => bodies subs

@[simp] theorem wireBytes_append (v w : List Atom) :
    wireBytes (v ++ w) = wireBytes v ++ wireBytes w := by
  induction v with
  | nil => rfl
  | cons a v ih => cases a <;> simp [wireBytes, ih]

@[simp] theorem wireBytes_bytes (bs : Bytes) : wireBytes (bs.map .byte) = bs := by
  induction bs with
  | nil => rfl
  | cons b bs ih => simp [wireBytes, ih]

@[simp] theorem bodies_append (v w : List Submission) :
    bodies (v ++ w) = bodies v ++ bodies w := by
  induction v with
  | nil => rfl
  | cons a v ih => cases a <;> simp [bodies, ih]

structure PendingBody (ν : Type) where
  data : Bytes
  offset : Nat := 0
  endStream : Bool := false        -- the flag given to `nghttp2_submit_data2`
  onConsumed : Option ν := none
  eof : Bool := false              -- record: EOF was flagged

/-- What `BodyRead2` has not handed over yet. -/
def PendingBody.rest {ν : Type} (body : PendingBody ν) : Bytes := body.data.drop body.offset

/-- `BodyRead2`: the bytes returned, is EOF flagged, the body after the call and the
    notification queued. -/
def bodyRead2 {ν : Type} (length : Nat) (body : PendingBody ν) :
    Bytes × Bool × PendingBody ν × Option ν :=
  let remaining := body.data.length - body.offset
  if remaining = 0 then ([], true, { body with onConsumed := none }, body.onConsumed)
  else
    let chunk := if remaining < length then remaining else length
    let offset := body.offset + chunk
    if offset = body.data.length then
      (body.rest.take chunk, true, { body with offset, onConsumed := none }, body.onConsumed)
    else (body.rest.take chunk, false, { body with offset }, none)

structure Sender (ν : Type) where
  subs : List Submission := []
  item : Option (PendingBody ν) := none     -- the DATA item nghttp2 holds
  retained : List (PendingBody ν) := []     -- the other bodies of `pending_bodies`
  lost : List (PendingBody ν) := []
  notes : List ν := []                      -- `consumed_notifications`
  read : List (ν × Bytes) := []             -- record: bodies read to the end
  window : Nat := 0
  wire : List Atom := []
  ended : Bool := false                     -- END_STREAM sent
  closed : Bool := false                    -- the stream's close was reported
  overtook : Bool := false
  crowded : Bool := false

namespace Sender

variable {ν : Type}

/-- `nghttp2_session_send` on the stream's DATA item: `BodyRead2` until the window is used up
    or the body ends. -/
def pull (s : Sender ν) : Sender ν :=
  match s.item with
  | none => s
  | some body =>
      if s.window = 0 then s
      else
        let (chunk, eof, body', note) := bodyRead2 s.window body
        let s : Sender ν := { s with
          wire := s.wire ++ chunk.map .byte
          window := s.window - chunk.length
          notes := s.notes ++ note.toList
          read := s.read ++ note.toList.map fun n => (n, body.data) }
        if eof then
          { s with
            item := none
            retained := s.retained ++ [{ body' with eof := true }]
            wire := s.wire ++ if body'.endStream then [Atom.endStream] else []
            ended := s.ended || body'.endStream }
        else { s with item := some body' }

/-- `SendHeaders`. -/
def sendHeaders (s : Sender ν) (fields : HeaderMap) (endStream : Bool) : Sender ν :=
  let s : Sender ν := { s with subs := s.subs ++ [.headers fields endStream] }
  if s.closed || s.ended then s
  else { s with wire := s.wire ++ [.block fields endStream], ended := endStream }

/-- Bodies given to `SendData` and not read to their end. -/
def unread (s : Sender ν) : List (PendingBody ν) :=
  (s.lost ++ s.retained).filter (fun body => !body.eof) ++ s.item.toList

/-- `SendData`. A refused body stays in `pending_bodies`. -/
def sendData (s : Sender ν) (data : Bytes) (endStream : Bool) (onConsumed : Option ν) :
    Sender ν :=
  let body : PendingBody ν := { data, endStream, onConsumed }
  let s : Sender ν := { s with
    subs := s.subs ++ [.data data endStream]
    crowded := s.crowded || !s.unread.isEmpty }
  if s.closed || s.ended || s.item.isSome then { s with retained := s.retained ++ [body] }
  else pull { s with item := some body }

/-- `SendTrailers`. -/
def sendTrailers (s : Sender ν) (fields : HeaderMap) : Sender ν :=
  let s : Sender ν := { s with
    subs := s.subs ++ [.trailers fields]
    overtook := s.overtook || !s.unread.isEmpty }
  if s.closed || s.ended then s
  else { s with
    wire := s.wire ++ [.block fields true]
    ended := true
    retained := s.retained ++ s.item.toList
    item := none }

/-- Window credit: from now on nghttp2 may send `n` bytes. -/
def credit (s : Sender ν) (n : Nat) : Sender ν := pull { s with window := n }

/-- `OnStreamCloseCb`, the session's part: `pending_bodies` drops the stream. -/
def close (s : Sender ν) : Sender ν :=
  { s with closed := true, lost := s.lost ++ s.retained ++ s.item.toList, retained := [],
           item := none }

/-! ## Reading a body -/

/-- `BodyRead2` either stops short of the end or returns the whole rest with EOF. -/
theorem bodyRead2_cases (n : Nat) (body : PendingBody ν) :
    (body.offset + n < body.data.length ∧
      bodyRead2 n body =
        (body.rest.take n, false, { body with offset := body.offset + n }, none)) ∨
    (body.rest.length ≤ n ∧ bodyRead2 n body = (body.rest, true,
      { body with offset := body.offset + body.rest.length, onConsumed := none },
      body.onConsumed)) := by
  have hlen : body.rest.length = body.data.length - body.offset := by
    simp [PendingBody.rest]
  unfold bodyRead2
  rw [← hlen]
  by_cases h0 : body.rest.length = 0
  · right
    have hnil : body.rest = [] := List.eq_nil_of_length_eq_zero h0
    simp [hnil]
  · by_cases hlt : body.offset + n < body.data.length
    · left
      refine ⟨hlt, ?_⟩
      have hn : ¬ body.rest.length < n := by omega
      simp [h0, hn, Nat.ne_of_lt hlt]
    · right
      have hle : body.rest.length ≤ n := by omega
      refine ⟨hle, ?_⟩
      have hc : (if body.rest.length < n then body.rest.length else n) = body.rest.length := by
        split <;> omega
      simp only [if_neg h0, hc, List.take_length]
      rw [if_pos (by omega)]

/-- What one flush can do to the DATA item: nothing, use the window up, or end the body. -/
theorem pull_cases (s : Sender ν) :
    s.pull = s ∨ ∃ body, s.item = some body ∧ 0 < s.window ∧
      ((body.offset + s.window < body.data.length ∧
        s.pull = { s with wire := s.wire ++ (body.rest.take s.window).map Atom.byte
                          window := s.window - (body.rest.take s.window).length
                          item := some { body with offset := body.offset + s.window } }) ∨
      (body.rest.length ≤ s.window ∧
        s.pull = { s with
          wire := s.wire ++ body.rest.map Atom.byte ++
            (if body.endStream then [Atom.endStream] else [])
          window := s.window - body.rest.length
          notes := s.notes ++ body.onConsumed.toList
          read := s.read ++ body.onConsumed.toList.map fun n => (n, body.data)
          item := none
          retained := s.retained ++ [{ body with
            offset := body.offset + body.rest.length, eof := true, onConsumed := none }]
          ended := s.ended || body.endStream })) := by
  cases hi : s.item with
  | none => exact .inl (by simp [pull, hi])
  | some body =>
      by_cases hw : s.window = 0
      · exact .inl (by simp [pull, hi, hw])
      · refine .inr ⟨body, rfl, by omega, ?_⟩
        rcases bodyRead2_cases s.window body with ⟨hlt, hr⟩ | ⟨hle, hr⟩
        · refine .inl ⟨hlt, ?_⟩
          simp [pull, hi, hw, hr]
        · exact .inr ⟨hle, by simp [pull, hi, hw, hr]⟩

/-! ## What each submission records -/

@[simp] theorem pull_subs (s : Sender ν) : s.pull.subs = s.subs := by
  obtain h | ⟨_, -, -, ⟨-, h⟩ | ⟨-, h⟩⟩ := s.pull_cases <;> rw [h]

@[simp] theorem pull_closed (s : Sender ν) : s.pull.closed = s.closed := by
  obtain h | ⟨_, -, -, ⟨-, h⟩ | ⟨-, h⟩⟩ := s.pull_cases <;> rw [h]

@[simp] theorem sendHeaders_closed (s : Sender ν) (fields : HeaderMap) (e : Bool) :
    (s.sendHeaders fields e).closed = s.closed := by
  unfold sendHeaders
  dsimp only
  split <;> rfl

@[simp] theorem sendData_closed (s : Sender ν) (data : Bytes) (e : Bool) (n : Option ν) :
    (s.sendData data e n).closed = s.closed := by
  unfold sendData
  dsimp only
  split <;> simp

@[simp] theorem sendTrailers_closed (s : Sender ν) (fields : HeaderMap) :
    (s.sendTrailers fields).closed = s.closed := by
  unfold sendTrailers
  dsimp only
  split <;> rfl

@[simp] theorem credit_closed (s : Sender ν) (n : Nat) : (s.credit n).closed = s.closed := by
  simp [credit]

@[simp] theorem sendHeaders_subs (s : Sender ν) (fields : HeaderMap) (e : Bool) :
    (s.sendHeaders fields e).subs = s.subs ++ [.headers fields e] := by
  unfold sendHeaders
  dsimp only
  split <;> rfl

@[simp] theorem sendData_subs (s : Sender ν) (data : Bytes) (e : Bool) (n : Option ν) :
    (s.sendData data e n).subs = s.subs ++ [.data data e] := by
  unfold sendData
  dsimp only
  split <;> simp

@[simp] theorem sendTrailers_subs (s : Sender ν) (fields : HeaderMap) :
    (s.sendTrailers fields).subs = s.subs ++ [.trailers fields] := by
  unfold sendTrailers
  dsimp only
  split <;> rfl

@[simp] theorem credit_subs (s : Sender ν) (n : Nat) : (s.credit n).subs = s.subs := by
  simp [credit]

@[simp] theorem close_subs (s : Sender ν) : s.close.subs = s.subs := rfl

/-! ## Bodies on their way -/

/-- Notifications that an attached body or the notification queue still holds. -/
def aloft (s : Sender ν) : Nat :=
  (s.item.bind PendingBody.onConsumed).toList.length + s.notes.length

@[simp] theorem pull_aloft (s : Sender ν) : s.pull.aloft = s.aloft := by
  obtain h | ⟨body, hi, -, ⟨-, h⟩ | ⟨-, h⟩⟩ := s.pull_cases <;> rw [h]
  · simp [aloft, hi]
  · simp [aloft, hi]
    omega

@[simp] theorem sendHeaders_aloft (s : Sender ν) (fields : HeaderMap) (e : Bool) :
    (s.sendHeaders fields e).aloft = s.aloft := by
  unfold sendHeaders
  dsimp only
  split <;> rfl

theorem sendData_aloft (s : Sender ν) (data : Bytes) (e : Bool) (n : Option ν) :
    (s.sendData data e n).aloft ≤ s.aloft + n.toList.length := by
  unfold sendData
  dsimp only
  split
  · exact Nat.le_add_right s.aloft _
  · rw [pull_aloft]
    simp only [aloft, Option.bind_some]
    omega

/-- A body that nghttp2 takes is on its way. -/
theorem sendData_aloft_of_open (s : Sender ν) (data : Bytes) (e : Bool) (n : Option ν)
    (hc : s.closed = false) (he : s.ended = false) (hi : s.item = none) :
    (s.sendData data e n).aloft = s.aloft + n.toList.length := by
  simp only [sendData, hc, he, hi, Option.isSome_none, Bool.or_self, Bool.false_eq_true, if_false,
    pull_aloft]
  simp only [aloft, hi, Option.bind_some, Option.bind_none, Option.toList_none, List.length_nil]
  omega

theorem sendTrailers_aloft (s : Sender ν) (fields : HeaderMap) :
    (s.sendTrailers fields).aloft ≤ s.aloft := by
  unfold sendTrailers
  dsimp only
  split
  · exact Nat.le_refl s.aloft
  · simp [aloft]

@[simp] theorem credit_aloft (s : Sender ν) (n : Nat) : (s.credit n).aloft = s.aloft := by
  rw [credit, pull_aloft]
  rfl

theorem close_aloft (s : Sender ν) : s.close.aloft ≤ s.aloft := by
  simp [aloft, close]

/-! ## Bodies not read to their end -/

/-- Bodies not read to their end and notifications not delivered, as far as `q` counts them. -/
def owedBy (q : Option ν → Bool) (s : Sender ν) : Nat :=
  s.unread.countP (fun body => q body.onConsumed) + s.notes.countP (fun n => q (some n))

section OwedBy

variable (q : Option ν → Bool)

theorem pull_owedBy (s : Sender ν) : s.pull.owedBy q ≤ s.owedBy q := by
  obtain h | ⟨body, hi, -, ⟨-, h⟩ | ⟨-, h⟩⟩ := s.pull_cases
  · rw [h]
  · rw [h]
    simp [owedBy, unread, hi, List.countP_cons]
  · rw [h]
    cases hn : body.onConsumed <;> simp [owedBy, unread, hi, hn, List.countP_cons]
    omega

theorem sendHeaders_owedBy (s : Sender ν) (fields : HeaderMap) (e : Bool) :
    (s.sendHeaders fields e).owedBy q = s.owedBy q := by
  unfold sendHeaders
  dsimp only
  split <;> rfl

/-- A body raises the count by one at most, and only if it is counted. -/
theorem sendData_owedBy (s : Sender ν) (data : Bytes) (e : Bool) (n : Option ν) :
    (s.sendData data e n).owedBy q ≤ s.owedBy q + (q n).toNat := by
  have hone : (if q n then 1 else 0) = (q n).toNat := by cases q n <;> rfl
  unfold sendData
  dsimp only
  split
  · simp [owedBy, unread, List.countP_cons, hone]
    omega
  · next hopen =>
      refine Nat.le_trans (pull_owedBy q _) ?_
      obtain ⟨-, hi⟩ : (s.closed = false ∧ s.ended = false) ∧ s.item = none := by
        simpa using hopen
      simp [owedBy, unread, hi, List.countP_cons, hone]
      omega

theorem sendTrailers_owedBy (s : Sender ν) (fields : HeaderMap) :
    (s.sendTrailers fields).owedBy q ≤ s.owedBy q := by
  unfold sendTrailers
  dsimp only
  split
  · exact Nat.le_refl (s.owedBy q)
  · have := (List.filter_sublist (p := fun body => !body.eof) (l := s.item.toList)).countP_le
      (p := fun body => q body.onConsumed)
    simp only [owedBy, unread, List.filter_append, List.countP_append, Option.toList_none,
      List.append_nil] at this ⊢
    omega

theorem credit_owedBy (s : Sender ν) (n : Nat) : (s.credit n).owedBy q ≤ s.owedBy q :=
  pull_owedBy q _

theorem close_owedBy (s : Sender ν) : s.close.owedBy q ≤ s.owedBy q := by
  have := (List.filter_sublist (p := fun body => !body.eof) (l := s.item.toList)).countP_le
    (p := fun body => q body.onConsumed)
  simp only [owedBy, unread, close, List.filter_append, List.countP_append, Option.toList_none,
    List.append_nil] at this ⊢
  omega

theorem note_owedBy {s : Sender ν} {n : ν} {notes : List ν} (h : s.notes = n :: notes) :
    ({ s with notes } : Sender ν).owedBy q + (q (some n)).toNat = s.owedBy q := by
  have hone : (if q (some n) then 1 else 0) = (q (some n)).toNat := by cases q (some n) <;> rfl
  simp only [owedBy, unread, h, List.countP_cons, hone]
  omega

end OwedBy

/-- Bodies not read to their end and notifications not delivered. -/
def owed (s : Sender ν) : Nat := s.unread.length + s.notes.length

theorem owed_eq (s : Sender ν) : s.owed = s.owedBy fun _ => true := by simp [owed, owedBy]

/-- A body that the window takes whole is read at once. -/
theorem sendData_whole (s : Sender ν) (data : Bytes) (e : Bool) (hc : s.closed = false)
    (he : s.ended = false) (hi : s.item = none) (h0 : data ≠ []) (hw : data.length ≤ s.window) :
    (s.sendData data e none).unread = s.unread ∧ (s.sendData data e none).owed = s.owed := by
  have hpos : 0 < data.length := List.length_pos_iff.mpr h0
  have hrest : PendingBody.rest (ν := ν) { data, endStream := e } = data := rfl
  simp only [sendData, hc, he, hi, Option.isSome_none, Bool.or_self, Bool.false_eq_true, if_false]
  obtain ⟨hlt, -⟩ | ⟨-, hr⟩ :=
    bodyRead2_cases (ν := ν) s.window { data, endStream := e }
  · simp only at hlt
    omega
  · simp [pull, hr, hrest, owed, unread, hi, show s.window ≠ 0 by omega]

theorem unread_nil {s : Sender ν} (h : s.unread = []) :
    (s.lost ++ s.retained).filter (fun body => !body.eof) = [] ∧ s.item = none := by
  simpa [unread, and_assoc] using h

@[simp] theorem sendHeaders_unread (s : Sender ν) (fields : HeaderMap) (e : Bool) :
    (s.sendHeaders fields e).unread = s.unread := by
  unfold sendHeaders
  dsimp only
  split <;> rfl

theorem sendTrailers_unread {s : Sender ν} (h : s.unread = []) (fields : HeaderMap) :
    (s.sendTrailers fields).unread = [] := by
  have hi := (unread_nil h).2
  unfold sendTrailers
  dsimp only
  split
  · exact h
  · simpa [unread, hi] using h

theorem credit_unread {s : Sender ν} (h : s.unread = []) (n : Nat) : (s.credit n).unread = [] := by
  have hi := (unread_nil h).2
  have hpull : s.credit n = { s with window := n } := by simp [credit, pull, hi]
  rw [hpull]
  exact h

theorem close_unread {s : Sender ν} (h : s.unread = []) : s.close.unread = [] := by
  have hi := (unread_nil h).2
  simpa [unread, close, hi] using h

/-! ## Trailers that overtake -/

@[simp] theorem pull_overtook (s : Sender ν) : s.pull.overtook = s.overtook := by
  obtain h | ⟨_, -, -, ⟨-, h⟩ | ⟨-, h⟩⟩ := s.pull_cases <;> rw [h]

@[simp] theorem sendHeaders_overtook (s : Sender ν) (fields : HeaderMap) (e : Bool) :
    (s.sendHeaders fields e).overtook = s.overtook := by
  unfold sendHeaders
  dsimp only
  split <;> rfl

@[simp] theorem sendData_overtook (s : Sender ν) (data : Bytes) (e : Bool) (n : Option ν) :
    (s.sendData data e n).overtook = s.overtook := by
  unfold sendData
  dsimp only
  split <;> simp

theorem sendTrailers_overtook {s : Sender ν} (h : s.unread = []) (fields : HeaderMap) :
    (s.sendTrailers fields).overtook = s.overtook := by
  unfold sendTrailers
  dsimp only
  rw [h]
  split <;> simp

@[simp] theorem credit_overtook (s : Sender ν) (n : Nat) : (s.credit n).overtook = s.overtook := by
  simp [credit]

@[simp] theorem close_overtook (s : Sender ν) : s.close.overtook = s.overtook := rfl

/-! ## Bodies that crowd -/

/-- A sender owes nothing that would be notified and nothing else: all bodies have been read. -/
theorem unread_of_owedBy {s : Sender ν} (hs : s.owedBy Option.isSome = 0)
    (hn : s.owedBy Option.isNone = 0) : s.unread = [] := by
  simp only [owedBy, Nat.add_eq_zero_iff, List.countP_eq_zero] at hs hn
  rw [List.eq_nil_iff_forall_not_mem]
  intro body hmem
  cases hb : body.onConsumed with
  | none => exact hn.1 body hmem (by rw [hb]; rfl)
  | some n => exact hs.1 body hmem (by rw [hb]; rfl)

@[simp] theorem pull_crowded (s : Sender ν) : s.pull.crowded = s.crowded := by
  obtain h | ⟨_, -, -, ⟨-, h⟩ | ⟨-, h⟩⟩ := s.pull_cases <;> rw [h]

@[simp] theorem sendHeaders_crowded (s : Sender ν) (fields : HeaderMap) (e : Bool) :
    (s.sendHeaders fields e).crowded = s.crowded := by
  unfold sendHeaders
  dsimp only
  split <;> rfl

theorem sendData_crowded {s : Sender ν} (h : s.unread = []) (data : Bytes) (e : Bool)
    (n : Option ν) : (s.sendData data e n).crowded = s.crowded := by
  unfold sendData
  dsimp only
  rw [h]
  split <;> simp

@[simp] theorem sendTrailers_crowded (s : Sender ν) (fields : HeaderMap) :
    (s.sendTrailers fields).crowded = s.crowded := by
  unfold sendTrailers
  dsimp only
  split <;> rfl

@[simp] theorem credit_crowded (s : Sender ν) (n : Nat) : (s.credit n).crowded = s.crowded := by
  simp [credit]

@[simp] theorem close_crowded (s : Sender ν) : s.close.crowded = s.crowded := rfl

/-! ## Where a notification is -/

section Carried

variable (f : ν → Nat)

/-- The weight of a body's notification. -/
def bodyWeight (body : PendingBody ν) : Nat := (body.onConsumed.toList.map f).sum

/-- The notifications a sender has in its hands, each weighted by `f`: queued, or in a body
    that nghttp2 holds, that was refused, or that went with the stream. -/
def carried (s : Sender ν) : Nat :=
  (s.notes.map f).sum + (s.item.toList.map (bodyWeight f)).sum +
    (s.retained.map (bodyWeight f)).sum + (s.lost.map (bodyWeight f)).sum

theorem carried_mono {f g : ν → Nat} (h : ∀ n, f n ≤ g n) (s : Sender ν) :
    s.carried f ≤ s.carried g := by
  have hbody : ∀ body : PendingBody ν, bodyWeight f body ≤ bodyWeight g body :=
    fun body => List.sum_le_sum fun n _ => h n
  exact Nat.add_le_add (Nat.add_le_add (Nat.add_le_add
    (List.sum_le_sum fun n _ => h n) (List.sum_le_sum fun b _ => hbody b))
    (List.sum_le_sum fun b _ => hbody b)) (List.sum_le_sum fun b _ => hbody b)

theorem carried_zero (s : Sender ν) : s.carried (fun _ => 0) = 0 := by
  have hbody : bodyWeight (fun _ : ν => 0) = fun _ => 0 := by
    funext body
    simp [bodyWeight]
  simp [carried, hbody]

@[simp] theorem pull_carried (s : Sender ν) : s.pull.carried f = s.carried f := by
  obtain h | ⟨body, hi, -, ⟨-, h⟩ | ⟨-, h⟩⟩ := s.pull_cases <;> rw [h]
  · simp [carried, hi, bodyWeight]
  · simp only [carried, hi, bodyWeight, List.map_append, List.sum_append,
      Option.toList_some, Option.toList_none, List.map_cons, List.map_nil, List.sum_cons,
      List.sum_nil]
    omega

@[simp] theorem sendHeaders_carried (s : Sender ν) (fields : HeaderMap) (e : Bool) :
    (s.sendHeaders fields e).carried f = s.carried f := by
  unfold sendHeaders
  dsimp only
  split <;> rfl

/-- A body given to `SendData` keeps its notification, taken or refused. -/
@[simp] theorem sendData_carried (s : Sender ν) (data : Bytes) (e : Bool) (n : Option ν) :
    (s.sendData data e n).carried f = s.carried f + (n.toList.map f).sum := by
  unfold sendData
  dsimp only
  split
  · simp only [carried, bodyWeight, List.map_append, List.map_cons, List.map_nil,
      List.sum_append, List.sum_cons, List.sum_nil]
    omega
  · next hopen =>
      obtain ⟨-, hi⟩ : (s.closed = false ∧ s.ended = false) ∧ s.item = none := by
        simpa using hopen
      rw [pull_carried]
      simp only [carried, hi, bodyWeight, Option.toList_some, Option.toList_none,
        List.map_cons, List.map_nil, List.sum_cons, List.sum_nil]
      omega

@[simp] theorem sendTrailers_carried (s : Sender ν) (fields : HeaderMap) :
    (s.sendTrailers fields).carried f = s.carried f := by
  unfold sendTrailers
  dsimp only
  split
  · rfl
  · simp only [carried, List.map_append, List.sum_append, Option.toList_none, List.map_nil,
      List.sum_nil]
    omega

@[simp] theorem credit_carried (s : Sender ν) (n : Nat) : (s.credit n).carried f = s.carried f := by
  rw [credit, pull_carried]
  rfl

@[simp] theorem close_carried (s : Sender ν) : s.close.carried f = s.carried f := by
  simp only [carried, close, List.map_append, List.sum_append, Option.toList_none, List.map_nil,
    List.sum_nil]
  omega

end Carried

/-! ## Senders that end by a header block -/

/-- No DATA carries END_STREAM, so that only a terminal block ends the sending side. -/
structure Plain (s : Sender ν) : Prop where
  item : ∀ body, s.item = some body → body.endStream = false
  ended : s.ended = true → terminals s.subs ≠ []

namespace Plain

variable {s : Sender ν}

theorem pull (h : Plain s) : Plain s.pull := by
  obtain heq | ⟨body, hi, -, ⟨-, heq⟩ | ⟨-, heq⟩⟩ := s.pull_cases <;> rw [heq]
  · exact h
  · refine ⟨?_, h.ended⟩
    rintro _ ⟨⟩
    exact h.item body hi
  · refine ⟨by simp, ?_⟩
    simpa [h.item body hi] using h.ended

theorem sendHeaders (h : Plain s) (fields : HeaderMap) (e : Bool) :
    Plain (s.sendHeaders fields e) := by
  unfold Sender.sendHeaders
  dsimp only
  split
  · refine ⟨h.item, fun he => ?_⟩
    rw [terminals, List.filter_append]
    exact List.append_ne_nil_of_left_ne_nil (h.ended he) _
  · refine ⟨h.item, ?_⟩
    rintro rfl
    simp [terminals, Submission.isTerminal]

theorem sendData (h : Plain s) (data : Bytes) (n : Option ν) :
    Plain (s.sendData data false n) := by
  have hsub : terminals (s.subs ++ [.data data false]) = terminals s.subs := by
    simp [terminals, Submission.isTerminal]
  unfold Sender.sendData
  dsimp only
  split
  · exact ⟨h.item, hsub ▸ h.ended⟩
  · refine Plain.pull ⟨?_, hsub ▸ h.ended⟩
    rintro _ ⟨⟩
    rfl

theorem sendTrailers (h : Plain s) (fields : HeaderMap) : Plain (s.sendTrailers fields) := by
  have hsub : terminals (s.subs ++ [.trailers fields]) ≠ [] := by
    simp [terminals, Submission.isTerminal]
  unfold Sender.sendTrailers
  dsimp only
  split
  · exact ⟨h.item, fun _ => hsub⟩
  · exact ⟨by simp, fun _ => hsub⟩

theorem credit (h : Plain s) (n : Nat) : Plain (s.credit n) := Plain.pull ⟨h.item, h.ended⟩

theorem close (h : Plain s) : Plain s.close := ⟨by simp [Sender.close], h.ended⟩

end Plain

end Sender

end Urpc
