/-
  What `pending_bodies` keeps for one stream.

  `SendData` adds a body to the stream's entry and nothing but the stream's close removes one,
  so the bodies that have been read to their end pile up. A sender is `Sparing` as long as every
  body finds it `ready`: not closed, and none of its bodies read yet.

  Proved: `Sparing.kept` and how each function of the session keeps `Sparing`.
-/
import Urpc.Session.Sender

namespace Urpc.Sender

open Cxx

variable {ν : Type} {s : Sender ν}

/-- The stream's entry of `pending_bodies`. -/
def pendingBodies (s : Sender ν) : List (PendingBody ν) := s.retained ++ s.item.toList

/-- The bodies kept are at most one more than those not read to their end; a stream that was
    reported closed has no entry. -/
structure Kept (s : Sender ν) : Prop where
  few : s.pendingBodies.length ≤ (s.pendingBodies.filter fun body => !body.eof).length + 1
  dropped : s.closed = true → s.pendingBodies = []

/-- A body is welcome: the stream is open and no body of it has been read to its end. -/
def ready (s : Sender ν) : Bool := !s.closed && s.retained.all fun body => !body.eof

/-- Bodies read to their end that are still kept. -/
def stale (s : Sender ν) : Nat := s.retained.countP fun body => body.eof

structure Sparing (s : Sender ν) : Prop where
  few : s.stale ≤ 1
  fresh : s.item.isSome = true → s.stale = 0
  unread : ∀ body, s.item = some body → body.eof = false
  dropped : s.closed = true → s.retained = [] ∧ s.item = none

theorem sparing_new : Sparing ({} : Sender ν) :=
  ⟨Nat.zero_le _, nofun, nofun, nofun⟩

theorem Sparing.kept (h : Sparing s) : s.Kept := by
  refine ⟨?_, fun hc => ?_⟩
  · have hsplit : ∀ l : List (PendingBody ν), l.length =
        l.countP (fun body => body.eof) + (l.filter fun body => !body.eof).length := by
      intro l
      rw [← List.countP_eq_length_filter, List.length_eq_countP_add_countP (fun body => body.eof)]
      simp
    have hstale : s.pendingBodies.countP (fun body => body.eof) = s.stale := by
      cases hi : s.item with
      | none => simp [pendingBodies, stale, hi]
      | some body => simp [pendingBodies, stale, hi, h.unread body hi]
    have := hsplit s.pendingBodies
    have := h.few
    omega
  · obtain ⟨hr, hi⟩ := h.dropped hc
    simp [pendingBodies, hr, hi]

/-- Nothing that matters changes. -/
theorem Sparing.same {s' : Sender ν} (h : Sparing s) (hr : s'.retained = s.retained)
    (hi : s'.item = s.item) (hc : s'.closed = s.closed) : Sparing s' := by
  have hstale : s'.stale = s.stale := by rw [stale, hr, stale]
  exact ⟨hstale ▸ h.few, hstale ▸ hi ▸ h.fresh, hi ▸ h.unread, hr ▸ hi ▸ hc ▸ h.dropped⟩

theorem Sparing.pull (h : Sparing s) : Sparing s.pull := by
  obtain hp | ⟨body, hi, -, ⟨-, hp⟩ | ⟨-, hp⟩⟩ := s.pull_cases
  · rw [hp]
    exact h
  · rw [hp]
    have hopen : s.closed = false := by
      by_contra hc
      rw [(h.dropped (by simpa using hc)).2] at hi
      cases hi
    refine ⟨h.few, fun _ => h.fresh (by rw [hi]; rfl), ?_, fun hc => ?_⟩
    · rintro _ ⟨⟩
      exact h.unread body hi
    · rw [hopen] at hc
      cases hc
  · -- the one body that becomes stale
    rw [hp]
    have hopen : s.closed = false := by
      by_contra hc
      rw [(h.dropped (by simpa using hc)).2] at hi
      cases hi
    have hzero : s.retained.countP (fun body => body.eof) = 0 := h.fresh (by rw [hi]; rfl)
    refine ⟨?_, nofun, nofun, fun hc => ?_⟩
    · simp [stale, hzero]
    · rw [hopen] at hc
      cases hc

theorem Sparing.sendHeaders (h : Sparing s) (fields : HeaderMap) (e : Bool) :
    Sparing (s.sendHeaders fields e) := by
  unfold Sender.sendHeaders
  dsimp only
  split <;> exact h.same rfl rfl rfl

/-- A body keeps a sender sparing if it is welcome. -/
theorem Sparing.sendData (h : Sparing s) (data : Bytes) (e : Bool) (n : Option ν)
    (hr : s.ready = true) : Sparing (s.sendData data e n) := by
  simp only [ready, Bool.and_eq_true, Bool.not_eq_true', List.all_eq_true] at hr
  obtain ⟨hopen, hfresh⟩ := hr
  have hzero : s.retained.countP (fun body => body.eof) = 0 := by
    rw [List.countP_eq_zero]
    intro body hb
    simp [hfresh body hb]
  unfold Sender.sendData
  dsimp only
  split
  · have hstale : ({ s with
        subs := s.subs ++ [.data data e]
        crowded := s.crowded || !s.unread.isEmpty
        retained := s.retained ++ [{ data, endStream := e, onConsumed := n }] } :
          Sender ν).stale = 0 := by
      simp [stale, hzero]
    refine ⟨by rw [hstale]; omega, fun _ => hstale, h.unread, fun hc => ?_⟩
    rw [show s.closed = true from hc] at hopen
    cases hopen
  · refine Sparing.pull ⟨h.few, fun _ => hzero, ?_, fun hc => ?_⟩
    · rintro _ ⟨⟩
      rfl
    · rw [show s.closed = true from hc] at hopen
      cases hopen

theorem Sparing.sendTrailers (h : Sparing s) (fields : HeaderMap) :
    Sparing (s.sendTrailers fields) := by
  unfold Sender.sendTrailers
  dsimp only
  split
  · exact h.same rfl rfl rfl
  · next hopen =>
      have hc : s.closed = false := by
        simp only [Bool.or_eq_true, not_or, Bool.not_eq_true] at hopen
        exact hopen.1
      have hitem : s.item.toList.countP (fun body => body.eof) = 0 := by
        rw [List.countP_eq_zero]
        intro body hb
        simp [h.unread body (by simpa using hb)]
      refine ⟨?_, nofun, nofun, fun hcl => ?_⟩
      · have := h.few
        simp only [stale, List.countP_append, hitem] at this ⊢
        omega
      · rw [show s.closed = true from hcl] at hc
        cases hc

theorem Sparing.credit (h : Sparing s) (n : Nat) : Sparing (s.credit n) :=
  Sparing.pull (h.same rfl rfl rfl)

theorem Sparing.close (s : Sender ν) : Sparing s.close :=
  ⟨Nat.zero_le _, nofun, nofun, fun _ => ⟨rfl, rfl⟩⟩

end Urpc.Sender
