/-
  Calls that have been answered and streams that have been closed.

  `Answered`: a call that was answered stays so. `Closing`: `OnStreamClose` erases the call in
  the end, and until then no read is armed and none will be.

  Proved: `answered_step`, `sealed_step`, `closing_step`.
-/
import Urpc.Server.Blocks

namespace Urpc.Server

namespace Writer

variable {t : Trigger} {v w : Writer}

/-- The call, as long as it is there, has been answered. -/
structure Answered (v : Writer) : Prop where
  opened : v.opened = true
  ended : ∀ k, v.call = some k → k.responded = true

theorem answered_step (h : Answered v) (hs : Step t v w) : Answered w := by
  cases hs with
  | created ho | unrouted ho | createdStream ho | badHeaders ho =>
      rw [h.opened] at ho
      cases ho
  | written hc _ hr | pumped hc _ hr | answered hc _ hr | respondOk hc _ hr | respondErr hc _ hr
  | finishDeferred hc _ hr | finishOnly hc _ hr | finishTrailers hc _ hr | rejected hc hr
  | deadlineTrailers _ hc hr | deadlineOnly _ hc hr | queued hc _ hr =>
      rw [h.ended _ hc] at hr
      cases hr
  | requestEnded hc | dispatchedUnary hc | dispatchedStream hc | writeDone hc | cancelOut _ hc
  | deferredFinish _ hc => exact ⟨h.opened, by simpa using h.ended _ hc⟩
  | erase => exact ⟨h.opened, by simp⟩
  | consumed =>
      refine ⟨h.opened, fun k' hk' => ?_⟩
      obtain ⟨k, hk, rfl⟩ := Option.map_eq_some_iff.mp hk'
      exact h.ended k hk
  | _ => exact ⟨h.opened, h.ended⟩

theorem answered_again (h : Answered v) (ha : Again v w) : Answered w := by
  cases ha with
  | answered => exact h
  | unknown => exact ⟨h.opened, h.ended⟩
  | refused _ hc hr =>
      rw [h.ended _ hc] at hr
      cases hr

/-- Nothing is accepted from an answered call. -/
theorem Answered.accepted (h : Answered v) (hs : Step t v w) : w.accepted = v.accepted := by
  cases hs with
  | written hc _ hr | queued hc _ hr =>
      rw [h.ended _ hc] at hr
      cases hr
  | pumped _ _ _ _ _ hp => cases hp <;> rfl
  | _ => rfl

/-- Only the stream's close closes it, or lets a call wait to be erased. -/
theorem closed_step (hs : Step t v w) (ht : t ≠ .event .streamClose) :
    w.h2.closed = v.h2.closed ∧ (.closeErase ∈ w.todo → .closeErase ∈ v.todo) := by
  cases hs with
  | closeIdle | close => exact absurd rfl ht
  | written _ _ _ _ _ _ hp | pumped _ _ _ _ _ hp => cases hp <;> simp
  | respondData hto => exact ⟨by simp, fun h => by simpa [hto] using h⟩
  | respondTrailers hto | deadlineLate hto | deadlineTrailers hto | deadlineOnly hto
  | pumpOutData hto | consumedRest hto | deferredFinish hto | cancelEnd hto | erase hto =>
      exact ⟨by simp, fun h => hto ▸ List.mem_cons_of_mem _ h⟩
  | _ => simp

theorem closed_again (ha : Again v w) : w.h2.closed = v.h2.closed ∧ w.todo = v.todo := by
  cases ha <;> simp

theorem accepted_again (ha : Again v w) : w.accepted = v.accepted := by
  cases ha <;> rfl

end Writer

namespace Reader

variable {max : Nat} {t : Trigger} {v w : Reader}

/-- No read is armed and none will be. -/
structure Sealed (v : Reader) : Prop where
  opened : v.opened = true
  shut : ∀ k, v.call = some k → k.readFinished = true ∧ k.readCb = none

theorem sealed_step (h : Sealed v) (hs : Step max t v w) : Sealed w := by
  cases hs with
  | badHeaders ho | created ho | createdStream ho =>
      rw [h.opened] at ho
      cases ho
  | handed hc _ _ hr | stored hc _ _ _ hr | readFirst hc _ _ hr | readPending hc _ _ hr
  | readEos hc _ hr | readArm hc _ hr | eosArmed hc _ _ hr =>
      rw [(h.shut _ hc).1] at hr
      cases hr
  | readClosed | readConcurrent | quiet => exact ⟨h.opened, h.shut⟩
  | erase => exact ⟨h.opened, by simp⟩
  | fed hc | rejected hc | first hc | dropped hc | overrun hc | overrunLate hc | calledUnary hc
  | ended hc | finished hc | respondedUnary hc | deadline hc =>
      have hk := h.shut _ hc
      refine ⟨h.opened, ?_⟩
      rintro _ ⟨⟩
      exact ⟨by simp [Asked.take, hk.1], hk.2⟩
  | eosUnarmed hc | cancelled _ hc =>
      have hk := h.shut _ hc
      refine ⟨h.opened, ?_⟩
      rintro _ ⟨⟩
      exact ⟨rfl, hk.2⟩
  | cancelArmed _ hc =>
      refine ⟨h.opened, ?_⟩
      rintro _ ⟨⟩
      exact ⟨rfl, rfl⟩

theorem sealed_again (h : Sealed v) (ha : Again v w) : Sealed w := by
  cases ha with
  | same => exact h
  | refused hc =>
      have hk := h.shut _ hc
      refine ⟨h.opened, ?_⟩
      rintro _ ⟨⟩
      exact hk

end Reader

/-- `CancelStreamIo` takes the armed read and lets no other come. -/
theorem sealed_cancelStreamIo {s : State} (ho : s.opened = true) :
    (reader (cancelStreamIo s)).Sealed := by
  unfold cancelStreamIo
  split
  · next k hc =>
      split
      · refine ⟨ho, ?_⟩
        rintro _ ⟨⟩
        exact ⟨rfl, rfl⟩
      · next hr =>
          refine ⟨ho, ?_⟩
          rintro _ ⟨⟩
          exact ⟨rfl, hr⟩
  · next hc => exact ⟨ho, by simp [reader, hc]⟩

/-- A closed stream reads nothing more; only a closed stream's call waits to be erased. -/
structure Closing (c : Conf) : Prop where
  dispatched : Writer.Dispatched (.of c)
  shut : c.st.h2.closed = true → (reader c.st).Sealed
  closed : .closeErase ∈ c.frames → c.st.h2.closed = true

theorem closing_fresh : Closing fresh := by
  refine ⟨sound_fresh.dispatched, nofun, ?_⟩
  intro h
  cases h

theorem mem_todo_closeErase {c : Conf} :
    .closeErase ∈ (Writer.of c).todo ↔ .closeErase ∈ c.frames := by
  simp [Writer.of, writer, Frame.writes]

theorem closing_step {cfg : Config} {c d : Conf} {l : Label} (h : Closing c)
    (hl : trailersPlain c l) (hs : (machine cfg).step c l = some d) : Closing d := by
  by_cases hclose : l = .event .streamClose
  · subst hclose
    have hd : Writer.Dispatched (.of d) := by
      obtain ⟨t, -, hw⟩ := writer_step h.dispatched (l := .event .streamClose) trivial hs
      exact Writer.dispatched_step h.dispatched hw
    obtain ⟨-, s, gs, hfire, rfl⟩ := Resume.System.step_event hs
    have hfire : fire cfg .streamClose c.st = some (s, gs) := hfire
    simp only [fire] at hfire
    split at hfire
    · next hopen =>
        have ho : c.st.opened = true := by
          simp only [Bool.and_eq_true] at hopen
          exact hopen.1
        split at hfire <;> cases hfire
        · refine ⟨hd, fun _ => sealed_cancelStreamIo ho, fun _ => ?_⟩
          unfold cancelStreamIo
          split
          · split <;> rfl
          · rfl
        · next hc =>
            have hc : c.st.call = none := by simpa using hc
            exact ⟨hd, fun _ => ⟨ho, by simp [reader, hc]⟩, fun _ => rfl⟩
    · cases hfire
  · rcases views_step_or_again h.dispatched hl hs with ⟨t, ht, hw, hr⟩ | ⟨-, hw, hr⟩
    · have hne : t ≠ .event .streamClose := by
        rintro rfl
        cases triggers_of_trigger ht
        exact hclose rfl
      obtain ⟨hsame, hmem⟩ := Writer.closed_step hw hne
      have hsame : d.st.h2.closed = c.st.h2.closed := hsame
      rw [mem_todo_closeErase, mem_todo_closeErase] at hmem
      exact ⟨Writer.dispatched_step h.dispatched hw,
        fun hcl => Reader.sealed_step (h.shut (hsame ▸ hcl)) hr,
        fun hm => hsame ▸ h.closed (hmem hm)⟩
    · obtain ⟨hsame, htodo⟩ := Writer.closed_again hw
      have hsame : d.st.h2.closed = c.st.h2.closed := hsame
      refine ⟨Writer.dispatched_again h.dispatched hw,
        fun hcl => Reader.sealed_again (h.shut (hsame ▸ hcl)) hr, fun hm => hsame ▸ h.closed ?_⟩
      rw [← mem_todo_closeErase, htodo] at hm
      exact mem_todo_closeErase.mp hm

end Urpc.Server
