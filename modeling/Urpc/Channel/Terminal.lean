/-
  Terminal callbacks of the client: `done` of a call and `on_complete` of a stream.

  Each is called at most once, since the ledger has room for one call only; and no message
  follows an `on_complete`, since a stream that receives one still holds its `on_complete`.

  Proved: `terminal_callbacks_once_and_last`.
-/
import Urpc.Channel.Ledger

namespace Urpc.Channel

open Cxx

/-- The stream that an entry of the log gives a message. -/
def Obs.messageOf : Obs → Option Nat
  | .message id .. => some id
  | _ => none

namespace Desk

variable {v v' : Desk} {E : Env}

/-! ## What a move adds to the log -/

/-- New entries: none is a message, or all are messages of one live stream. -/
structure Told (v : Desk) (os : List Obs) : Prop where
  live : ∀ o ∈ os, ∀ id, o.messageOf = some id →
    ∃ st, v.streams id = some st ∧ st.completed = false
  alone : ∀ o ∈ os, o.messageOf.isSome = true → ∀ o' ∈ os, o'.messageOf = o.messageOf

theorem Told.quiet {os : List Obs} (h : ∀ o ∈ os, o.messageOf = none) : Told v os := by
  refine ⟨fun o ho id hid => ?_, fun o ho hm => ?_⟩
  · rw [h o ho] at hid
    cases hid
  · rw [h o ho] at hm
    cases hm

theorem mem_tellFlushed {id : Nat} {cb : Option CbId} {st : Status} {o : Obs}
    (h : o ∈ tellFlushed id cb st) : ∃ k, o = .flushed id k st := by
  obtain ⟨k, -, rfl⟩ := List.mem_map.mp h
  exact ⟨k, rfl⟩

theorem mem_tellComplete {id : Nat} {events : StreamEvents} {st : Status} {o : Obs}
    (h : o ∈ tellComplete id events st) : o = .complete id st := by
  unfold tellComplete at h
  split at h
  · exact List.mem_singleton.mp h
  · cases h

theorem mem_tellFail {id : Nat} {queue : List OutMsg} {events : StreamEvents} {st : Status}
    {o : Obs} (h : o ∈ tellFail id queue events st) :
    (∃ k, o = .flushed id k st) ∨ o = .complete id st := by
  rcases List.mem_append.mp h with h | h
  · obtain ⟨m, -, hm⟩ := List.mem_flatMap.mp h
    exact .inl (mem_tellFlushed hm)
  · exact .inr (mem_tellComplete h)

/-- What a lost connection tells. -/
theorem mem_lost {streams : List (Nat × Stream)} {parked : List PendingStream}
    {calls : List (Nat × Call)} {o : Obs}
    (h : o ∈ lostStreams streams ++ lostParked parked ++ lostCalls calls) :
    ∃ id, (∃ k, o = .flushed id k connectionLost) ∨ o = .complete id connectionLost ∨
      o = .done id connectionLost [] := by
  rcases List.mem_append.mp h with h | h
  · rcases List.mem_append.mp h with h | h
    · obtain ⟨⟨id, st⟩, -, h⟩ := List.mem_flatMap.mp h
      dsimp only at h
      split at h
      · cases h
      · exact ⟨id, (mem_tellFail h).imp_right .inl⟩
    · obtain ⟨ps, -, h⟩ := List.mem_flatMap.mp h
      exact ⟨ps.id, .inr (.inl (mem_tellComplete h))⟩
  · obtain ⟨⟨id, call⟩, -, h⟩ := List.mem_flatMap.mp h
    dsimp only at h
    split at h
    · cases h
    · split at h
      · exact ⟨id, .inr (.inr (List.mem_singleton.mp h))⟩
      · cases h

theorem Told.fail {id : Nat} {queue : List OutMsg} {events : StreamEvents} {st : Status} :
    Told v (tellFail id queue events st) := by
  refine .quiet fun o ho => ?_
  rcases mem_tellFail ho with ⟨_, rfl⟩ | rfl <;> rfl

theorem log_move (hm : Move E v v') : ∃ os, v'.log = v.log ++ os ∧ Told v os := by
  have hdone : ∀ id st payload, Told v [.done id st payload] := by
    intro id st payload
    refine .quiet fun o ho => ?_
    rw [List.mem_singleton.mp ho]
    rfl
  have hnil : Told v [] := .quiet (by simp)
  cases hm with
  | consumed | consumedLate | sendRefused =>
      refine ⟨_, rfl, .quiet fun o ho => ?_⟩
      obtain ⟨_, rfl⟩ := mem_tellFlushed ho
      rfl
  | lost =>
      refine ⟨_, rfl, .quiet fun o ho => ?_⟩
      obtain ⟨_, ⟨_, rfl⟩ | rfl | rfl⟩ := mem_lost ho <;> rfl
  | callFailed _ hn => cases hn <;> exact ⟨_, rfl, hdone _ _ _⟩
  | callOver | cancelled => exact ⟨_, rfl, hdone _ _ _⟩
  | callTimedOut =>
      refine ⟨_, rfl, ?_⟩
      split
      · exact hdone _ _ _
      · exact hnil
  | streamFailed _ hn => cases hn <;> exact ⟨_, rfl, .fail⟩
  | streamOver => exact ⟨_, rfl, .fail⟩
  | @streamFed sid id st chunk _ _ hst hc =>
      refine ⟨_, rfl, ?_⟩
      split
      · have hmsg : ∀ o ∈ (takeMessages (st.decoder.consume chunk).2).1.map
            (Obs.message id .okay), o.messageOf = some id := by
          intro o ho
          obtain ⟨m, -, rfl⟩ := List.mem_map.mp ho
          rfl
        refine ⟨fun o ho id' hid' => ?_, fun o ho _ o' ho' => ?_⟩
        · rw [hmsg o ho, Option.some.injEq] at hid'
          exact ⟨st, hid' ▸ hst, hc⟩
        · rw [hmsg o ho, hmsg o' ho']
      · exact hnil
  | callSubmitted _ _ hn | streamOpened hn =>
      refine ⟨[], ?_, hnil⟩
      cases hn <;> simp [submit, setSender]
  | _ => exact ⟨[], (List.append_nil _).symm, hnil⟩

/-! ## Messages come before the end -/

/-- No message of a stream after its `on_complete`. -/
def Ordered (log : List Obs) : Prop :=
  log.Pairwise fun o o' => ∀ id st, o = .complete id st → o'.messageOf ≠ some id

theorem mem_called {log : List Obs} {id : Nat} {st : Status} (h : .complete id st ∈ log) :
    0 < (called log).count (.complete id) :=
  List.count_pos_iff.mpr (List.mem_filterMap.mpr ⟨_, h, rfl⟩)

/-- A live stream has not been told of its end. -/
theorem Books.not_complete (hb : Books v) {id : Nat} {st : Stream} (hst : v.streams id = some st)
    (hc : st.completed = false) : (called v.log).count (.complete id) = 0 := by
  have hone := hb.alone (t := .complete id) rfl
  have hle := Total.le_total (f := streamWeight (single (.complete id))) v.streams
    (hb.bounds.stream_lt hst)
  simp only [hst, streamWeight, hc, Bool.false_eq_true, if_false, single, if_true] at hle
  simp only [tabled, spent, calledWeight, sum_single] at hone
  omega

theorem ordered_move (hb : Books v) (h : Ordered v.log) (hm : Move E v v') : Ordered v'.log := by
  obtain ⟨os, hlog, hlive, halone⟩ := log_move hm
  rw [hlog, Ordered, List.pairwise_append]
  refine ⟨h, ?_, ?_⟩
  · refine List.pairwise_of_forall_mem_list fun o ho o' ho' id st heq hmsg => ?_
    have := halone o' ho' (by rw [hmsg]; rfl) o ho
    rw [hmsg, heq] at this
    cases this
  · intro o ho o' ho' id st heq hmsg
    obtain ⟨st', hst, hc⟩ := hlive o' ho' id hmsg
    have := mem_called (heq ▸ ho)
    have := hb.not_complete hst hc
    omega

end Desk

/-- Any step at all. -/
def anyStep (_ : Conf) (_ : Label) : Prop := True

instance (c : Conf) (l : Label) : Decidable (anyStep c l) := .isTrue trivial

/-- The environment of such runs. -/
def Env.any : Env := { feed := fun _ _ => True, clear := False, calm := False }

theorem Env.any_allows (c : Conf) (l : Label) : Env.any.Allows c l :=
  {}

theorem reach_books {E : Env} {ok : Conf → Label → Prop} {o : Options} {d : Conf}
    (hok : ∀ c l, ok c l → E.Allows c l) (h : machine.Reach ok (fresh o) d) :
    Desk.Rest E (desk d.st d.frames) ∧ Desk.Books (desk d.st d.frames) :=
  reach_desk hok (Desk.books_fresh o) (fun _ _ hr hb hm => Desk.books_move hr hb hm) h

theorem reach_ordered {o : Options} {d : Conf} (h : machine.Reach anyStep (fresh o) d) :
    Desk.Books (desk d.st d.frames) ∧ Desk.Ordered d.st.log :=
  (reach_desk (E := .any) (I := fun v => Desk.Books v ∧ Desk.Ordered v.log)
    (fun c l _ => Env.any_allows c l) ⟨Desk.books_fresh o, List.Pairwise.nil⟩
    (fun _ _ hr hi hm => ⟨Desk.books_move hr hi.1 hm, Desk.ordered_move hi.1 hi.2 hm⟩) h).2

/-- **Terminal callbacks fire at most once, and last.** In every run of a channel `done` of each
    call and `on_complete` of each stream are called at most once, and no `on_message` of a
    stream is called after its `on_complete`. -/
theorem terminal_callbacks_once_and_last (o : Options) (d : Conf)
    (h : machine.Reach anyStep (fresh o) d) :
    (∀ id, (called d.st.log).count (.done id) ≤ 1) ∧
      (∀ id, (called d.st.log).count (.complete id) ≤ 1) ∧
      ∀ before after id st, d.st.log = before ++ .complete id st :: after →
        ∀ st' msg, .message id st' msg ∉ after := by
  have hboth := reach_ordered h
  have honce : ∀ t : Token, t.terminal = true → (called d.st.log).count t ≤ 1 := by
    intro t ht
    have := hboth.1.alone ht
    simp only [Desk.spent, calledWeight, Desk.sum_single] at this
    have hlog : (desk d.st d.frames).log = d.st.log := rfl
    rw [hlog] at this
    omega
  refine ⟨fun id => honce _ rfl, fun id => honce _ rfl, ?_⟩
  intro before after id st hlog st' msg hmem
  have hord : Desk.Ordered d.st.log := hboth.2
  rw [hlog, Desk.Ordered, List.pairwise_append] at hord
  exact (List.pairwise_cons.mp hord.2.1).1 _ hmem id st rfl rfl

def demo : Options := { address := str "127.0.0.1:50051" }

/-- A call and a stream, connected and submitted, on the streams 1 and 3. -/
def callAndStream : List Label :=
  [.event (.call (str "/a") [0, 0, 0, 0, 0] 0),
    .event (.openStream (str "/b") ⟨true, true⟩ 0), .event (.task none), .event (.task none),
    .event .connected, .resume, .resume, .resume, .resume, .resume, .resume]

/-- A message, then trailers, then the connection is lost. -/
theorem terminal_callbacks_mixed :
    ∃ d, machine.Reach anyStep (fresh demo) d ∧ called d.st.log = [.complete 2, .done 1] ∧
      .message 2 .okay [] ∈ d.st.log ∧ (called d.st.log).count (.done 1) ≤ 1 := by
  obtain ⟨d, hd, hfacts⟩ := Option.map_eq_some_iff.mp (show
    (machine.run anyStep (fresh demo) (callAndStream ++ [.event (.data 3 [0, 0, 0, 0, 0]),
      .event (.headers 3 [("grpc-status", str "0")]), .event .lost])).map (fun d =>
        decide (called d.st.log = [.complete 2, .done 1] ∧ .message 2 .okay [] ∈ d.st.log)) =
      some true by decide)
  have hr := Resume.System.reach_of_run _ _ _ hd
  obtain ⟨hcalled, hmsg⟩ := of_decide_eq_true hfacts
  exact ⟨d, hr, hcalled, hmsg, (terminal_callbacks_once_and_last demo d hr).1 1⟩

end Urpc.Channel
