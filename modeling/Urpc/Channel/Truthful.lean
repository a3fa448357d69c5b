/-
  What a call of `on_flushed` with OK says.

  The closure that `PumpStream` hands to the session calls `on_flushed` with OK when `BodyRead2`
  has read the message to its end; `Sender.read` records these reads. But `CompleteStream` gives
  the status of the stream to the callbacks of the messages that are still queued, and a block of
  header fields can end the stream with OK: their callers are told OK for bytes that the session
  never saw (`queued_flushed_ok`).

  In a run without such a block (`honestEnds`), the calls with OK, together with the notifications
  still to run, are as many as the bodies read to their end, and each of these bodies is a message
  that was given to `StreamSend` with that callback; and a stream that ends, or cannot be opened,
  fails what it has queued (`QueuedFail`).

  Proved: `flushed_ok_truthful`.
-/
import Urpc.Channel.Entries
import Urpc.Channel.Flushed
import Urpc.Channel.Outbox

namespace Urpc

open Cxx

/-! ## Bodies of a sender -/

namespace Sender

variable {ν : Type}

/-- Bodies read to their end, weighed by their notifications. -/
def reads (f : ν → Nat) (s : Sender ν) : Nat := (s.read.map fun e => f e.1).sum

/-- Notifications waiting to be run. -/
def noted (f : ν → Nat) (s : Sender ν) : Nat := (s.notes.map f).sum

theorem noted_le_carried (f : ν → Nat) (s : Sender ν) : s.noted f ≤ s.carried f := by
  unfold noted carried
  omega

/-- Each body read to its end queues its notification. -/
theorem pull_reads (f : ν → Nat) (s : Sender ν) :
    s.pull.reads f + s.noted f = s.reads f + s.pull.noted f := by
  obtain h | ⟨body, hi, -, ⟨-, h⟩ | ⟨-, h⟩⟩ := s.pull_cases <;> rw [h]
  · rfl
  · have hnote : (fun e : ν × Bytes => f e.1) ∘ (fun n => (n, body.data)) = f := rfl
    simp only [reads, noted, List.map_append, List.sum_append, List.map_map, hnote]
    omega

theorem credit_reads (f : ν → Nat) (s : Sender ν) (n : Nat) :
    (s.credit n).reads f + s.noted f = s.reads f + (s.credit n).noted f :=
  pull_reads f { s with window := n }

theorem sendData_reads (f : ν → Nat) (s : Sender ν) (data : Bytes) (e : Bool) (n : Option ν) :
    (s.sendData data e n).reads f + s.noted f = s.reads f + (s.sendData data e n).noted f := by
  unfold sendData
  dsimp only
  split
  · rfl
  · exact pull_reads f _

/-- Every body that is read was given to `SendData`, for a notification that `P` allows. -/
structure Backed (P : ν → Bytes → Prop) (s : Sender ν) : Prop where
  item : ∀ body, s.item = some body →
    body.data ∈ bodies s.subs ∧ ∀ n, body.onConsumed = some n → P n body.data
  read : ∀ e ∈ s.read, e.2 ∈ bodies s.subs ∧ P e.1 e.2

variable {P : ν → Bytes → Prop} {s : Sender ν}

theorem Backed.mono {Q : ν → Bytes → Prop} (hPQ : ∀ n data, P n data → Q n data)
    (h : s.Backed P) : s.Backed Q where
  item body hi := ⟨(h.item body hi).1, fun n hn => hPQ _ _ ((h.item body hi).2 n hn)⟩
  read e he := ⟨(h.read e he).1, hPQ _ _ (h.read e he).2⟩

theorem Backed.pull (h : s.Backed P) : s.pull.Backed P := by
  obtain heq | ⟨body, hi, -, ⟨-, heq⟩ | ⟨-, heq⟩⟩ := s.pull_cases <;> rw [heq]
  · exact h
  · refine ⟨fun body' hi' => ?_, h.read⟩
    cases hi'
    exact h.item body hi
  · refine ⟨fun _ hi' => (by cases hi'), fun e he => ?_⟩
    rcases List.mem_append.mp he with he | he
    · exact h.read e he
    · obtain ⟨n, hn, rfl⟩ := List.mem_map.mp he
      obtain ⟨hsub, hP⟩ := h.item body hi
      exact ⟨hsub, hP n (Option.mem_toList.mp hn)⟩

theorem Backed.credit (h : s.Backed P) (n : Nat) : (s.credit n).Backed P :=
  Backed.pull (s := { s with window := n }) ⟨h.item, h.read⟩

theorem Backed.close (h : s.Backed P) : s.close.Backed P :=
  ⟨fun _ hi => (by cases hi), h.read⟩

/-- More submissions. -/
theorem Backed.submitted {s' : Sender ν} (h : s.Backed P) {subs : List Submission}
    (hsubs : s'.subs = s.subs ++ subs) (hitem : s'.item = s.item) (hread : s'.read = s.read) :
    s'.Backed P where
  item body hi := by
    obtain ⟨hsub, hP⟩ := h.item body (hitem ▸ hi)
    exact ⟨by simp [hsubs, hsub], hP⟩
  read e he := by
    obtain ⟨hsub, hP⟩ := h.read e (hread ▸ he)
    exact ⟨by simp [hsubs, hsub], hP⟩

theorem Backed.sendHeaders (h : s.Backed P) (fields : HeaderMap) (e : Bool) :
    (s.sendHeaders fields e).Backed P := by
  refine h.submitted (sendHeaders_subs s fields e) ?_ ?_ <;>
  · unfold Sender.sendHeaders
    dsimp only
    split <;> rfl

theorem Backed.sendData (h : s.Backed P) {data : Bytes} {n : Option ν}
    (hn : ∀ n', n = some n' → P n' data) (e : Bool) : (s.sendData data e n).Backed P := by
  unfold Sender.sendData
  dsimp only
  split
  · exact h.submitted rfl rfl rfl
  · refine Backed.pull ⟨fun body hi => ?_, fun e he => ?_⟩
    · cases hi
      exact ⟨by simp [bodies], hn⟩
    · exact ⟨by simp [(h.read e he).1], (h.read e he).2⟩

end Sender

namespace Channel

open Total

/-! ## Calls with OK -/

/-- An `on_flushed` called with OK. -/
def Obs.okFlushed : Obs → Bool
  | .flushed _ _ st => st.ok
  | _ => false

/-- An `on_flushed` of one name, called with OK. -/
def Obs.tellsOk (id : Nat) (cb : CbId) (o : Obs) : Bool :=
  o.okFlushed && o.token == some (.flushed id cb)

/-- The closures that call it. -/
def Closure.tells (id : Nat) (cb : CbId) (n : Closure) : Nat :=
  if n.id = id ∧ n.cb = some cb then 1 else 0

theorem countP_silent {os : List Obs} (h : ∀ o ∈ os, o.okFlushed = false) (id : Nat) (cb : CbId) :
    os.countP (Obs.tellsOk id cb) = 0 := by
  rw [List.countP_eq_zero]
  intro o ho
  simp [Obs.tellsOk, h o ho]

theorem countP_tellFlushed (n : Closure) (id : Nat) (cb : CbId) :
    (tellFlushed n.id n.cb .okay).countP (Obs.tellsOk id cb) = n.tells id cb := by
  cases hcb : n.cb with
  | none => simp [tellFlushed, Closure.tells, hcb]
  | some k =>
      by_cases h : n.id = id ∧ k = cb
      · obtain ⟨rfl, rfl⟩ := h
        simp [tellFlushed, Closure.tells, hcb, Obs.tellsOk, Obs.okFlushed, Obs.token, Status.okay,
          Status.ok]
      · simp [tellFlushed, Closure.tells, hcb, h, Obs.tellsOk, Obs.okFlushed, Obs.token]

theorem silent_flushed {st : Status} (hst : st.ok = false) (id : Nat) (cb : Option CbId) :
    ∀ o ∈ tellFlushed id cb st, o.okFlushed = false := by
  intro o ho
  obtain ⟨k, rfl⟩ := Desk.mem_tellFlushed ho
  exact hst

theorem silent_fail {st : Status} (hst : st.ok = false) (id : Nat) (queue : List OutMsg)
    (events : StreamEvents) : ∀ o ∈ tellFail id queue events st, o.okFlushed = false := by
  intro o ho
  rcases Desk.mem_tellFail ho with ⟨k, rfl⟩ | rfl
  · exact hst
  · rfl

/-- A stream that ends with OK has no callback in its queue. -/
theorem silent_over {queue : List OutMsg} {st : Status}
    (hqueue : st.ok = true → ∀ m ∈ queue, m.cb = none) (id : Nat) (events : StreamEvents) :
    ∀ o ∈ tellFail id queue events st, o.okFlushed = false := by
  intro o ho
  by_cases hok : st.ok = true
  · rcases List.mem_append.mp ho with ho | ho
    · obtain ⟨m, hm, ho⟩ := List.mem_flatMap.mp ho
      rw [hqueue hok m hm] at ho
      cases ho
    · rw [Desk.mem_tellComplete ho]
      rfl
  · exact silent_fail (by simpa using hok) id queue events o ho

theorem silent_one {o : Obs} (ho : o.okFlushed = false) : ∀ o' ∈ [o], o'.okFlushed = false := by
  intro o' ho'
  rwa [List.mem_singleton.mp ho']

theorem silent_if {p : Bool} {os : List Obs} (hos : ∀ o ∈ os, o.okFlushed = false) :
    ∀ o ∈ if p then os else [], o.okFlushed = false := by
  split
  · exact hos
  · simp

theorem silent_messages (id : Nat) (ms : List Bytes) :
    ∀ o ∈ ms.map (Obs.message id .okay), o.okFlushed = false := by
  intro o ho
  obtain ⟨m, -, rfl⟩ := List.mem_map.mp ho
  rfl

theorem silent_lost {streams : List (Nat × Stream)} {parked : List PendingStream}
    {calls : List (Nat × Call)} :
    ∀ o ∈ lostStreams streams ++ lostParked parked ++ lostCalls calls, o.okFlushed = false := by
  intro o ho
  obtain ⟨_, ⟨_, rfl⟩ | rfl | rfl⟩ := Desk.mem_lost ho <;> rfl

namespace Desk

/-- The bodies read to their end. -/
def readBy (v : Desk) (f : Closure → Nat) : Nat :=
  total (fun _ h2 => Sender.reads f h2) v.nextSid v.senders

/-- The notifications that wait. -/
def notedBy (v : Desk) (f : Closure → Nat) : Nat :=
  total (fun _ h2 => Sender.noted f h2) v.nextSid v.senders

/-- The calls with OK and the notifications that wait, against the bodies read. -/
def Even (v : Desk) : Prop := ∀ id cb,
  v.log.countP (Obs.tellsOk id cb) + v.notedBy (Closure.tells id cb) =
    v.readBy (Closure.tells id cb)

def Tallied (v : Desk) : Prop :=
  v.Even ∧ ∀ sid, v.nextSid ≤ sid → ∀ f, (v.senders sid).reads f = 0

variable {v v' : Desk} {E : Env}

/-- Something is told, and no OK is among it. -/
theorem Tallied.say (h : Tallied v) {os : List Obs} (hlog : v'.log = v.log ++ os)
    (hos : ∀ o ∈ os, o.okFlushed = false) (hsid : v'.nextSid = v.nextSid)
    (hsame : ∀ sid, (v'.senders sid).read = (v.senders sid).read ∧
      (v'.senders sid).notes = (v.senders sid).notes) : Tallied v' := by
  refine ⟨fun id cb => ?_, fun sid hle f => ?_⟩
  · have hread : v'.readBy (Closure.tells id cb) = v.readBy (Closure.tells id cb) := by
      rw [readBy, hsid]
      exact total_congr fun sid _ => by simp only [Sender.reads, (hsame sid).1]
    have hnoted : v'.notedBy (Closure.tells id cb) = v.notedBy (Closure.tells id cb) := by
      rw [notedBy, hsid]
      exact total_congr fun sid _ => by simp only [Sender.noted, (hsame sid).2]
    rw [hlog, List.countP_append, countP_silent hos, hread, hnoted]
    exact h.1 id cb
  · rw [Sender.reads, (hsame sid).1]
    exact h.2 sid (hsid ▸ hle) f

/-- A sender reads on, or does something else. -/
theorem Tallied.setSender (h : Tallied v) (hb : Bounds v) {sid : Nat} {h2 : Sender Closure}
    (heven : ∀ f, h2.reads f + (v.senders sid).noted f = (v.senders sid).reads f + h2.noted f)
    (hused : sid < v.nextSid ∨ ∀ f, h2.carried f = (v.senders sid).carried f) :
    Tallied (v.setSender sid h2) := by
  refine ⟨fun id cb => ?_, fun sid' hsid' f => ?_⟩
  · have hsum := total_update_add (f := fun _ h2 => Sender.reads (Closure.tells id cb) h2)
      (k := fun _ h2 => Sender.noted (Closure.tells id cb) h2) (n := v.nextSid) v.senders h2
      (heven (Closure.tells id cb))
    have hold := h.1 id cb
    simp only [notedBy, readBy, Desk.setSender] at hold ⊢
    omega
  · have hsid' : v.nextSid ≤ sid' := hsid'
    by_cases heq : sid' = sid
    · subst heq
      have hcarried := (hused.resolve_left (by omega)) f
      have hle := Sender.noted_le_carried f h2
      have hnone := hb.senders sid' hsid' f
      have hold := h.2 sid' hsid' f
      have := heven f
      simp only [Desk.setSender, Function.update_self]
      omega
    · simp only [Desk.setSender, Function.update_of_ne heq]
      exact h.2 sid' hsid' f

theorem total_submit_zero {f : Sender Closure → Nat} {h2 : Sender Closure} (h0 : f h2 = 0)
    (h1 : f (v.senders (v.nextSid + 1)) = 0) :
    total (fun _ h2 => f h2) (v.submit h2).nextSid (v.submit h2).senders =
      total (fun _ h2 => f h2) v.nextSid v.senders := by
  simp only [submit, Desk.setSender]
  rw [total_succ, total_succ, total_update_of_le _ _ (Nat.le_refl _), Function.update_self,
    Function.update_of_ne (by omega), h0, h1]
  rfl

/-- A new stream of the session, of which nothing is read yet. -/
theorem Tallied.submit (h : Tallied v) (hb : Bounds v) {h2 : Sender Closure} (hread : h2.read = [])
    (hnotes : h2.notes = []) : Tallied (v.submit h2) := by
  refine ⟨fun id cb => ?_, fun sid hsid f => ?_⟩
  · have hnext : (v.senders (v.nextSid + 1)).noted (Closure.tells id cb) = 0 := by
      have hle := Sender.noted_le_carried (Closure.tells id cb) (v.senders (v.nextSid + 1))
      have hnone := hb.senders (v.nextSid + 1) (by omega) (Closure.tells id cb)
      omega
    rw [notedBy, readBy, total_submit_zero (by simp [Sender.noted, hnotes]) hnext,
      total_submit_zero (by simp [Sender.reads, hread]) (h.2 _ (by omega) _)]
    exact h.1 id cb
  · have hsid : v.nextSid + 2 ≤ sid := hsid
    have hne : sid ≠ v.nextSid := by omega
    simp only [Desk.submit, Desk.setSender, Function.update_of_ne hne]
    exact h.2 sid (by omega) f

/-- A notification runs. -/
theorem Tallied.pop (h : Tallied v) (hb : Bounds v) {sid : Nat} {n : Closure}
    {notes : List Closure} (hn : (v.senders sid).notes = n :: notes) :
    Tallied ((v.setSender sid { v.senders sid with notes }).note
      (tellFlushed n.id n.cb .okay)) := by
  refine ⟨fun id cb => ?_, fun sid' hsid' f => ?_⟩
  · have hreads : total (fun _ h2 => Sender.reads (Closure.tells id cb) h2) v.nextSid
        (Function.update v.senders sid { v.senders sid with notes }) =
          v.readBy (Closure.tells id cb) := total_update_same _ _ rfl
    have hnotes := total_update (f := fun _ h2 => Sender.noted (Closure.tells id cb) h2) v.senders
      { v.senders sid with notes } (hb.sender_lt hn)
    simp only [Sender.noted, hn, List.map_cons, List.sum_cons] at hnotes
    have hold := h.1 id cb
    simp only [notedBy, readBy, Sender.noted, note, Desk.setSender, List.countP_append,
      countP_tellFlushed] at hold hreads ⊢
    omega
  · have hlt := hb.sender_lt hn
    have hsid' : v.nextSid ≤ sid' := hsid'
    simp only [note, Desk.setSender, Function.update_of_ne (show sid' ≠ sid by omega)]
    exact h.2 sid' hsid' f

theorem submitRequest_read (fields : HeaderMap) (body : Bytes) :
    (submitRequest fields body).read = [] ∧ (submitRequest fields body).notes = [] := by
  unfold submitRequest
  dsimp only
  split
  · exact ⟨rfl, rfl⟩
  · next hne =>
      rw [Bool.eq_false_of_not_eq_true hne]
      exact ⟨rfl, rfl⟩

theorem Tallied.told (h : Tallied v) {os : List Obs} (hos : ∀ o ∈ os, o.okFlushed = false) :
    Tallied (v.note os) :=
  h.say rfl hos rfl fun _ => ⟨rfl, rfl⟩

theorem tallied_move (hhonest : E.honest) (hb : Bounds v) (h : Tallied v) (hm : Move E v v') :
    Tallied v' := by
  cases hm with
  | credit sid n =>
      exact h.setSender hb (fun f => Sender.credit_reads f _ n)
        (.inr fun f => Sender.credit_carried f _ n)
  | close sid =>
      exact h.setSender hb (fun f => rfl) (.inr fun f => Sender.close_carried f _)
  | reset sid => exact h.setSender hb (fun f => rfl) (.inr fun f => rfl)
  | consumed hn => exact h.pop hb hn
  | consumedLate hn => exact h.pop hb hn
  | lost => exact h.say rfl silent_lost rfl fun sid => ⟨rfl, rfl⟩
  | callSubmitted fields body hn =>
      obtain ⟨hread, hnotes⟩ := submitRequest_read fields body
      cases hn <;> exact Tallied.submit h
        ⟨hb.pos, hb.calls, hb.streams, hb.sids, hb.opening, hb.senders⟩ hread hnotes
  | streamOpened hn =>
      cases hn <;> exact Tallied.submit h
        ⟨hb.pos, hb.calls, hb.streams, hb.sids, hb.opening, hb.senders⟩ rfl rfl
  | callFailed status hn => cases hn <;> exact h.told (silent_one rfl)
  | callOver | cancelled => exact h.told (silent_one rfl)
  | callTimedOut => exact h.told (silent_if (silent_one rfl))
  | streamFailed status hn hst => cases hn <;> exact h.told (silent_fail hst _ _ _)
  | streamFed => exact h.told (silent_if (silent_messages _ _))
  | streamOver _ _ _ _ _ _ hqueue => exact h.told (silent_over (hqueue hhonest) _ _)
  | sendRefused status hp hst => exact h.told (silent_flushed hst _ _)
  | closeSent hst =>
      exact h.setSender hb (fun f => Sender.sendData_reads f _ _ _ none)
        (.inl (hb.sids _ _ hst).2)
  | pumped hst =>
      exact h.setSender hb (fun f => Sender.sendData_reads f _ _ _ _) (.inl (hb.sids _ _ hst).2)
  | _ => exact h

theorem tallied_fresh (o : Options) : Tallied (desk (fresh o).st (fresh o).frames) :=
  ⟨fun _ _ => rfl, fun _ _ _ => rfl⟩

/-! ## Where the bodies come from -/

section Vouched

variable {S : Nat → Bytes → CbId → Prop}

/-- The messages of the stream's queue were given with their callbacks. -/
def Vouched (S : Nat → Bytes → CbId → Prop) (id : Nat) (queue : List OutMsg) : Prop :=
  ∀ m ∈ queue, ∀ k, m.cb = some k → S id m.framed k

theorem Vouched.append {id : Nat} {q q' : List OutMsg} (h : Vouched S id q)
    (h' : Vouched S id q') : Vouched S id (q ++ q') := by
  intro m hm
  exact (List.mem_append.mp hm).elim (h m) (h' m)

/-- `closeLast` keeps the bytes and the callback of each message. -/
theorem Vouched.closeLast {id : Nat} {queue : List OutMsg} (h : Vouched S id queue) :
    Vouched S id (closeLast queue) := by
  induction queue using closeLast.induct with
  | case1 => exact h
  | case2 m =>
      intro m' hm'
      obtain rfl := List.mem_singleton.mp hm'
      exact h m List.mem_cons_self
  | case3 m ms hne ih =>
      rw [Channel.closeLast]
      · intro m' hm'
        rcases List.mem_cons.mp hm' with rfl | hm'
        · exact h m' List.mem_cons_self
        · exact ih (fun x hx => h x (List.mem_cons_of_mem _ hx)) m' hm'
      · exact hne

theorem Vouched.closeQueue {id : Nat} {queue : List OutMsg} (h : Vouched S id queue) :
    Vouched S id (closeQueue queue) := by
  unfold Channel.closeQueue
  split
  · intro m hm k hk
    obtain rfl := List.mem_singleton.mp hm
    cases hk
  · exact h.closeLast

theorem Vouched.seedQueue {id : Nat} {queue : List OutMsg} (h : Vouched S id queue) :
    Vouched S id (seedQueue queue) := by
  unfold Channel.seedQueue
  split
  · exact h.closeLast
  · exact h

/-- The notification of a body that was given with its callback. -/
def Meant (S : Nat → Bytes → CbId → Prop) (n : Closure) (data : Bytes) : Prop :=
  ∀ k, n.cb = some k → S n.id data k

/-- Whoever holds a callback holds the message that it was given with. -/
structure Vouches (S : Nat → Bytes → CbId → Prop) (posted : List Task)
    (parked : List PendingStream) (todo : List Frame) (streams : Nat → Option Stream)
    (senders : Nat → Sender Closure) : Prop where
  posted : ∀ id framed k close, .streamSend id framed (some k) close ∈ posted → S id framed k
  parked : ∀ ps ∈ parked, Vouched S ps.id ps.outQueue
  opening : ∀ sid ps decoder, .openStreamRest sid ps decoder ∈ todo → Vouched S ps.id ps.outQueue
  streams : ∀ id st, streams id = some st → Vouched S id st.outQueue
  senders : ∀ sid, (senders sid).Backed (Meant S)

abbrev Honest (S : Nat → Bytes → CbId → Prop) (v : Desk) : Prop :=
  Vouches S v.posted v.parked v.todo v.streams v.senders

theorem Honest.mono {S' : Nat → Bytes → CbId → Prop} (hS : ∀ id data k, S id data k → S' id data k)
    (h : Honest S v) : Honest S' v where
  posted id framed k close hp := hS _ _ _ (h.posted id framed k close hp)
  parked ps hps m hm k hk := hS _ _ _ (h.parked ps hps m hm k hk)
  opening sid ps decoder hf m hm k hk := hS _ _ _ (h.opening sid ps decoder hf m hm k hk)
  streams id st hst m hm k hk := hS _ _ _ (h.streams id st hst m hm k hk)
  senders sid := (h.senders sid).mono fun _ _ hn k hk => hS _ _ _ (hn k hk)

section Parts

variable {posted : List Task} {parked : List PendingStream} {todo : List Frame}
  {streams : Nat → Option Stream} {senders : Nat → Sender Closure}

theorem Vouches.popTask (h : Vouches S posted parked todo streams senders) {t : Task}
    {ts : List Task} (hp : posted = t :: ts) : Vouches S ts parked todo streams senders where
  posted id framed k close hmem := h.posted id framed k close (hp ▸ List.mem_cons_of_mem t hmem)
  parked := h.parked
  opening := h.opening
  streams := h.streams
  senders := h.senders

theorem Vouches.post (h : Vouches S posted parked todo streams senders) {t : Task}
    (ht : ∀ id framed k close, t = .streamSend id framed (some k) close → S id framed k) :
    Vouches S (posted ++ [t]) parked todo streams senders where
  posted id framed k close hmem := by
    rcases List.mem_append.mp hmem with hmem | hmem
    · exact h.posted id framed k close hmem
    · exact ht id framed k close (List.mem_singleton.mp hmem).symm
  parked := h.parked
  opening := h.opening
  streams := h.streams
  senders := h.senders

theorem Vouches.popFrame (h : Vouches S posted parked todo streams senders) {f : Frame}
    {fs : List Frame} (hf : todo = f :: fs) : Vouches S posted parked fs streams senders where
  posted := h.posted
  parked := h.parked
  opening sid ps decoder hmem := h.opening sid ps decoder (hf ▸ List.mem_cons_of_mem f hmem)
  streams := h.streams
  senders := h.senders

theorem Vouches.push (h : Vouches S posted parked todo streams senders) {f : Frame}
    (hf : ∀ sid ps decoder, f = .openStreamRest sid ps decoder → Vouched S ps.id ps.outQueue) :
    Vouches S posted parked (f :: todo) streams senders where
  posted := h.posted
  parked := h.parked
  opening sid ps decoder hmem := by
    rcases List.mem_cons.mp hmem with heq | hmem
    · exact hf sid ps decoder heq.symm
    · exact h.opening sid ps decoder hmem
  streams := h.streams
  senders := h.senders

theorem Vouches.setStream (h : Vouches S posted parked todo streams senders) {id : Nat}
    {st : Stream} (hst : Vouched S id st.outQueue) :
    Vouches S posted parked todo (Function.update streams id (some st)) senders where
  posted := h.posted
  parked := h.parked
  opening := h.opening
  streams id' st' hst' := by
    rcases update_eq_some hst' with ⟨rfl, rfl⟩ | ⟨-, hst'⟩
    · exact hst
    · exact h.streams id' st' hst'
  senders := h.senders

theorem Vouches.setSender (h : Vouches S posted parked todo streams senders) {sid : Nat}
    {h2 : Sender Closure} (hh2 : h2.Backed (Meant S)) :
    Vouches S posted parked todo streams (Function.update senders sid h2) where
  posted := h.posted
  parked := h.parked
  opening := h.opening
  streams := h.streams
  senders sid' :=
    update_sender (P := fun _ h2 => Sender.Backed (Meant S) h2) sid' (h.senders sid') hh2

theorem mem_updateParked_of {id : Nat} {f : PendingStream → PendingStream}
    {parked : List PendingStream} {ps : PendingStream} (h : ps ∈ updateParked id f parked) :
    ps ∈ parked ∨ ∃ old ∈ parked, old.id = id ∧ ps = f old := by
  induction parked with
  | nil => cases h
  | cons p parked ih =>
      unfold updateParked at h
      split at h
      · next hid =>
          rcases List.mem_cons.mp h with rfl | h
          · exact .inr ⟨p, List.mem_cons_self, hid, rfl⟩
          · exact .inl (List.mem_cons_of_mem p h)
      · rcases List.mem_cons.mp h with rfl | h
        · exact .inl List.mem_cons_self
        · rcases ih h with h | ⟨old, hold, hid, heq⟩
          · exact .inl (List.mem_cons_of_mem p h)
          · exact .inr ⟨old, List.mem_cons_of_mem p hold, hid, heq⟩

theorem Vouches.updateParked (h : Vouches S posted parked todo streams senders) {id : Nat}
    {f : List OutMsg → List OutMsg} (hf : ∀ q, Vouched S id q → Vouched S id (f q)) :
    Vouches S posted (updateParked id (fun ps => { ps with outQueue := f ps.outQueue }) parked)
      todo streams senders where
  posted := h.posted
  parked ps hps := by
    rcases mem_updateParked_of hps with hps | ⟨old, hold, rfl, rfl⟩
    · exact h.parked ps hps
    · exact hf _ (h.parked old hold)
  opening := h.opening
  streams := h.streams
  senders := h.senders

end Parts

theorem NextCall.honest {id : Nat} {call : NewCall} (hn : NextCall v id call v')
    (h : Honest S v) : Honest S v' := by
  cases hn with
  | posted timer hp => exact h.popTask hp
  | pending => exact h

theorem NextStream.honest {ps : PendingStream} (hn : NextStream v ps v') (h : Honest S v) :
    Honest S v' ∧ Vouched S ps.id ps.outQueue := by
  cases hn with
  | posted hp hq =>
      refine ⟨h.popTask hp, ?_⟩
      rw [hq]
      exact fun m hm => by cases hm
  | parked hp =>
      have hall := h.parked
      rw [hp] at hall
      exact ⟨{ h with parked := fun ps' hps' => hall ps' (List.mem_cons_of_mem _ hps') },
        hall ps List.mem_cons_self⟩

theorem backed_fresh : Sender.Backed (Meant S) {} :=
  ⟨fun _ hi => (by cases hi), fun _ he => by cases he⟩

theorem backed_submitRequest (fields : HeaderMap) (body : Bytes) :
    (submitRequest fields body).Backed (Meant S) := by
  have hheaders := (backed_fresh (S := S)).sendHeaders fields body.isEmpty
  unfold submitRequest
  dsimp only
  split
  · exact hheaders
  · exact hheaders.sendData (fun _ hn => by cases hn) true

theorem honest_move (hsent : ∀ id framed k, E.sent id framed k → S id framed k)
    (h : Honest S v) (hm : Move E v v') : Honest S v' := by
  have hqueue : ∀ {id : Nat} {st : Stream}, v.streams id = some st → Vouched S id st.outQueue :=
    fun hst => h.streams _ _ hst
  have hkeep : ∀ {id : Nat} {st st' : Stream}, v.streams id = some st →
      st'.outQueue = st.outQueue → Vouches S v.posted v.parked v.todo
        (Function.update v.streams id (some st')) v.senders :=
    fun hst heq => h.setStream (heq ▸ hqueue hst)
  cases hm with
  | call | openStream => exact h.post fun _ _ _ _ heq => by cases heq
  | streamSend id framed cb close hs =>
      refine h.post fun _ _ k _ heq => ?_
      cases heq
      exact hsent _ _ _ (hs k rfl)
  | post ht =>
      refine h.post fun _ _ _ _ heq => ?_
      rw [heq] at ht
      cases ht
  | credit sid n => exact h.setSender ((h.senders sid).credit n)
  | close sid => exact h.setSender (h.senders sid).close
  | reset sid => exact h.setSender ((h.senders sid).submitted rfl rfl rfl)
  | @consumed sid n notes st hn hst =>
      have hsender : Sender.Backed (Meant S) { v.senders sid with notes } :=
        ⟨(h.senders sid).item, (h.senders sid).read⟩
      refine ((hkeep hst ?_).setSender hsender).post fun _ _ _ _ heq => ?_
      · rfl
      · cases heq
  | @consumedLate sid n notes hn =>
      exact h.setSender ⟨(h.senders sid).item, (h.senders sid).read⟩
  | connected _ htodo =>
      refine { h with opening := fun sid ps decoder hmem => ?_ }
      simp at hmem
  | started hf | startedStreams hf | callGone hf | callTimedOut hf | cancelled hf
  | callRegistered hf | streamGone hf => exact h.popFrame hf
  | lost =>
      exact { h with
        parked := fun ps hps => by cases hps
        streams := fun id st hst => by cases hst
        senders := fun sid => (h.senders sid).close }
  | skip hp | callParked timer hp | sendRefused status hp => exact h.popTask hp
  | callSubmitted fields body hn =>
      rw [← hn.same.1]
      refine ((hn.honest h).setSender (backed_submitRequest fields body)).push fun _ _ _ heq => ?_
      cases heq
  | callFailed status hn => exact hn.honest h
  | callTimeout | cancel => exact h.push fun _ _ _ heq => by cases heq
  | streamParked hp hq =>
      refine { h.popTask hp with parked := fun ps' hps' => ?_ }
      rcases List.mem_append.mp hps' with hps' | hps'
      · exact h.parked ps' hps'
      · obtain rfl := List.mem_singleton.mp hps'
        rw [hq]
        exact fun m hm => by cases hm
  | streamOpened hn =>
      obtain ⟨hrest, hps⟩ := hn.honest h
      rw [← hn.same.1]
      refine (hrest.setSender (backed_fresh.sendHeaders _ _)).push fun _ _ _ heq => ?_
      cases heq
      exact hps
  | streamFailed status hn => exact (hn.honest h).1
  | @streamRegistered sid ps decoder fs timer hf =>
      have hps := h.opening sid ps decoder (hf ▸ List.mem_cons_self)
      refine (h.popFrame hf).setStream ?_
      exact hps.seedQueue
  | streamFed _ _ hst | closeMarked hst => exact hkeep hst rfl
  | streamOver =>
      refine h.setStream ?_
      exact fun m hm => by cases hm
  | streamTimeout hst =>
      refine (hkeep hst ?_).push fun _ _ _ heq => ?_
      · rfl
      · cases heq
  | streamErased hf =>
      refine { h.popFrame hf with streams := fun id' st' hst' => ?_ }
      exact h.streams id' st' (erase_eq_some hst').2
  | @sendParked id framed cb close ts ps hp hps =>
      have hnew : Vouched S id [⟨framed, close, cb⟩] := by
        intro m hm k hk
        obtain rfl := List.mem_singleton.mp hm
        obtain rfl : cb = some k := hk
        exact h.posted id framed k close (hp ▸ List.mem_cons_self)
      exact (h.popTask hp).updateParked fun q hq => hq.append hnew
  | @sendQueued id framed cb close ts st hp hst =>
      have hnew : Vouched S id [⟨framed, close, cb⟩] := by
        intro m hm k hk
        obtain rfl := List.mem_singleton.mp hm
        obtain rfl : cb = some k := hk
        exact h.posted id framed k close (hp ▸ List.mem_cons_self)
      exact (h.popTask hp).setStream ((hqueue hst).append hnew)
  | closeParked id => exact h.updateParked fun q hq => hq.closeQueue
  | closeQueued hst => exact h.setStream (hqueue hst).closeLast
  | closeSent hst =>
      refine (hkeep hst ?_).setSender ((h.senders _).sendData (n := none) (fun _ hn => ?_) true)
      · rfl
      · cases hn
  | @pumped id st out queue hst hq =>
      have hall := hqueue hst
      rw [hq] at hall
      refine (h.setStream fun m hm => hall m (List.mem_cons_of_mem _ hm)).setSender
        ((h.senders _).sendData (fun n hn => ?_) out.close)
      cases hn
      exact hall out List.mem_cons_self
  | _ => exact h

end Vouched

end Desk

/-! ## What the end of a stream tells -/

/-- The stream is live, or its end has told its queue. In a step that can end a stream the queue of
    a live one waits as it was, and `on_flushed` is not called with OK. -/
def Failing (E : Env) (id : Nat) (queue : List OutMsg) (log : List Obs) (v : Desk) : Prop :=
  ∃ os, v.log = log ++ os ∧ (E.ending → ∀ o ∈ os, o.okFlushed = false) ∧
    ((∃ st, v.streams id = some st ∧ st.completed = false ∧ (E.ending → st.outQueue = queue)) ∨
      ¬ E.lasting ∧ ∃ status, ∀ o ∈ failQueue id queue status, o ∈ os)

section Ends

variable {E : Env} {v v' : Desk} {id : Nat} {queue : List OutMsg} {log : List Obs}

/-- A move that tells `os`, and leaves the live stream its queue or tells all of it. -/
theorem Failing.say (hE : E.lasting ∨ E.ending) (h : Failing E id queue log v) {os : List Obs}
    (hlog : v'.log = v.log ++ os) (hos : E.ending → ∀ o ∈ os, o.okFlushed = false)
    (hst : ∀ st, v.streams id = some st → st.completed = false →
      (∃ st', v'.streams id = some st' ∧ st'.completed = false ∧
        (E.ending → st'.outQueue = st.outQueue)) ∨
      ¬ E.lasting ∧ ∃ status, ∀ o ∈ failQueue id st.outQueue status, o ∈ os) :
    Failing E id queue log v' := by
  obtain ⟨os', hlog', hos', hqueue⟩ := h
  refine ⟨os' ++ os, by rw [hlog, hlog', List.append_assoc], fun he o ho => ?_, ?_⟩
  · exact (List.mem_append.mp ho).elim (hos' he o) (hos he o)
  · rcases hqueue with ⟨st, hlive, hc, hq⟩ | ⟨hlast, status, hall⟩
    · rcases hst st hlive hc with ⟨st', hlive', hc', hq'⟩ | ⟨hlast, status, hall⟩
      · exact .inl ⟨st', hlive', hc', fun he => (hq' he).trans (hq he)⟩
      · rw [hq (hE.resolve_left hlast)] at hall
        exact .inr ⟨hlast, status, fun o ho => List.mem_append_right _ (hall o ho)⟩
    · exact .inr ⟨hlast, status, fun o ho => List.mem_append_left _ (hall o ho)⟩

theorem failing_move (hE : E.lasting ∨ E.ending) (hhonest : E.honest) (hb : Desk.Bounds v)
    (h : Failing E id queue log v) (hm : Desk.Move E v v') : Failing E id queue log v' := by
  have hsame : ∀ {os : List Obs}, v'.log = v.log ++ os →
      (E.ending → ∀ o ∈ os, o.okFlushed = false) → v'.streams = v.streams →
      Failing E id queue log v' :=
    fun hlog hos heq => h.say hE hlog hos fun st hst hc => .inl ⟨st, heq ▸ hst, hc, fun _ => rfl⟩
  -- one stream changes
  have hset : ∀ {id' : Nat} {x : Option Stream} {os : List Obs}, v'.log = v.log ++ os →
      (E.ending → ∀ o ∈ os, o.okFlushed = false) → v'.streams = Function.update v.streams id' x →
      (∀ st, v.streams id' = some st → st.completed = false →
        (∃ st', x = some st' ∧ st'.completed = false ∧
          (E.ending → st'.outQueue = st.outQueue)) ∨
        ¬ E.lasting ∧ ∃ status, ∀ o ∈ failQueue id' st.outQueue status, o ∈ os) →
      Failing E id queue log v' := by
    intro id' x os hlog hos heq hx
    refine h.say hE hlog hos fun st hst hc => ?_
    rw [heq]
    by_cases hne : id = id'
    · subst hne
      rw [Function.update_self]
      exact hx st hst hc
    · exact .inl ⟨st, by rw [Function.update_of_ne hne, hst], hc, fun _ => rfl⟩
  have hkeep : ∀ {id' : Nat} {st st' : Stream} {os : List Obs}, v.streams id' = some st →
      v'.log = v.log ++ os → v'.streams = Function.update v.streams id' (some st') →
      st'.completed = st.completed → (E.ending → ∀ o ∈ os, o.okFlushed = false) →
      (E.ending → st'.outQueue = st.outQueue) → Failing E id queue log v' := by
    intro id' st st' os hst hlog heq hc hos hq
    refine hset hlog hos heq fun st₀ hst₀ hc₀ => .inl ⟨st', rfl, ?_⟩
    obtain rfl := Option.some.inj (hst.symm.trans hst₀)
    exact ⟨hc.trans hc₀, hq⟩
  have hnil : v.log = v.log ++ [] := (List.append_nil _).symm
  cases hm with
  | consumed _ hst hno => exact hkeep hst rfl rfl rfl (absurd · hno) (absurd · hno)
  | consumedLate _ _ hno => exact hsame rfl (absurd · hno) rfl
  | sendQueued _ hst _ _ _ _ hno => exact hkeep hst hnil rfl rfl (by simp) (absurd · hno)
  | closeQueued hst _ _ hno => exact hkeep hst hnil rfl rfl (by simp) (absurd · hno)
  | pumped hst _ _ _ _ hno => exact hkeep hst hnil rfl rfl (by simp) (absurd · hno)
  | streamRegistered _ _ hno =>
      exact hset hnil (by simp) rfl fun _ _ _ => .inl ⟨_, rfl, rfl, (absurd · hno)⟩
  | lost _ _ _ _ hlast =>
      refine h.say hE rfl (fun _ => silent_lost) fun st hst hc =>
        .inr ⟨hlast, connectionLost, fun o ho => ?_⟩
      refine List.mem_append_left _ (List.mem_append_left _ (List.mem_flatMap.mpr
        ⟨(id, st), mem_entries.mpr ⟨hb.stream_lt hst, hst⟩, ?_⟩))
      simp only [hc, Bool.false_eq_true, if_false]
      exact List.mem_append_left _ ho
  | callSubmitted _ _ hn | streamOpened hn => cases hn <;> exact hsame hnil (by simp) rfl
  | callFailed _ hn => cases hn <;> exact hsame rfl (fun _ => silent_one rfl) rfl
  | callOver | cancelled => exact hsame rfl (fun _ => silent_one rfl) rfl
  | callTimedOut => exact hsame rfl (fun _ => silent_if (silent_one rfl)) rfl
  | streamFailed _ hn hst =>
      cases hn <;> exact hsame rfl (fun _ => silent_fail hst _ _ _) rfl
  | sendRefused _ _ hst => exact hsame rfl (fun _ => silent_flushed hst _ _) rfl
  | streamFed _ _ hst =>
      exact hkeep hst rfl rfl rfl (fun _ => silent_if (silent_messages _ _)) fun _ => rfl
  | streamOver _ status hst _ _ _ hqueue hlast =>
      refine hset rfl (fun _ => silent_over (hqueue hhonest) _ _) rfl fun st' hst' _ =>
        .inr ⟨hlast, status, fun o ho => ?_⟩
      rw [Option.some.inj (hst'.symm.trans hst)] at ho
      exact List.mem_append_left _ ho
  | streamErased _ hst hc =>
      refine hset hnil (by simp) rfl fun st hst' hc' => ?_
      rw [Option.some.inj (hst'.symm.trans hst), hc] at hc'
      cases hc'
  | streamTimeout hst | closeMarked hst | closeSent hst =>
      exact hkeep hst hnil rfl rfl (by simp) fun _ => rfl
  | _ => exact hsame hnil (by simp) rfl

end Ends

/-- A parked stream stays parked, unless the step starts it. -/
theorem Desk.parked_move {E : Env} {v v' : Desk} {id : Nat} (hpark : E.parking)
    (hr : Desk.Rest E v) (hm : Desk.Move E v v')
    (h : 0 < v.parked.countP fun ps => ps.id = id) :
    0 < v'.parked.countP fun ps => ps.id = id := by
  cases hm with
  | callSubmitted _ _ hn | callFailed _ hn => cases hn <;> exact h
  | streamOpened _ _ hsame | streamFailed _ _ _ hsame =>
      rw [← hsame hpark] at h
      exact h
  | streamParked =>
      simp only [List.countP_append]
      omega
  | sendParked | closeParked =>
      exact Nat.lt_of_lt_of_eq h (countP_updateParked _ _ _ (by simp) _).symm
  | lost hses _ htodo =>
      have hnone := (hr.parked (hr.session hses)).resolve_left (by simp [htodo])
      simp [hnone] at h
  | _ => exact h

/-- `StartPendingStreams` opens the first parked stream, or fails it. -/
theorem startPendingStreams_told {s : State} {ps : PendingStream} (hps : ps ∈ s.pendingStreams) :
    ps ∈ (startPendingStreams s).1.pendingStreams ∨
      (∃ sid decoder, .openStreamRest sid ps decoder ∈ (startPendingStreams s).2) ∨
      (startPendingStreams s).1.log =
        s.log ++ tellFail ps.id ps.outQueue ps.events submitFailed := by
  unfold startPendingStreams
  cases hq : s.pendingStreams with
  | nil => simp [hq] at hps
  | cons p rest =>
      rw [hq] at hps
      unfold openStreamNow State.submit
      rcases List.mem_cons.mp hps with rfl | hrest
      · by_cases hrefuse : s.refusing = true
        · simp [hrefuse, State.note]
        · simp [hrefuse]
      · by_cases hrefuse : s.refusing = true <;>
          simp [hrefuse, State.note, State.setSender, hrest]

/-! ## Runs -/

/-- The messages given to `StreamSend` with a callback. -/
def send (sent : List (Nat × Bytes × CbId)) : Label → List (Nat × Bytes × CbId)
  | .event (.streamSend id framed (some k) _) => sent ++ [(id, framed, k)]
  | _ => sent

/-- As many bodies were read to their end as `on_flushed` calls with OK were made or are waiting
    as notifications; and each body was given to `SendData`, and before to `StreamSend` with that
    callback. -/
structure Truthful (c : Conf) (sent : List (Nat × Bytes × CbId)) : Prop where
  even : (desk c.st c.frames).Even
  given : ∀ sid n data k, (n, data) ∈ (c.st.senders sid).read → n.cb = some k →
    data ∈ bodies (c.st.senders sid).subs ∧ (n.id, data, k) ∈ sent

/-- What a step tells. -/
def news (c d : Conf) : List Obs := d.st.log.drop c.st.log.length

/-- The callbacks of this queue get a status, and not OK. -/
def FailedQueue (c d : Conf) (id : Nat) (queue : List OutMsg) : Prop :=
  ∀ m ∈ queue, ∀ k, m.cb = some k →
    (∃ status, .flushed id k status ∈ news c d) ∧
      ∀ status, .flushed id k status ∈ news c d → status.ok = false

/-- The step fails the queue of each stream that it ends, and of each parked stream that it takes
    out and does not open. -/
structure QueuedFail (c d : Conf) : Prop where
  streams : ∀ id st, live c.st id = some st → live d.st id = none → FailedQueue c d id st.outQueue
  parked : ∀ ps ∈ c.st.pendingStreams, (∀ ps' ∈ d.st.pendingStreams, ps'.id ≠ ps.id) →
    (∀ sid ps' decoder, .openStreamRest sid ps' decoder ∈ d.frames → ps'.id ≠ ps.id) →
    FailedQueue c d ps.id ps.outQueue

/-- Steps in which no block of header fields ends, with OK, a stream that has a message with a
    callback in its queue. -/
def honestEnds (c : Conf) (l : Label) : Prop := honestEnd c l = true

instance (c : Conf) (l : Label) : Decidable (honestEnds c l) :=
  inferInstanceAs (Decidable (honestEnd c l = true))

/-- What truth rests on. -/
structure Vouching (c : Conf) (sent : List (Nat × Bytes × CbId)) : Prop where
  rest : Desk.Rest Env.any (desk c.st c.frames)
  books : Desk.Books (desk c.st c.frames)
  tallied : Desk.Tallied (desk c.st c.frames)
  honest : Desk.Honest (fun id data k => (id, data, k) ∈ sent) (desk c.st c.frames)

section Runs

variable {o : Options} {c d : Conf} {l : Label} {sent : List (Nat × Bytes × CbId)}

theorem subset_send (sent : List (Nat × Bytes × CbId)) (l : Label) : sent ⊆ send sent l := by
  unfold send
  split
  · exact List.subset_append_left _ _
  · exact List.Subset.refl _

theorem vouching_step (h : Vouching c sent) (hok : honestEnds c l)
    (hs : machine.step c l = some d) : Vouching d (send sent l) := by
  let E : Env := { Env.any with
    honest := True, sent := fun id data k => (id, data, k) ∈ send sent l }
  have hallows : E.Allows c l := by
    refine { honest := fun _ => hok, sent := fun id framed k close hl => ?_ }
    subst hl
    exact List.mem_append_right _ (List.mem_singleton_self _)
  have hrest : Desk.Rest E (desk c.st c.frames) := { h.rest with clear := False.elim }
  have hhonest : Desk.Honest (fun id data k => (id, data, k) ∈ send sent l)
      (desk c.st c.frames) := h.honest.mono fun _ _ _ hmem => subset_send sent l hmem
  obtain ⟨hrest', hbooks, htallied, hhonest'⟩ := step_desk (E := E)
    (I := fun v => Desk.Books v ∧ Desk.Tallied v ∧
      Desk.Honest (fun id data k => (id, data, k) ∈ send sent l) v)
    (fun v w hr hi hm => ⟨Desk.books_move hr hi.1 hm,
      Desk.tallied_move trivial hi.1.bounds hi.2.1 hm,
      Desk.honest_move (fun _ _ _ hmem => hmem) hi.2.2 hm⟩)
    hrest ⟨h.books, h.tallied, hhonest⟩ hallows hs
  exact ⟨{ hrest' with clear := False.elim }, hbooks, htallied, hhonest'⟩

theorem vouching_hist (h : machine.Hist send honestEnds (fresh o) [] c sent) : Vouching c sent := by
  refine h.inv (I := Vouching) ⟨Desk.rest_fresh _ o, Desk.books_fresh o, Desk.tallied_fresh o, ?_⟩
    fun _ _ _ _ => vouching_step
  exact {
    posted := fun _ _ _ _ hmem => by cases hmem
    parked := fun _ hmem => by cases hmem
    opening := fun _ _ _ hmem => by cases hmem
    streams := fun _ _ hst => by cases hst
    senders := fun _ => Desk.backed_fresh }

theorem Vouching.truthful (h : Vouching c sent) : Truthful c sent where
  even := h.tallied.1
  given sid n data k hmem hk := by
    obtain ⟨hsub, hgiven⟩ := (h.honest.senders sid).read (n, data) hmem
    exact ⟨hsub, hgiven k hk⟩

theorem mem_failQueue {id : Nat} {queue : List OutMsg} {m : OutMsg} {k : CbId} (hm : m ∈ queue)
    (hk : m.cb = some k) (status : Status) : .flushed id k status ∈ failQueue id queue status :=
  List.mem_flatMap.mpr ⟨m, hm, by simp [tellFlushed, hk]⟩

theorem Vouching.streamsFail (h : Vouching c sent) (hok : honestEnds c l)
    (hs : machine.step c l = some d) {id : Nat} {st : Stream} (hl : live c.st id = some st)
    (hd : live d.st id = none) : FailedQueue c d id st.outQueue := by
  intro m hm k hk
  obtain ⟨hst, hc⟩ := of_live hl
  let E : Env := { Env.any with
    honest := True, lasting := mayEnd c l = false, ending := mayEnd c l = true }
  have hrest : Desk.Rest E (desk c.st c.frames) := { h.rest with clear := False.elim }
  obtain ⟨-, -, os, hlog, hos, hqueue⟩ := step_desk (E := E)
    (I := fun v => Desk.Books v ∧ Failing E id st.outQueue c.st.log v)
    (fun v w hr hi hm => ⟨Desk.books_move hr hi.1 hm,
      failing_move (Bool.eq_false_or_eq_true _).symm trivial hi.1.bounds hi.2 hm⟩)
    hrest ⟨h.books, [], (List.append_nil _).symm, by simp, .inl ⟨st, hst, hc, fun _ => rfl⟩⟩
    { honest := fun _ => hok, lasting := fun h => h, ending := fun h => h } hs
  have htold : news c d = os := by
    have hlog : d.st.log = c.st.log ++ os := hlog
    rw [news, hlog, List.drop_left]
  rcases hqueue with ⟨st', hst', hc', -⟩ | ⟨hlast, status, hall⟩
  · cases (live_eq (s := d.st) hst' hc').symm.trans hd
  · rw [htold]
    exact ⟨⟨status, hall _ (mem_failQueue hm hk status)⟩,
      fun status' hmem => hos (Bool.eq_true_of_not_eq_false hlast) _ hmem⟩

theorem Vouching.parkedFail (h : Vouching c sent) (hs : machine.step c l = some d)
    {ps : PendingStream} (hps : ps ∈ c.st.pendingStreams)
    (hgone : ∀ ps' ∈ d.st.pendingStreams, ps'.id ≠ ps.id)
    (hopen : ∀ sid ps' decoder, .openStreamRest sid ps' decoder ∈ d.frames → ps'.id ≠ ps.id) :
    FailedQueue c d ps.id ps.outQueue := by
  intro m hm k hk
  by_cases htop : l = .resume ∧ c.frames.head? = some .startPendingStreams
  · obtain ⟨rfl, htop⟩ := htop
    obtain ⟨f, fs, hf, rfl⟩ := machine.step_resume hs
    rw [hf] at htop
    obtain rfl : f = .startPendingStreams := Option.some.inj htop
    rcases startPendingStreams_told hps with hmem | ⟨sid, decoder, hmem⟩ | hlog
    · exact absurd rfl (hgone ps hmem)
    · exact absurd rfl (hopen sid ps decoder (List.mem_append_left _ hmem))
    · have htold : news c ⟨(startPendingStreams c.st).1, (startPendingStreams c.st).2 ++ fs⟩ =
          tellFail ps.id ps.outQueue ps.events submitFailed := by
        rw [news, hlog, List.drop_left]
      refine ⟨⟨submitFailed, ?_⟩, fun status hmem => ?_⟩
      · exact htold.symm ▸ List.mem_append_left _ (mem_failQueue hm hk submitFailed)
      · have hmem : .flushed ps.id k status ∈ news c
            ⟨(startPendingStreams c.st).1, (startPendingStreams c.st).2 ++ fs⟩ := hmem
        rw [htold] at hmem
        have hbad : submitFailed.ok = false := rfl
        exact silent_fail hbad _ _ _ _ hmem
  · -- no parked stream is started in this step
    have hrest : Desk.Rest { Env.any with parking := True } (desk c.st c.frames) :=
      { h.rest with clear := False.elim }
    have hpos := (step_desk (I := fun v => 0 < v.parked.countP fun p => p.id = ps.id)
      (fun v w hr hi hm => Desk.parked_move trivial hr hm hi) hrest
      (List.countP_pos_iff.mpr ⟨ps, hps, by simp⟩)
      { parking := fun _ hl hf => htop ⟨hl, hf⟩ } hs).2
    obtain ⟨ps', hmem, hid⟩ := List.countP_pos_iff.mp hpos
    exact absurd (by simpa using hid) (hgone ps' hmem)

theorem Vouching.queuedFail (h : Vouching c sent) (hok : honestEnds c l)
    (hs : machine.step c l = some d) : QueuedFail c d where
  streams _ _ hl hd := h.streamsFail hok hs hl hd
  parked _ hps hgone hopen := h.parkedFail hs hps hgone hopen

theorem not_endsHonestly {s : State} {sid : Nat} {headers : HeaderMap}
    (h : endsHonestly s sid headers ≠ true) :
    ∃ id st gs m k, s.streamBySid sid = some id ∧ live s id = some st ∧
      find headers "grpc-status" = some gs ∧ (trailersStatus headers gs).ok = true ∧
      m ∈ st.outQueue ∧ m.cb = some k := by
  cases hid : s.streamBySid sid with
  | none => simp [endsHonestly, hid] at h
  | some id =>
      cases hst : live s id with
      | none => simp [endsHonestly, hid, hst] at h
      | some st =>
          cases hgs : find headers "grpc-status" with
          | none => simp [endsHonestly, hid, hst, hgs] at h
          | some gs =>
              simp only [endsHonestly, hid, hst, hgs, Option.bind_some, Option.all_some, ne_eq,
                Bool.or_eq_true, Bool.not_eq_true', List.all_eq_true, not_or, Bool.not_eq_false,
                not_forall, Option.isNone_iff_eq_none] at h
              obtain ⟨hok, m, hm, hcb⟩ := h
              obtain ⟨k, hk⟩ := Option.ne_none_iff_exists'.mp hcb
              exact ⟨id, st, gs, m, k, rfl, hst, rfl, hok, hm, hk⟩

/-- Such a block calls a callback of the queue with OK. -/
theorem not_queuedFail (hno : ¬ honestEnds c l) (hs : machine.step c l = some d) :
    ¬ QueuedFail c d := by
  intro hqueued
  obtain ⟨sid, fields, rfl⟩ : ∃ sid fields, l = .event (.headers sid fields) := by
    unfold honestEnds honestEnd at hno
    split at hno
    · exact ⟨_, _, rfl⟩
    · exact absurd rfl hno
  obtain ⟨id, st, gs, m, k, hid, hl, hgs, hok, hm, hk⟩ := not_endsHonestly hno
  obtain ⟨hst, hc⟩ := of_live hl
  obtain ⟨-, s', fs, hfire, rfl⟩ := Resume.System.step_event hs
  change fire (.headers sid fields) c.st = some (s', fs) at hfire
  simp only [fire] at hfire
  split at hfire
  · cases hfire
    have hover : onHeadersComplete c.st sid fields =
        completeStream c.st id st (trailersStatus fields gs) := by
      simp [onHeadersComplete, hid, hst, hc, hgs]
    have hdesk := desk_completeStream c.st [] id st (trailersStatus fields gs) hc
    have hstreams := congrFun (congrArg Desk.streams hdesk) id
    have hlog := congrArg Desk.log hdesk
    rw [hover] at hqueued
    have hdead : live (completeStream c.st id st (trailersStatus fields gs)) id = none := by
      have : (completeStream c.st id st (trailersStatus fields gs)).streams id = some _ :=
        hstreams.trans (Function.update_self ..)
      simp [live, this]
    have hbad := (hqueued.streams id st hl hdead m hm k hk).2 (trailersStatus fields gs) ?_
    · rw [hok] at hbad
      cases hbad
    · have hlog : (completeStream c.st id st (trailersStatus fields gs)).log = c.st.log ++
          tellFail id st.outQueue st.events (trailersStatus fields gs) := hlog
      rw [news, hlog, List.drop_left]
      exact List.mem_append_left _ (mem_failQueue hm hk _)
  · cases hfire

end Runs

/-- **An `on_flushed` with OK is truthful**, in a run in which no block of header fields ends with
    OK a stream that has a callback in its queue: the calls with OK are those of messages that
    the session read to their end. In such a run a step keeps this, and gives the messages in the
    queue of a stream that it ends or cannot open a status other than OK, exactly if it is no such
    block. -/
theorem flushed_ok_truthful (o : Options) (c : Conf) (sent : List (Nat × Bytes × CbId))
    (h : machine.Hist send honestEnds (fresh o) [] c sent) :
    Truthful c sent ∧ ∀ l d, machine.step c l = some d →
      (Truthful d (send sent l) ∧ QueuedFail c d ↔ honestEnds c l) := by
  have hv := vouching_hist h
  refine ⟨hv.truthful, fun l d hs => ⟨fun hd => ?_, fun hok => ?_⟩⟩
  · by_contra hno
    exact not_queuedFail hno hs hd.2
  · exact ⟨(vouching_step hv hok hs).truthful, hv.queuedFail hok hs⟩

/-- Two messages; the first is read to its end, the second is still queued when the stream
    closes. -/
theorem flushed_ok_truthful_two :
    ∃ c d sent, machine.Hist send honestEnds (fresh demo) [] c sent ∧
      .flushed 1 7 .okay ∈ c.st.log ∧ Truthful c sent ∧
      machine.step c (.event (.streamClose 1)) = some d ∧
      .flushed 1 9 streamClosed ∈ news c d ∧ QueuedFail c d := by
  obtain ⟨c, hc, hlog⟩ : ∃ c, machine.run honestEnds (fresh demo) (openAndSend ++
      [.event (.credit 1 5), .event (.consumed 1), .event (.task none),
        .event (.streamSend 1 [0, 0, 0, 0, 0] (some 8) false), .event (.task none),
        .event (.streamSend 1 [0, 0, 0, 0, 0] (some 9) false), .event (.task none)]) = some c ∧
      .flushed 1 7 .okay ∈ c.st.log := ⟨_, rfl, by decide⟩
  obtain ⟨d, hd, htold⟩ : ∃ d, machine.step c (.event (.streamClose 1)) = some d ∧
      .flushed 1 9 streamClosed ∈ news c d := by
    cases hc
    exact ⟨_, rfl, by decide⟩
  have hist := Resume.System.hist_of_run send [] _ hc
  obtain ⟨htrue, hstep⟩ := flushed_ok_truthful demo c _ hist
  exact ⟨c, d, _, hist, hlog, htrue, hd, htold, ((hstep _ d hd).mpr rfl).2⟩

/-- The window is closed and two messages are given; trailers with `grpc-status: 0` arrive. The
    callback of the second one, which is still queued, is called with OK. Nothing has been read,
    and the session has seen the first message only. -/
theorem queued_flushed_ok :
    ∃ c d sent, machine.Hist send honestEnds (fresh demo) [] c sent ∧
      machine.step c (.event (.headers 1 [("grpc-status", str "0")])) = some d ∧
      .flushed 1 8 .okay ∈ d.st.log ∧ (d.st.senders 1).read.length = 0 ∧
      bodies (d.st.senders 1).subs = [[0, 0, 0, 0, 0]] ∧ ¬ Truthful d sent ∧ ¬ QueuedFail c d := by
  obtain ⟨c, hc, -⟩ : ∃ c, machine.run honestEnds (fresh demo) (openAndSend ++
      [.event (.streamSend 1 [0, 0, 0, 0, 1, 42] (some 8) false), .event (.task none)]) = some c ∧
      True := ⟨_, rfl, trivial⟩
  obtain ⟨d, hd, hlog, hread, hsubs, heven⟩ :
      ∃ d, machine.step c (.event (.headers 1 [("grpc-status", str "0")])) = some d ∧
        .flushed 1 8 .okay ∈ d.st.log ∧ (d.st.senders 1).read.length = 0 ∧
        bodies (d.st.senders 1).subs = [[0, 0, 0, 0, 0]] ∧
        d.st.log.countP (Obs.tellsOk 1 8) +
          (desk d.st d.frames).notedBy (Closure.tells 1 8) ≠
            (desk d.st d.frames).readBy (Closure.tells 1 8) := by
    cases hc
    exact ⟨_, rfl, by decide, by decide, by decide, by decide⟩
  refine ⟨c, d, _, Resume.System.hist_of_run send [] _ hc, hd, hlog, hread, hsubs,
    fun h => heven (h.even 1 8), not_queuedFail ?_ hd⟩
  cases hc
  decide

end Channel

end Urpc
