/-
  The sending side of one client stream.

  `Outbox` is a stream as far as its messages go, from the queue it is parked with to its
  HTTP/2 stream; `Outbox.Step` lists what can happen to it. `Desk.Holds` gives the outboxes of
  a channel's live streams. A move of the channel takes each of them at most one step
  (`holds_move`), so a property that the steps keep holds of every live stream of every run
  (`reach_outbox`). The senders of streams that are over, and those of unary calls, only see
  `Sender.Quiet` changes (`sender_move`).
-/
import Urpc.Channel.Coming
import Urpc.Channel.Owners

namespace Urpc.Channel

open Cxx Total

/-- How far a stream is. -/
inductive Stage where
  | parked
  | opening
  | open
  deriving DecidableEq

structure Outbox where
  id : Nat
  stage : Stage := .parked
  taken : List Bytes := []           -- messages that `StreamSend` accepted
  queue : List OutMsg := []
  sendClosed : Bool := false
  inflight : Bool := false
  h2 : Sender Closure := {}

inductive Outbox.Step (E : Env) : Outbox → Outbox → Prop where
  | send {b : Outbox} (m : OutMsg) :
      b.stage = .parked ∨ b.stage = .open ∧ b.sendClosed = false →
      (E.final → ∀ m ∈ b.queue, m.close = false) → b.queue.length < 64 →
      Step E b { b with taken := b.taken ++ [m.framed], queue := b.queue ++ [m] }
  | closeParked {b : Outbox} : b.stage = .parked → Step E b { b with queue := closeQueue b.queue }
  | opened {b : Outbox} (fields : HeaderMap) : b.stage = .parked →
      Step E b { b with stage := .opening, h2 := ({} : Sender Closure).sendHeaders fields false }
  | registered {b : Outbox} : b.stage = .opening →
      Step E b { b with stage := .open, queue := seedQueue b.queue }
  | credit {b : Outbox} (n : Nat) : b.stage ≠ .parked → Step E b { b with h2 := b.h2.credit n }
  | close {b : Outbox} : b.stage ≠ .parked → Step E b { b with h2 := b.h2.close }
  | reset {b : Outbox} : b.stage ≠ .parked →
      Step E b { b with h2 := { b.h2 with subs := b.h2.subs ++ [.reset] } }
  | consumed {b : Outbox} {n : Closure} {notes : List Closure} : b.stage = .open →
      b.h2.notes = n :: notes →
      Step E b { b with inflight := false, h2 := { b.h2 with notes } }
  | closeQueued {b : Outbox} : b.stage = .open → b.queue ≠ [] →
      Step E b { b with queue := closeLast b.queue }
  | closeMarked {b : Outbox} : b.stage = .open → b.queue = [] →
      Step E b { b with sendClosed := true }
  | closeSent {b : Outbox} : b.stage = .open → b.queue = [] → b.sendClosed = false →
      (E.spaced → b.inflight = false) →
      Step E b { b with sendClosed := true, h2 := b.h2.sendData [] true none }
  | pumped {b : Outbox} {out : OutMsg} {queue : List OutMsg} : b.stage = .open →
      b.queue = out :: queue → b.inflight = false →
      Step E b { b with
        queue
        inflight := true
        sendClosed := b.sendClosed || out.close
        h2 := b.h2.sendData out.framed out.close (some ⟨b.id, out.cb⟩) }

/-- What happens to a sender that no live stream uses. -/
inductive Quiet : Sender Closure → Sender Closure → Prop where
  | credit (h2 : Sender Closure) (n : Nat) : Quiet h2 (h2.credit n)
  | close (h2 : Sender Closure) : Quiet h2 h2.close
  | reset (h2 : Sender Closure) : Quiet h2 { h2 with subs := h2.subs ++ [.reset] }
  | noted {h2 : Sender Closure} {n : Closure} {notes : List Closure} : h2.notes = n :: notes →
      Quiet h2 { h2 with notes }

theorem Outbox.Step.id_eq {E : Env} {a b : Outbox} (h : Outbox.Step E a b) : b.id = a.id := by
  cases h <;> rfl

namespace Desk

variable {v v' : Desk} {E : Env}

/-- The messages accepted for one stream. -/
def takenOf (v : Desk) (id : Nat) : List Bytes := (v.accepted.filter fun e => e.1 = id).map Prod.snd

def parkedBox (v : Desk) (ps : PendingStream) : Outbox :=
  { id := ps.id, taken := v.takenOf ps.id, queue := ps.outQueue }

def openingBox (v : Desk) (sid : Nat) (ps : PendingStream) : Outbox :=
  { id := ps.id, stage := .opening, taken := v.takenOf ps.id, queue := ps.outQueue,
    h2 := v.senders sid }

def openBox (v : Desk) (id : Nat) (st : Stream) : Outbox :=
  { id, stage := .open, taken := v.takenOf id, queue := st.outQueue, sendClosed := st.sendClosed,
    inflight := st.outInflight, h2 := v.senders st.sid }

/-- The outboxes of the streams that are not over. -/
inductive Holds (v : Desk) : Outbox → Prop where
  | parked {ps : PendingStream} : ps ∈ v.parked → Holds v (v.parkedBox ps)
  | opening {sid : Nat} {ps : PendingStream} {decoder : FrameDecoder} :
      .openStreamRest sid ps decoder ∈ v.todo → Holds v (v.openingBox sid ps)
  | live {id : Nat} {st : Stream} : v.streams id = some st → st.completed = false →
      Holds v (v.openBox id st)

/-- Accepted messages belong to streams that have left the task queue. -/
structure Begun (v : Desk) : Prop where
  fresh : ∀ e ∈ v.accepted, e.1 < v.nextCallId
  left : ∀ e ∈ v.accepted, (v.posted.map (taskWeight (single (.complete e.1)))).sum = 0

theorem posted_complete_move {id : Nat} (hid : id < v.nextCallId) (hm : Move E v v') :
    (v'.posted.map (taskWeight (single (.complete id)))).sum ≤
      (v.posted.map (taskWeight (single (.complete id)))).sum := by
  cases hm with
  | call path framed timeoutMs => simp [taskWeight, single]
  | openStream path events timeoutMs =>
      have hne : v.nextCallId ≠ id := by omega
      simp [taskWeight, single, hne]
  | streamSend id' framed cb close => simp [taskWeight, cbWeight_complete]
  | post ht => simp [plain_weight _ ht]
  | consumed => simp [note, setStream, setSender, taskWeight]
  | skip hp | callParked timer hp | streamParked hp | sendParked hp | sendQueued hp
  | sendRefused status hp =>
      simp only [note, setStream, hp, List.map_cons, List.sum_cons]
      omega
  | callSubmitted fields body hn | callFailed status hn =>
      cases hn with
      | posted timer hp =>
          simp only [submit, setSender, note, hp, List.map_cons, List.sum_cons]
          omega
      | pending hp => exact Nat.le_refl _
  | streamOpened hn | streamFailed status hn =>
      cases hn with
      | posted hp hq =>
          simp only [submit, setSender, note, hp, List.map_cons, List.sum_cons]
          omega
      | parked hp => exact Nat.le_refl _
  | _ => exact Nat.le_refl _

/-! ## A stream is in one place -/

theorem weight_le_sum {α : Type} {f : α → Nat} {l : List α} {a : α} (h : a ∈ l) :
    f a ≤ (l.map f).sum := List.single_le_sum (by simp) _ (List.mem_map_of_mem h)

/-- A live stream is in no queue. -/
theorem Books.live_alone (hb : Books v) {id : Nat} {st : Stream} (hst : v.streams id = some st)
    (hc : st.completed = false) :
    (v.posted.map (taskWeight (single (.complete id)))).sum = 0 ∧
      (∀ ps ∈ v.parked, ps.id ≠ id) ∧
      ∀ sid ps decoder, .openStreamRest sid ps decoder ∈ v.todo → ps.id ≠ id := by
  have hzero := hb.live_waiting hst hc
  simp only [waiting, Nat.add_eq_zero_iff] at hzero
  refine ⟨hzero.1.1.1, ?_, ?_⟩
  · intro ps hps heq
    have := weight_le_sum (f := parkedWeight (single (.complete id))) hps
    rw [parkedWeight_complete, if_pos heq] at this
    omega
  · intro sid ps decoder hmem heq
    have := weight_le_sum (f := frameWeight (single (.complete id))) hmem
    rw [frameWeight, parkedWeight_complete, if_pos heq] at this
    omega

/-- A parked stream is in no other place. -/
theorem Books.parked_alone (hb : Books v) {ps : PendingStream} (hps : ps ∈ v.parked) :
    (v.posted.map (taskWeight (single (.complete ps.id)))).sum = 0 ∧
      (v.parked.map (parkedWeight (single (.complete ps.id)))).sum ≤ 1 ∧
      (∀ st, v.streams ps.id = some st → st.completed = true) ∧
      ∀ sid ps' decoder, .openStreamRest sid ps' decoder ∈ v.todo → ps'.id ≠ ps.id := by
  have hone := hb.alone (t := .complete ps.id) rfl
  have hmem := weight_le_sum (f := parkedWeight (single (.complete ps.id))) hps
  rw [parkedWeight_complete, if_pos rfl] at hmem
  simp only [waiting] at hone
  refine ⟨by omega, by omega, ?_, ?_⟩
  · intro st hst
    by_contra hc
    exact (hb.live_alone hst (by simpa using hc)).2.1 ps hps rfl
  · intro sid ps' decoder hf heq
    have := weight_le_sum (f := frameWeight (single (.complete ps.id))) hf
    rw [frameWeight, parkedWeight_complete, if_pos heq] at this
    omega

theorem Books.parked_lt (hb : Books v) {ps : PendingStream} (hps : ps ∈ v.parked) :
    ps.id < v.nextCallId := by
  refine hb.bound (t := .complete ps.id) rfl ?_
  have := weight_le_sum (f := parkedWeight (single (.complete ps.id))) hps
  rw [parkedWeight_complete, if_pos rfl] at this
  simp only [waiting]
  omega

/-- The one parked stream that `updateParked` changes, and the others. -/
theorem mem_updateParked {id : Nat} {f : PendingStream → PendingStream}
    {parked : List PendingStream} {ps : PendingStream}
    (hone : (parked.map (parkedWeight (single (.complete id)))).sum ≤ 1)
    (h : ps ∈ updateParked id f parked) :
    (∃ old, parked.find? (fun ps => ps.id = id) = some old ∧ ps = f old) ∨
      (ps ∈ parked ∧ ps.id ≠ id) := by
  induction parked with
  | nil => cases h
  | cons p parked ih =>
      simp only [List.map_cons, List.sum_cons, parkedWeight_complete id p] at hone
      unfold updateParked at h
      split at h
      · next hid =>
          rcases List.mem_cons.mp h with rfl | h
          · exact .inl ⟨p, by simp [hid], rfl⟩
          · refine .inr ⟨List.mem_cons_of_mem _ h, fun heq => ?_⟩
            have := weight_le_sum (f := parkedWeight (single (.complete id))) h
            rw [parkedWeight_complete, if_pos heq] at this
            rw [if_pos hid] at hone
            omega
      · next hid =>
          rcases List.mem_cons.mp h with rfl | h
          · exact .inr ⟨List.mem_cons_self, hid⟩
          · rcases ih (by omega) h with ⟨old, hfind, rfl⟩ | ⟨hmem, hne⟩
            · exact .inl ⟨old, by simp [hid, hfind], rfl⟩
            · exact .inr ⟨List.mem_cons_of_mem _ hmem, hne⟩

theorem begun_move (hb : Books v) (h : Begun v) (hm : Move E v v') : Begun v' := by
  have hnext := nextCallId_move hm
  -- the messages that were accepted before, and the one that this move accepts
  have hold : ∀ e ∈ v.accepted, e.1 < v'.nextCallId ∧
      (v'.posted.map (taskWeight (single (.complete e.1)))).sum = 0 := by
    intro e he
    have hlt := h.fresh e he
    have hzero := h.left e he
    have := posted_complete_move hlt hm
    exact ⟨by omega, by omega⟩
  have hnew : ∀ {id : Nat} {m : Bytes}, id < v.nextCallId →
      (v.posted.map (taskWeight (single (.complete id)))).sum = 0 →
      v'.accepted = v.accepted ++ [(id, m)] → Begun v' := by
    intro id m hlt hzero hacc
    have hmove := posted_complete_move hlt hm
    refine ⟨?_, ?_⟩ <;> rw [hacc] <;> intro e he <;>
      rcases List.mem_append.mp he with he | he
    · exact (hold e he).1
    · obtain rfl := List.mem_singleton.mp he
      exact Nat.lt_of_lt_of_le hlt hnext
    · exact (hold e he).2
    · obtain rfl := List.mem_singleton.mp he
      simp only
      omega
  have hsame : v'.accepted = v.accepted → Begun v' := by
    intro hacc
    refine ⟨?_, ?_⟩ <;> rw [hacc]
    · exact fun e he => (hold e he).1
    · exact fun e he => (hold e he).2
  have hrule := hm
  cases hrule with
  | sendParked hp hps =>
      have hid := List.find?_some hps
      have hmem := List.mem_of_find?_eq_some hps
      simp only [decide_eq_true_eq] at hid
      subst hid
      exact hnew (hb.parked_lt hmem) (hb.parked_alone hmem).1 rfl
  | sendQueued hp hst hc =>
      exact hnew (hb.bounds.stream_lt hst) (hb.live_alone hst hc).1 rfl
  | callSubmitted fields body hn | callFailed status hn => cases hn <;> exact hsame rfl
  | streamOpened hn | streamFailed status hn => cases hn <;> exact hsame rfl
  | _ => exact hsame rfl

/-! ## What a move does to the outboxes -/

/-- The outbox of a stream whose task has not run yet. -/
def New (v : Desk) (b : Outbox) : Prop :=
  b = { id := b.id } ∧ (v.posted.map (taskWeight (single (.complete b.id)))).sum ≠ 0

/-- `b` comes from an outbox of `v`, or from a new one, by at most one step. -/
def From (E : Env) (v : Desk) (b : Outbox) : Prop :=
  ∃ a, (v.Holds a ∨ v.New a) ∧ Relation.ReflGen (Outbox.Step E) a b

theorem From.same {b : Outbox} (h : v.Holds b) : From E v b := ⟨b, .inl h, .refl⟩

theorem From.step {a b : Outbox} (h : v.Holds a) (hs : Outbox.Step E a b) : From E v b :=
  ⟨a, .inl h, .single hs⟩

/-- Moves that leave the outboxes alone. -/
theorem Holds.keep {b : Outbox} (h : v'.Holds b) (hparked : ∀ ps ∈ v'.parked, ps ∈ v.parked)
    (htodo : ∀ f ∈ v'.todo, opens f = true → f ∈ v.todo)
    (hstreams : ∀ id st', v'.streams id = some st' → st'.completed = false →
      ∃ st, v.streams id = some st ∧ st.completed = false ∧ v.openBox id st = v.openBox id st')
    (hsenders : v'.senders = v.senders) (hacc : v'.accepted = v.accepted) : From E v b := by
  refine .same ?_
  cases h with
  | parked hps =>
      have h := Holds.parked (hparked _ hps)
      simpa only [parkedBox, takenOf, hacc] using h
  | opening hf =>
      have h := Holds.opening (htodo _ hf rfl)
      simpa only [openingBox, takenOf, hacc, hsenders] using h
  | @live id st' hst' hc =>
      obtain ⟨st, hst, hlive, hbox⟩ := hstreams id st' hst' hc
      have h := Holds.live hst hlive
      rw [hbox] at h
      simpa only [openBox, takenOf, hacc, hsenders] using h

/-- One sender changes, in the same way for any outbox that it could belong to. -/
theorem Holds.touch {b : Outbox} {sid : Nat} {h2 : Sender Closure}
    (h : (v.setSender sid h2).Holds b)
    (hstep : ∀ a : Outbox, a.stage ≠ .parked → a.h2 = v.senders sid →
      Outbox.Step E a { a with h2 }) : From E v b := by
  cases h with
  | parked hps => exact .same (.parked hps)
  | @opening sid' ps decoder hf =>
      have hf : .openStreamRest sid' ps decoder ∈ v.todo := hf
      by_cases heq : sid' = sid
      · subst heq
        refine .step (.opening hf) ?_
        have := hstep (v.openingBox sid' ps) (by simp [openingBox]) rfl
        simpa [openingBox, setSender, takenOf] using this
      · have := From.same (E := E) (.opening hf)
        simpa [openingBox, setSender, takenOf, Function.update_of_ne heq] using this
  | @live id st hst hc =>
      have hst : v.streams id = some st := hst
      by_cases heq : st.sid = sid
      · subst heq
        refine .step (.live hst hc) ?_
        have := hstep (v.openBox id st) (by simp [openBox]) rfl
        simpa [openBox, setSender, takenOf] using this
      · have := From.same (E := E) (.live hst hc)
        simpa [openBox, setSender, takenOf, Function.update_of_ne heq] using this

/-- One live stream changes, with its sender and the messages accepted for it. -/
theorem Holds.restream {b : Outbox} (h : v'.Holds b) (hb : Books v) (ho : Owned v) {id : Nat} {st st' : Stream}
    (hst : v.streams id = some st) (hc : st.completed = false)
    (hparked : v'.parked = v.parked) (htodo : v'.todo = v.todo)
    (hstreams : v'.streams = Function.update v.streams id (some st'))
    (hsenders : ∀ sid, sid ≠ st.sid → v'.senders sid = v.senders sid)
    (htaken : ∀ id', id' ≠ id → v'.takenOf id' = v.takenOf id')
    (hstep : st'.completed = false →
      Relation.ReflGen (Outbox.Step E) (v.openBox id st) (v'.openBox id st')) : From E v b := by
  obtain ⟨-, hnotParked, hnotOpening⟩ := hb.live_alone hst hc
  cases h with
  | @parked ps hps =>
      rw [hparked] at hps
      have := From.same (E := E) (.parked hps)
      rwa [parkedBox, ← htaken _ (hnotParked ps hps)] at this
  | @opening sid ps decoder hf =>
      rw [htodo] at hf
      have := From.same (E := E) (.opening hf)
      rwa [openingBox, ← htaken _ (hnotOpening sid ps decoder hf),
        ← hsenders sid (fun heq => (ho.unused sid (mem_openings hf)).1 id st hst heq.symm)] at this
  | @live id2 st2 hst2 hc2 =>
      rw [hstreams] at hst2
      by_cases heq : id2 = id
      · subst heq
        rw [Function.update_self, Option.some.injEq] at hst2
        subst hst2
        exact ⟨v.openBox id2 st, .inl (.live hst hc), hstep hc2⟩
      · rw [Function.update_of_ne heq] at hst2
        have := From.same (E := E) (.live hst2 hc2)
        rwa [openBox, ← htaken id2 heq,
          ← hsenders st2.sid (fun h => heq (ho.apart id2 id st2 st hst2 hst h))] at this

theorem takenOf_push {id id' : Nat} {m : Bytes} (h : v'.accepted = v.accepted ++ [(id, m)]) :
    v'.takenOf id' = v.takenOf id' ++ if id = id' then [m] else [] := by
  rw [takenOf, h, List.filter_append, List.map_append, takenOf]
  by_cases heq : id = id' <;> simp [heq]

/-- A stream that has not begun has accepted nothing. -/
theorem Begun.takenOf_nil (h : Begun v) {id : Nat}
    (hpos : (v.posted.map (taskWeight (single (.complete id)))).sum ≠ 0) : v.takenOf id = [] := by
  have hnone : ∀ e ∈ v.accepted, e.1 ≠ id := by
    intro e he heq
    exact hpos (heq ▸ h.left e he)
  rw [takenOf, List.filter_eq_nil_iff.mpr (by simpa using hnone)]
  rfl

/-- The stream of the first task is new. -/
theorem Begun.new (h : Begun v) {ps : PendingStream} {ts : List Task}
    (hp : v.posted = .openStream ps.id ps.path ps.events ps.timeoutMs :: ts)
    (hq : ps.outQueue = []) : v.New (v.parkedBox ps) := by
  have hpos : (v.posted.map (taskWeight (single (.complete ps.id)))).sum ≠ 0 := by
    simp [hp, taskWeight, ps.terminal, single]
  exact ⟨by rw [parkedBox, h.takenOf_nil hpos, hq], hpos⟩

/-- A note of a sender is one of its closures. -/
theorem carried_note {h2 : Sender Closure} {n : Closure} {notes : List Closure}
    (hn : h2.notes = n :: notes) : h2.carried (closureOf n.id) ≠ 0 := by
  simp only [Sender.carried, hn, List.map_cons, List.sum_cons, closureOf, if_true]
  omega

/-- A live stream changes as to its outbox in no way. -/
theorem update_box {id : Nat} {st x : Stream} (hst : v.streams id = some st)
    (hc : st.completed = false) (hbox : v.openBox id st = v.openBox id x) (id' : Nat) (st' : Stream)
    (h : Function.update v.streams id (some x) id' = some st') (hc' : st'.completed = false) :
    ∃ st, v.streams id' = some st ∧ st.completed = false ∧ v.openBox id' st = v.openBox id' st' := by
  by_cases heq : id' = id
  · subst heq
    rw [Function.update_self, Option.some.injEq] at h
    exact ⟨st, hst, hc, h ▸ hbox⟩
  · rw [Function.update_of_ne heq] at h
    exact ⟨st', h, hc', rfl⟩

/-- A note is taken from a sender whose stream, if live, is not `id`. -/
theorem Holds.popped {b : Outbox} {sid : Nat} {n : Closure} {notes : List Closure}
    (h : v'.Holds b) (ho : Owned v) (hn : (v.senders sid).notes = n :: notes)
    (hparked : v'.parked = v.parked) (htodo : v'.todo = v.todo)
    (hstreams : ∀ id st, v'.streams id = some st → st.completed = false →
      v.streams id = some st ∧ id ≠ n.id)
    (hsenders : v'.senders = Function.update v.senders sid { v.senders sid with notes })
    (hacc : v'.accepted = v.accepted) : From E v b := by
  have hother : ∀ sid', sid' ≠ sid → v'.senders sid' = v.senders sid' := by
    intro sid' hne
    rw [hsenders, Function.update_of_ne hne]
  refine .same ?_
  cases h with
  | @parked ps hps =>
      have := Holds.parked (hparked ▸ hps)
      simpa only [parkedBox, takenOf, hacc] using this
  | @opening sid' ps decoder hf =>
      rw [htodo] at hf
      have hne : sid' ≠ sid := by
        intro heq
        exact carried_note hn (heq ▸ (ho.unused sid' (mem_openings hf)).2 _)
      have := Holds.opening hf
      simpa only [openingBox, takenOf, hacc, hother sid' hne] using this
  | @live id st hst hc =>
      obtain ⟨hst, hid⟩ := hstreams id st hst hc
      have hne : st.sid ≠ sid := by
        intro heq
        exact carried_note hn (heq ▸ ho.own id st n.id hst hid.symm)
      have := Holds.live hst hc
      simpa only [openBox, takenOf, hacc, hother st.sid hne] using this

theorem holds_move (hb : Books v) (ho : Owned v) (hg : Begun v) (hm : Move E v v') {b : Outbox}
    (h : v'.Holds b) : From E v b := by
  have hsame : ∀ id st', v.streams id = some st' → st'.completed = false →
      ∃ st, v.streams id = some st ∧ st.completed = false ∧ v.openBox id st = v.openBox id st' :=
    fun id st h hc => ⟨st, h, hc, rfl⟩
  have hpop : ∀ {f : Frame} {fs : List Frame}, v.todo = f :: fs →
      ∀ g ∈ fs, opens g = true → g ∈ v.todo :=
    fun hf g hg _ => hf ▸ List.mem_cons_of_mem _ hg
  have hpush : ∀ {f : Frame}, opens f = false → ∀ g ∈ f :: v.todo, opens g = true → g ∈ v.todo := by
    intro f hf g hg ho
    rcases List.mem_cons.mp hg with rfl | hg
    · rw [hf] at ho
      cases ho
    · exact hg
  cases hm with
  | credit sid n => exact h.touch fun a hs heq => heq ▸ .credit n hs
  | close sid => exact h.touch fun a hs heq => heq ▸ .close hs
  | reset sid => exact h.touch fun a hs heq => heq ▸ .reset hs
  | @consumed sid n notes st hn hst =>
      have hsid : sid = st.sid := by
        by_contra hne
        exact carried_note hn (ho.home n.id st sid hst hne)
      subst hsid
      by_cases hc : st.completed = true
      · refine h.popped ho hn rfl rfl ?_ rfl rfl
        intro id st' hst' hc'
        simp only [note, setStream] at hst'
        by_cases heq : id = n.id
        · subst heq
          rw [Function.update_self, Option.some.injEq] at hst'
          subst hst'
          simp [hc] at hc'
        · rw [Function.update_of_ne heq] at hst'
          exact ⟨hst', heq⟩
      · refine h.restream hb ho hst (by simpa using hc) rfl rfl rfl ?_ (fun _ _ => rfl) ?_
        · exact fun sid hne => Function.update_of_ne hne _ _
        · intro _
          have := Outbox.Step.consumed (E := E) (b := v.openBox n.id st) rfl hn
          simpa [openBox, takenOf, note, setStream, setSender] using Relation.ReflGen.single this
  | @consumedLate sid n notes hn hst =>
      refine h.popped ho hn rfl rfl ?_ rfl rfl
      intro id st' hst' _
      refine ⟨hst', ?_⟩
      rintro rfl
      rw [show v.streams n.id = some st' from hst'] at hst
      cases hst
  | connected hphase htodo => exact h.keep (fun _ h => h) (by simp [opens]) hsame rfl rfl
  | started hf | startedStreams hf | callGone hf | streamGone hf | callRegistered hf
  | callTimedOut hf | cancelled hf =>
      exact h.keep (fun _ h => h) (hpop hf) hsame rfl rfl
  | callTimeout | cancel => exact h.keep (fun _ h => h) (hpush rfl) hsame rfl rfl
  | lost hses hphase htodo =>
      cases h with
      | parked hps => cases hps
      | opening hf =>
          simp only [lose, htodo] at hf
          cases hf
      | live hst => cases hst
  | callSubmitted fields body hn =>
      have hparked : ∀ {ps : PendingStream}, ps ∈ v.parked → From E v (v.parkedBox ps) :=
        fun hps => .same (.parked hps)
      have hopening : ∀ {sid : Nat} {ps : PendingStream} {decoder : FrameDecoder},
          .openStreamRest sid ps decoder ∈ v.todo → sid ≠ v.nextSid := by
        intro sid ps decoder hf
        have := (hb.bounds.opening sid ps decoder hf).2
        omega
      have hlive : ∀ {id : Nat} {st : Stream}, v.streams id = some st → st.sid ≠ v.nextSid := by
        intro id st hst
        have := (hb.bounds.sids id st hst).2
        omega
      cases hn <;> cases h with
      | parked hps => exact hparked hps
      | @opening sid ps decoder hf =>
          have hf : .openStreamRest sid ps decoder ∈ v.todo := hpush rfl _ hf rfl
          have := From.same (E := E) (.opening hf)
          simpa [openingBox, takenOf, submit, setSender,
            Function.update_of_ne (hopening hf)] using this
      | @live id st hst hc =>
          have hst : v.streams id = some st := hst
          have := From.same (E := E) (.live hst hc)
          simpa [openBox, takenOf, submit, setSender,
            Function.update_of_ne (hlive hst)] using this
  | callFailed status hn => cases hn <;> exact h.keep (fun _ h => h) (fun _ h _ => h) hsame rfl rfl
  | @streamParked ps ts hp hq hphase =>
      cases h with
      | parked hps =>
          rcases List.mem_append.mp hps with hps | hps
          · exact .same (.parked hps)
          · obtain rfl := List.mem_singleton.mp hps
            exact ⟨_, .inr (hg.new hp hq), .refl⟩
      | opening hf => exact .same (.opening hf)
      | live hst hc => exact .same (.live hst hc)
  | @streamOpened v' ps hn hphase =>
      have hnew : ∃ a, (v.Holds a ∨ v.New a) ∧ a = v.parkedBox ps := by
        cases hn with
        | posted hp hq => exact ⟨_, .inr (hg.new hp hq), rfl⟩
        | parked hp => exact ⟨_, .inl (.parked (hp ▸ List.mem_cons_self)), rfl⟩
      have hparked : ∀ ps' ∈ v'.parked, ps' ∈ v.parked := by
        intro ps' hps
        cases hn with
        | posted => exact hps
        | parked hp => exact hp ▸ List.mem_cons_of_mem _ hps
      have hrest : v'.streams = v.streams ∧ v'.senders = v.senders ∧ v'.accepted = v.accepted ∧
          v'.nextSid = v.nextSid := by
        cases hn <;> exact ⟨rfl, rfl, rfl, rfl⟩
      obtain ⟨hs, hse, hacc, hsid⟩ := hrest
      cases h with
      | parked hps =>
          have := From.same (E := E) (.parked (hparked _ hps))
          simpa [parkedBox, takenOf, submit, setSender, hacc] using this
      | @opening sid ps' decoder hf =>
          rcases List.mem_cons.mp hf with heq | hf
          · cases heq
            obtain ⟨a, ha, rfl⟩ := hnew
            refine ⟨_, ha, ?_⟩
            have := Outbox.Step.opened (E := E) (b := v.parkedBox ps)
              (requestHeaders v.options ps.path) rfl
            simpa [openingBox, parkedBox, takenOf, submit, setSender, hacc, hsid]
              using Relation.ReflGen.single this
          · have hne : sid ≠ v.nextSid := by
              have := (hb.bounds.opening sid ps' decoder hf).2
              omega
            have := From.same (E := E) (.opening hf)
            simpa [openingBox, takenOf, submit, setSender, hacc, hse, hsid,
              Function.update_of_ne hne] using this
      | @live id st hst hc =>
          have hst : v.streams id = some st := by rw [← hs]; exact hst
          have hne : st.sid ≠ v.nextSid := by
            have := (hb.bounds.sids id st hst).2
            omega
          have := From.same (E := E) (.live hst hc)
          simpa [openBox, takenOf, submit, setSender, hacc, hse, hsid,
            Function.update_of_ne hne] using this
  | streamFailed status hn =>
      cases hn with
      | posted => exact h.keep (fun _ h => h) (fun _ h _ => h) hsame rfl rfl
      | parked hp =>
          exact h.keep (fun _ h => hp ▸ List.mem_cons_of_mem _ h) (fun _ h _ => h) hsame rfl rfl
  | @streamRegistered sid ps decoder fs timer hf =>
      have hmem : .openStreamRest sid ps decoder ∈ v.todo := hf ▸ List.mem_cons_self
      cases h with
      | parked hps => exact .same (.parked hps)
      | opening hf' => exact .same (.opening (hpop hf _ hf' rfl))
      | @live id st hst hc =>
          simp only [setStream] at hst
          by_cases heq : id = ps.id
          · subst heq
            rw [Function.update_self, Option.some.injEq] at hst
            subst hst
            exact .step (.opening hmem) (.registered rfl)
          · rw [Function.update_of_ne heq] at hst
            exact .same (.live hst hc)
  | @streamFed sid id st chunk _ _ hst hc =>
      exact h.keep (fun _ h => h) (fun _ h _ => h) (update_box hst hc rfl) rfl rfl
  | @streamOver id st decoder status hst hc =>
      exact h.restream hb ho hst hc rfl rfl rfl (fun _ _ => rfl) (fun _ _ => rfl)
        fun hc' => by cases hc'
  | streamTimeout hst hc => exact h.keep (fun _ h => h) (hpush rfl) (update_box hst hc rfl) rfl rfl
  | @streamErased id st fs hf hst hc =>
      refine h.keep (fun _ h => h) (hpop hf) ?_ rfl rfl
      intro id' st' hst' hc'
      simp only at hst'
      by_cases heq : id' = id
      · rw [heq, Function.update_self] at hst'
        cases hst'
      · rw [Function.update_of_ne heq] at hst'
        exact ⟨st', hst', hc', rfl⟩
  | @sendParked id framed cb close ts ps hp hps hfinal hroom =>
      have hmem := List.mem_of_find?_eq_some hps
      have hid : ps.id = id := by simpa using List.find?_some hps
      subst hid
      obtain ⟨-, hone, hnotLive, hnotOpening⟩ := hb.parked_alone hmem
      have htaken : ∀ id', id' ≠ ps.id → takenOf { v with
          posted := ts
          parked := updateParked ps.id
            (fun ps => { ps with outQueue := ps.outQueue ++ [⟨framed, close, cb⟩] }) v.parked
          accepted := v.accepted ++ [(ps.id, framed)] } id' = v.takenOf id' := by
        intro id' hne
        rw [takenOf_push rfl, if_neg hne.symm, List.append_nil]
      cases h with
      | @parked ps' hps' =>
          rcases mem_updateParked hone hps' with ⟨old, hfind, rfl⟩ | ⟨hmem', hne⟩
          · rw [hps, Option.some.injEq] at hfind
            subst hfind
            refine .step (.parked hmem) ?_
            have := Outbox.Step.send (E := E) (b := v.parkedBox ps) ⟨framed, close, cb⟩ (.inl rfl)
              hfinal hroom
            simpa [parkedBox, takenOf] using this
          · have := From.same (E := E) (.parked hmem')
            rwa [parkedBox, ← htaken ps'.id hne] at this
      | @opening sid ps' decoder hf =>
          have hf : .openStreamRest sid ps' decoder ∈ v.todo := hf
          have := From.same (E := E) (.opening hf)
          rwa [openingBox, ← htaken ps'.id (hnotOpening sid ps' decoder hf)] at this
      | @live id st hst hc =>
          have hst : v.streams id = some st := hst
          have hne : id ≠ ps.id := by
            intro heq
            rw [hnotLive st (heq ▸ hst)] at hc
            cases hc
          have := From.same (E := E) (.live hst hc)
          rwa [openBox, ← htaken id hne] at this
  | @sendQueued id framed cb close ts st hp hst hc hsc hfinal hroom =>
      refine h.restream hb ho hst hc rfl rfl rfl (fun _ _ => rfl) ?_ ?_
      · intro id' hne
        rw [takenOf_push (v := v) rfl, if_neg hne.symm, List.append_nil]
      · intro _
        have := Outbox.Step.send (E := E) (b := v.openBox id st) ⟨framed, close, cb⟩
          (.inr ⟨rfl, hsc⟩) hfinal hroom
        simpa [openBox, takenOf, setStream] using Relation.ReflGen.single this
  | closeParked id =>
      have hone : (v.parked.map (parkedWeight (single (.complete id)))).sum ≤ 1 := by
        have := hb.alone (t := .complete id) rfl
        simp only [waiting] at this
        omega
      cases h with
      | parked hps =>
          rcases mem_updateParked hone hps with ⟨old, hfind, rfl⟩ | ⟨hmem, hne⟩
          · exact .step (.parked (List.mem_of_find?_eq_some hfind)) (.closeParked rfl)
          · exact .same (.parked hmem)
      | opening hf => exact .same (.opening hf)
      | live hst hc => exact .same (.live hst hc)
  | @closeQueued id st hst hc hq =>
      exact h.restream hb ho hst hc rfl rfl rfl (fun _ _ => rfl) (fun _ _ => rfl)
        fun _ => .single (.closeQueued (b := v.openBox id st) rfl hq)
  | @closeMarked id st hst hc hq =>
      exact h.restream hb ho hst hc rfl rfl rfl (fun _ _ => rfl) (fun _ _ => rfl)
        fun _ => .single (.closeMarked (b := v.openBox id st) rfl hq)
  | @closeSent id st hst hc hq hsc hspaced =>
      refine h.restream hb ho hst hc rfl rfl rfl ?_ (fun _ _ => rfl) fun _ => .single ?_
      · exact fun sid hne => Function.update_of_ne hne _ _
      · have := Outbox.Step.closeSent (E := E) (b := v.openBox id st) rfl hq hsc hspaced
        simpa [openBox, takenOf, setSender, setStream] using this
  | @pumped id st out queue hst hq hc hi hses =>
      refine h.restream hb ho hst hc rfl rfl rfl ?_ (fun _ _ => rfl) fun _ => .single ?_
      · exact fun sid hne => Function.update_of_ne hne _ _
      · have := Outbox.Step.pumped (E := E) (b := v.openBox id st) rfl hq hi
        simpa [openBox, takenOf, setSender, setStream] using this
  | _ => exact h.keep (fun _ h => h) (fun _ h _ => h) hsame rfl rfl

/-- One sender changes. -/
theorem update_sender {P : Sender Closure → Sender Closure → Prop}
    {senders : Nat → Sender Closure} {sid : Nat} {h2 : Sender Closure} (sid' : Nat)
    (hsame : P (senders sid') (senders sid')) (h : P (senders sid) h2) :
    P (senders sid') (Function.update senders sid h2 sid') := by
  by_cases heq : sid' = sid
  · subst heq
    rwa [Function.update_self]
  · rwa [Function.update_of_ne heq]

/-- What a move does to a sender. -/
theorem sender_move (hm : Move E v v') (sid : Nat) :
    v'.senders sid = v.senders sid ∨ Quiet (v.senders sid) (v'.senders sid) ∨
      (∃ fields body, v'.senders sid = submitRequest fields body) ∨
      ∃ b, v'.Holds b ∧ b.h2 = v'.senders sid := by
  have hquiet : ∀ {sid' : Nat} {h2 : Sender Closure}, Quiet (v.senders sid') h2 →
      Function.update v.senders sid' h2 sid = v.senders sid ∨
        Quiet (v.senders sid) (Function.update v.senders sid' h2 sid) :=
    fun h => update_sender (P := fun old new => new = old ∨ Quiet old new) sid (.inl rfl) (.inr h)
  cases hm with
  | credit sid' n => exact (hquiet (.credit _ n)).imp_right .inl
  | close sid' => exact (hquiet (.close _)).imp_right .inl
  | reset sid' => exact (hquiet (.reset _)).imp_right .inl
  | consumed hn | consumedLate hn => exact (hquiet (.noted hn)).imp_right .inl
  | lost => exact .inr (.inl (.close _))
  | callSubmitted fields body hn =>
      have hone : Function.update v.senders v.nextSid (submitRequest fields body) sid =
          v.senders sid ∨ ∃ fields' body', Function.update v.senders v.nextSid
            (submitRequest fields body) sid = submitRequest fields' body' :=
        update_sender (P := fun old new => new = old ∨ ∃ fields' body',
          new = submitRequest fields' body') sid (.inl rfl) (.inr ⟨fields, body, rfl⟩)
      cases hn <;> exact hone.imp_right fun h => .inr (.inl h)
  | streamOpened hn =>
      by_cases heq : sid = v.nextSid
      · subst heq
        refine .inr (.inr (.inr ⟨_, .opening List.mem_cons_self, rfl⟩))
      · refine .inl ?_
        cases hn <;> exact Function.update_of_ne heq _ _
  | callFailed status hn => cases hn <;> exact .inl rfl
  | streamFailed status hn => cases hn <;> exact .inl rfl
  | @closeSent id st hst hc =>
      by_cases heq : sid = st.sid
      · subst heq
        exact .inr (.inr (.inr ⟨_, .live (Function.update_self ..) hc, rfl⟩))
      · exact .inl (Function.update_of_ne heq _ _)
  | @pumped id st out queue hst hq hc =>
      by_cases heq : sid = st.sid
      · subst heq
        exact .inr (.inr (.inr ⟨_, .live (Function.update_self ..) hc, rfl⟩))
      · exact .inl (Function.update_of_ne heq _ _)
  | _ => exact .inl rfl

end Desk

/-! ## Runs -/

/-- The invariants that outboxes rest on. -/
structure Desk.Ties (v : Desk) : Prop extends Books v, Owned v, Begun v

/-- `I` is kept by the steps of an outbox, and `D` is what it leaves of the sender. -/
structure Outbox.Kept (E : Env) (I : Outbox → Prop) (D : Sender Closure → Prop) : Prop where
  new : ∀ id, I { id }
  step : ∀ a b, Outbox.Step E a b → I a → I b
  sender : ∀ b, I b → D b.h2
  quiet : ∀ h2 h2', Quiet h2 h2' → D h2 → D h2'
  request : ∀ fields body, D (submitRequest fields body)

structure Desk.Held (I : Outbox → Prop) (D : Sender Closure → Prop) (v : Desk) : Prop where
  boxes : ∀ b, v.Holds b → I b
  senders : ∀ sid, D (v.senders sid)

namespace Desk

variable {v v' : Desk} {E : Env} {I : Outbox → Prop} {D : Sender Closure → Prop}

theorem ties_move (hr : Rest E v) (h : Ties v) (hm : Move E v v') : Ties v' where
  toBooks := books_move hr h.toBooks hm
  toOwned := owned_move h.toBooks h.toOwned hm
  toBegun := begun_move h.toBooks h.toBegun hm

theorem ties_fresh (o : Options) : Ties (desk (fresh o).st (fresh o).frames) where
  toBooks := books_fresh o
  toOwned := owned_fresh o
  fresh _ h := by cases h
  left _ h := by cases h

theorem held_move (hk : Outbox.Kept E I D) (ht : Ties v) (h : Held I D v) (hm : Move E v v') :
    Held I D v' := by
  have hboxes : ∀ b, v'.Holds b → I b := by
    intro b hb
    obtain ⟨a, ha, hab⟩ := holds_move ht.toBooks ht.toOwned ht.toBegun hm hb
    have hi : I a := by
      rcases ha with ha | ⟨ha, -⟩
      · exact h.boxes a ha
      · rw [ha]
        exact hk.new a.id
    cases hab with
    | refl => exact hi
    | single hstep => exact hk.step a b hstep hi
  refine ⟨hboxes, ?_⟩
  intro sid
  rcases sender_move hm sid with heq | hq | ⟨fields, body, heq⟩ | ⟨b, hb, heq⟩
  · rw [heq]
    exact h.senders sid
  · exact hk.quiet _ _ hq (h.senders sid)
  · rw [heq]
    exact hk.request fields body
  · rw [← heq]
    exact hk.sender b (hboxes b hb)

theorem held_fresh (hk : Outbox.Kept E I D) (o : Options) :
    Held I D (desk (fresh o).st (fresh o).frames) where
  boxes _ h := by
    cases h with
    | parked h => cases h
    | opening h => cases h
    | live h => cases h
  senders _ := hk.sender _ (hk.new 0)

end Desk

/-- The invariant rule for outboxes. -/
theorem reach_outbox {E : Env} {ok : Conf → Label → Prop} {o : Options} {d : Conf}
    {I : Outbox → Prop} {D : Sender Closure → Prop} (hk : Outbox.Kept E I D)
    (hok : ∀ c l, ok c l → E.Allows c l) (h : machine.Reach ok (fresh o) d) :
    Desk.Ties (desk d.st d.frames) ∧ Desk.Held I D (desk d.st d.frames) :=
  (reach_desk (I := fun v => Desk.Ties v ∧ Desk.Held I D v) hok ⟨Desk.ties_fresh o, Desk.held_fresh hk o⟩
    (fun _ _ hr hi hm => ⟨Desk.ties_move hr hi.1 hm, Desk.held_move hk hi.1 hi.2 hm⟩) h).2

end Urpc.Channel
