/-
  What is left of an operation that is finished.

  A call leaves nothing behind. A stream does: `CompleteStream` keeps the entry in `streams`, and
  only a deadline or a lost connection erases it; and `OnConnectionLost` does not cancel the
  timers of the streams that it fails. And a close that completes a call or a stream erases through
  a dangling iterator. So a channel is clean as long as no HTTP/2 stream closes whose stream is
  over, or with which a stream or a call ends, and no connection is lost while a live stream has a
  timer (`tidyStep`); the first step of another kind leaves something behind or uses such an
  iterator.

  Proved: `finished_operations_leave_nothing`.
-/
import Urpc.Channel.StaleErase

namespace Urpc.Channel

open Cxx

/-- The operation's `done`, or its `on_complete`, has been called, and its HTTP/2 stream is closed;
    for a call that does not matter. -/
inductive Finished (s : State) (id : Nat) : Prop where
  | call : .done id ∈ called s.log → Finished s id
  | stream : .complete id ∈ called s.log →
      (∀ st, s.streams id = some st → (s.senders st.sid).closed = true) → Finished s id

/-- Nothing of the operation is left. -/
structure Gone (s : State) (id : Nat) : Prop where
  calls : s.calls id = none
  byStream : ∀ sid, s.byStream sid ≠ some id
  streams : s.streams id = none
  streamBySid : ∀ sid, s.streamBySid sid ≠ some id
  pending : ∀ pc ∈ s.pending, pc.id ≠ id
  pendingStreams : ∀ ps ∈ s.pendingStreams, ps.id ≠ id
  timers : ∀ e ∈ s.timers, e.2.op ≠ .call id ∧ e.2.op ≠ .stream id

def Clean (s : State) : Prop := ∀ id, Finished s id → Gone s id

/-- The operations that are not finished. -/
def unfinished (s : State) : Set Nat := {id | id < s.nextCallId ∧ ¬ Finished s id}

/-- No table has more entries than there are unfinished operations. -/
structure Bounded (s : State) : Prop where
  calls : {id | s.calls id ≠ none}.encard ≤ (unfinished s).encard
  byStream : {sid | s.byStream sid ≠ none}.encard ≤ (unfinished s).encard
  streams : {id | s.streams id ≠ none}.encard ≤ (unfinished s).encard
  streamBySid : {sid | s.streamBySid sid ≠ none}.encard ≤ (unfinished s).encard
  pending : s.pending.length ≤ (unfinished s).encard
  pendingStreams : s.pendingStreams.length ≤ (unfinished s).encard

/-! ## What has been called is not held -/

namespace Desk

variable {v : Desk} {t : Token}

theorem Books.mem_issued_of_called (hb : Books v) (ht : t ∈ called v.log) : t ∈ v.issued := by
  have hl := hb.ledger (single t)
  have hpos := List.count_pos_iff.mpr ht
  rw [due, sum_single, spent, calledWeight, sum_single] at hl
  exact List.count_pos_iff.mp (by omega)

theorem Books.not_held (hb : Books v) (hterm : t.terminal = true) (ht : t ∈ called v.log) :
    v.waiting (single t) = 0 ∧ v.tabled (single t) = 0 := by
  have hone := hb.alone hterm
  have hpos := List.count_pos_iff.mpr ht
  rw [spent, calledWeight, sum_single] at hone
  omega

/-- What a frame holds waits. -/
theorem waiting_frame {f : Frame} (hf : f ∈ v.todo) (hpos : 0 < frameWeight (single t) f) :
    0 < v.waiting (single t) := by
  have hle := List.le_sum_of_mem (List.mem_map_of_mem (f := frameWeight (single t)) hf)
  simp only [waiting]
  omega

/-- An entry of `calls` holds its `done`, or a frame does. -/
theorem Books.held_of_call (hb : Books v) {id : Nat} {call : Call}
    (hcall : v.calls id = some call) :
    0 < v.waiting (single (.done id)) + v.tabled (single (.done id)) := by
  by_cases hd : call.done = true
  · have hle := Total.le_total (f := callWeight (single (.done id))) v.calls
      (hb.bounds.call_lt hcall)
    simp only [hcall, callWeight, hd, if_true, single] at hle
    simp only [tabled]
    omega
  · have hc : call.completed = true := by
      by_contra hc
      exact hd (call.whole (by simpa using hc))
    have hframe := hb.marked id call hcall hc
    rw [ending, if_neg hd] at hframe
    have hpos := waiting_frame (t := .done id) hframe (by simp [frameWeight, single])
    omega

end Desk

/-! ## Clean -/

section Clean

variable {owner : Nat → Op} {c : Conf} {id : Nat}

/-- Something is left of it as a call. -/
def CallLeft (s : State) (id : Nat) : Prop :=
  s.calls id ≠ none ∨ (∃ sid, s.byStream sid = some id) ∨ (∃ pc ∈ s.pending, pc.id = id) ∨
    ∃ e ∈ s.timers, e.2.op = .call id

/-- Something is left of it as a stream. -/
def StreamLeft (s : State) (id : Nat) : Prop :=
  s.streams id ≠ none ∨ (∃ sid, s.streamBySid sid = some id) ∨
    (∃ ps ∈ s.pendingStreams, ps.id = id) ∨ ∃ e ∈ s.timers, e.2.op = .stream id

theorem gone_of_not_left {s : State} (hc : ¬ CallLeft s id) (hs : ¬ StreamLeft s id) :
    Gone s id where
  calls := by_contra fun h => hc (.inl h)
  byStream sid h := hc (.inr (.inl ⟨sid, h⟩))
  streams := by_contra fun h => hs (.inl h)
  streamBySid sid h := hs (.inr (.inl ⟨sid, h⟩))
  pending pc hpc h := hc (.inr (.inr (.inl ⟨pc, hpc, h⟩)))
  pendingStreams ps hps h := hs (.inr (.inr (.inl ⟨ps, hps, h⟩)))
  timers e he := ⟨fun h => hc (.inr (.inr (.inr ⟨e, he, h⟩))),
    fun h => hs (.inr (.inr (.inr ⟨e, he, h⟩)))⟩

/-- Its `done` is held somewhere then. -/
theorem Kept.call_held {tidy : Prop} (h : Kept tidy owner c) (hleft : CallLeft c.st id) :
    0 < (desk c.st c.frames).waiting (single (.done id)) +
      (desk c.st c.frames).tabled (single (.done id)) := by
  have hentry : ∀ {call : Call}, c.st.calls id = some call →
      0 < (desk c.st c.frames).waiting (single (.done id)) +
        (desk c.st c.frames).tabled (single (.done id)) :=
    fun hcall => h.sound.books.held_of_call hcall
  have hpending : ∀ pc ∈ c.st.pending, pc.id = id →
      0 < (desk c.st c.frames).waiting (single (.done id)) +
        (desk c.st c.frames).tabled (single (.done id)) := by
    rintro pc hpc rfl
    exact Nat.add_pos_left (Desk.waiting_pending (v := desk c.st c.frames) hpc) _
  rcases hleft with hcalls | ⟨sid, hby⟩ | ⟨pc, hpc, hid⟩ | ⟨⟨t, a⟩, he, hop⟩
  · obtain ⟨call, hcall⟩ := Option.ne_none_iff_exists'.mp hcalls
    exact hentry hcall
  · obtain ⟨call, hcall, -⟩ := h.filed.byStream sid id hby
    exact hentry hcall
  · exact hpending pc hpc hid
  · cases a with
    | stream => cases hop
    | call id' ms =>
        obtain rfl : id' = id := Op.call.inj hop
        cases h.filed.callTimer t id' ms he with
        | hand hh => cases hh
        | pending pc hpc hid => exact hpending pc hpc hid
        | call call hcall => exact hentry hcall
        | frame f sid hf ho =>
            refine Nat.add_pos_left (Desk.waiting_frame (v := desk c.st c.frames) hf ?_) _
            cases f with
            | callNowRest => cases ho; simp [frameWeight, single]
            | openStreamRest => cases ho
            | _ => cases ho

/-- Its `on_complete` has not been called then, unless its HTTP/2 stream is open. -/
theorem Kept.stream_left (h : Kept True owner c) (hleft : StreamLeft c.st id) :
    .complete id ∈ c.st.issued ∧ (.complete id ∈ called c.st.log →
      ∃ st, c.st.streams id = some st ∧ (c.st.senders st.sid).closed = false) := by
  have hentry : ∀ {st : Stream}, c.st.streams id = some st →
      .complete id ∈ c.st.issued ∧ (.complete id ∈ called c.st.log →
        ∃ st, c.st.streams id = some st ∧ (c.st.senders st.sid).closed = false) := by
    intro st hst
    refine ⟨(h.sound.landed.stream id st hst).2, fun htold => ⟨st, hst, ?_⟩⟩
    refine h.filed.leftOpen trivial id st hst ?_
    by_contra hc
    have hzero := h.sound.books.not_complete hst (by simpa using hc)
    exact List.count_eq_zero.mp hzero htold
  rcases hleft with hstreams | ⟨sid, hroute⟩ | ⟨ps, hps, rfl⟩ | ⟨⟨t, a⟩, he, hop⟩
  · obtain ⟨st, hst⟩ := Option.ne_none_iff_exists'.mp hstreams
    exact hentry hst
  · obtain ⟨st, hst, -⟩ := h.filed.route sid id hroute
    exact hentry hst
  · have hpos := Desk.waiting_parked (v := desk c.st c.frames) hps
    refine ⟨h.sound.books.mem_issued (by omega), fun htold => ?_⟩
    have hzero := (h.sound.books.not_held (t := .complete ps.id) rfl htold).1
    omega
  · cases a with
    | call => cases hop
    | stream id' ms =>
        obtain rfl : id' = id := Op.stream.inj hop
        obtain ⟨st, hst, -⟩ := h.filed.streamTimer trivial t id' ms he
        exact hentry hst

theorem Kept.clean (h : Kept True owner c) : Clean c.st := by
  intro id hfin
  have hbooks := h.sound.books
  cases hfin with
  | call hdone =>
      refine gone_of_not_left (fun hleft => ?_) fun hleft => ?_
      · have hheld := h.call_held hleft
        obtain ⟨hwait, htable⟩ := hbooks.not_held (t := .done id) rfl hdone
        omega
      · exact h.sound.kinds id (hbooks.mem_issued_of_called hdone) (h.stream_left hleft).1
  | stream hcomplete hclosed =>
      refine gone_of_not_left (fun hleft => ?_) fun hleft => ?_
      · have hheld := h.call_held hleft
        exact h.sound.kinds id (hbooks.mem_issued (by omega))
          (hbooks.mem_issued_of_called hcomplete)
      · obtain ⟨st, hst, hopen⟩ := (h.stream_left hleft).2 hcomplete
        rw [hclosed st hst] at hopen
        cases hopen

/-! ### Sizes -/

/-- The keys of a routing table, counted by the operations that they lead to. -/
theorem encard_keys_le {table : Nat → Option Nat} {ids : Set Nat}
    (hmaps : ∀ sid id, table sid = some id → id ∈ ids)
    (hinj : ∀ sid sid' id, table sid = some id → table sid' = some id → sid = sid') :
    {sid | table sid ≠ none}.encard ≤ ids.encard := by
  refine Set.encard_le_encard_of_injOn (f := fun sid => (table sid).getD 0) ?_ ?_
  · intro sid hsid
    obtain ⟨id, hid⟩ := Option.ne_none_iff_exists'.mp hsid
    simpa [hid] using hmaps sid id hid
  · intro sid hsid sid' hsid' heq
    obtain ⟨id, hid⟩ := Option.ne_none_iff_exists'.mp hsid
    obtain ⟨id', hid'⟩ := Option.ne_none_iff_exists'.mp hsid'
    simp only [hid, hid', Option.getD_some] at heq
    exact hinj sid sid' id hid (heq ▸ hid')

/-- A queue in which no operation is twice. -/
theorem length_le_encard {α : Type} {l : List α} {f : α → Nat} {ids : Set Nat}
    (honce : ∀ id, l.countP (fun a => f a = id) ≤ 1) (hmem : ∀ a ∈ l, f a ∈ ids) :
    (l.length : ℕ∞) ≤ ids.encard := by
  have hnodup : (l.map f).Nodup := by
    refine List.nodup_iff_count_le_one.mpr fun id => ?_
    have hsame : ((· == id) ∘ f) = fun a => decide (f a = id) := rfl
    rw [List.count, List.countP_map, hsame]
    exact honce id
  calc (l.length : ℕ∞) = ((l.map f).toFinset : Set Nat).encard := by
        rw [Set.encard_coe_eq_coe_finsetCard, List.toFinset_card_of_nodup hnodup, List.length_map]
    _ ≤ ids.encard := by
        refine Set.encard_le_encard fun id hid => ?_
        obtain ⟨a, ha, rfl⟩ := List.mem_map.mp (List.mem_toFinset.mp hid)
        exact hmem a ha

theorem Kept.bounded (h : Kept True owner c) : Bounded c.st := by
  have hbooks := h.sound.books
  have honce := h.sound.numbered.once
  have hlt : ∀ {id : Nat}, ¬ Gone c.st id → id < c.st.nextCallId → id ∈ unfinished c.st :=
    fun hleft hid => ⟨hid, fun hfin => hleft (h.clean _ hfin)⟩
  have hcall : ∀ {id : Nat} {call : Call}, c.st.calls id = some call → id ∈ unfinished c.st :=
    fun hcall => hlt (fun hg => by simp [hg.calls] at hcall) (hbooks.bounds.call_lt hcall)
  have hstream : ∀ {id : Nat} {st : Stream}, c.st.streams id = some st → id ∈ unfinished c.st :=
    fun hst => hlt (fun hg => by simp [hg.streams] at hst) (hbooks.bounds.stream_lt hst)
  constructor
  · refine Set.encard_le_encard fun id hid => ?_
    obtain ⟨call, hc⟩ := Option.ne_none_iff_exists'.mp hid
    exact hcall hc
  · refine encard_keys_le (fun sid id hby => ?_) fun sid sid' id hby hby' => ?_
    · obtain ⟨call, hc, -⟩ := h.filed.byStream sid id hby
      exact hcall hc
    · obtain ⟨call, hc, rfl⟩ := h.filed.byStream sid id hby
      obtain ⟨call', hc', rfl⟩ := h.filed.byStream sid' id hby'
      rw [hc] at hc'
      cases hc'
      rfl
  · refine Set.encard_le_encard fun id hid => ?_
    obtain ⟨st, hst⟩ := Option.ne_none_iff_exists'.mp hid
    exact hstream hst
  · refine encard_keys_le (fun sid id hroute => ?_) fun sid sid' id hroute hroute' => ?_
    · obtain ⟨st, hst, -⟩ := h.filed.route sid id hroute
      exact hstream hst
    · obtain ⟨st, hst, rfl, -⟩ := h.filed.route sid id hroute
      obtain ⟨st', hst', rfl, -⟩ := h.filed.route sid' id hroute'
      rw [hst] at hst'
      cases hst'
      rfl
  · refine length_le_encard (f := PendingCall.id) (fun id => ?_) fun pc hpc => ?_
    · have hle := honce id
      simp only [Desk.coming] at hle
      exact Nat.le_trans (by simp only [desk]; omega) hle
    · refine hlt (fun hg => hg.pending pc hpc rfl) ?_
      exact hbooks.bound (t := .done pc.id) rfl (Desk.waiting_pending (v := desk c.st c.frames) hpc)
  · refine length_le_encard (f := PendingStream.id) (fun id => ?_) fun ps hps => ?_
    · have hle := honce id
      simp only [Desk.coming] at hle
      exact Nat.le_trans (by simp only [desk]; omega) hle
    · refine hlt (fun hg => hg.pendingStreams ps hps rfl) ?_
      exact hbooks.bound (t := .complete ps.id) rfl
        (Desk.waiting_parked (v := desk c.st c.frames) hps)

end Clean

/-! ## What is left behind -/

section Untidy

variable {tidy : Prop} {owner : Nat → Op} {s : State} {fs : List Frame} {sid id : Nat}

/-- `streams` and the session are the same, and more may have been told. -/
structure Beside (s s' : State) : Prop where
  streams : s'.streams = s.streams
  senders : s'.senders = s.senders
  told : ∀ t ∈ called s.log, t ∈ called s'.log

theorem Beside.refl (s : State) : Beside s s := ⟨rfl, rfl, fun _ h => h⟩

theorem Beside.trans {a b c : State} (h : Beside a b) (h' : Beside b c) : Beside a c :=
  ⟨h'.streams.trans h.streams, h'.senders.trans h.senders, fun t ht => h'.told t (h.told t ht)⟩

theorem mem_called_append {t : Token} {log os : List Obs} (h : t ∈ called log) :
    t ∈ called (log ++ os) := by
  rw [called, List.filterMap_append]
  exact List.mem_append_left _ h

/-- Of the streams `OnStreamClose` changes the one that `stream_by_sid` leads to. -/
theorem onStreamClose_beside {m : State} (hcall : CallClosed m sid s) : Beside m s := by
  have herase : ∀ m : State, Beside m (m.eraseByStreamAt sid) := by
    intro m
    obtain ⟨n, h⟩ := eraseByStreamAt_eq m sid
    rw [h]
    exact ⟨rfl, rfl, fun _ h => h⟩
  cases hcall with
  | unknown => exact .refl _
  | left => exact herase _
  | failed _ _ hc =>
      refine .trans ?_ (herase _)
      rw [complete_eq hc]
      exact ⟨rfl, rfl, fun _ h => mem_called_append h⟩

/-- A stream that is over is left behind when its HTTP/2 stream closes. -/
theorem close_over {st : Stream} (h : Filed tidy owner none s fs)
    (hst : s.streams id = some st) (hc : st.completed = true)
    (hclosed : (s.senders st.sid).closed = true) (htold : .complete id ∈ called s.log) :
    ¬ Clean (onStreamClose s st.sid) := by
  have hroute : s.streamBySid st.sid = none := by
    cases hi : s.streamBySid st.sid with
    | none => rfl
    | some i =>
        obtain ⟨st', hst', -, hlive⟩ := h.route st.sid i hi
        obtain rfl := h.route_eq hst hi
        rw [hst] at hst'
        cases hst'
        rw [hc] at hlive
        cases hlive
  have hside := onStreamClose_beside (onStreamClose_callClosed hroute)
  intro hclean
  have hentry : (onStreamClose s st.sid).streams id = some st := hside.streams ▸ hst
  have hfin : Finished (onStreamClose s st.sid) id := by
    refine .stream (hside.told _ htold) fun st' hst' => ?_
    rw [hentry] at hst'
    cases hst'
    rw [hside.senders]
    exact hclosed
  rw [(hclean id hfin).streams] at hentry
  cases hentry

/-- The timer of a stream that a lost connection fails is left behind. -/
theorem lost_timer {t ms : Nat} {st : Stream} (h : Filed tidy owner none s fs)
    (hphase : s.phase ≠ .broken) (hpending : s.pending = []) (hlt : id < s.nextCallId)
    (htimer : (t, .stream id ms) ∈ s.timers) (hlive : live s id = some st) :
    ¬ Clean (onConnectionLost s) := by
  obtain ⟨hst, hc⟩ := of_live hlive
  intro hclean
  unfold onConnectionLost failPending at hclean
  rw [if_neg hphase] at hclean
  dsimp only at hclean
  rw [hpending] at hclean
  have hgone := hclean id (.stream ?_ nofun)
  · refine (hgone.timers (t, .stream id ms) (List.mem_filter.mpr ⟨htimer, ?_⟩)).2 rfl
    simp only [Bool.not_eq_true', ← Bool.not_eq_true, List.contains_iff_mem]
    intro hlisted
    obtain ⟨⟨id', call⟩, hentry, hsome⟩ := List.mem_filterMap.mp hlisted
    have hkey := (h.call id' call (mem_entries.mp hentry).2).key
    split at hsome
    · have hop := hkey.own _ (Option.some.inj hsome ▸ htimer)
      cases hop
    · cases hsome
  · refine List.mem_filterMap.mpr ⟨.complete id connectionLost, ?_, rfl⟩
    refine List.mem_append_right _ (List.mem_append_left _ (List.mem_append_left _ ?_))
    refine List.mem_flatMap.mpr ⟨(id, st), mem_entries.mpr ⟨hlt, hst⟩, ?_⟩
    simp [hc, tellFail, tellComplete, st.terminal]

theorem untidy_step {c d : Conf} {l : Label} (h : Kept True owner c)
    (huntidy : tidyStep c l = false) (hstep : machine.step c l = some d) :
    ¬ (Clean d.st ∧ d.st.staleErases = 0) := by
  cases l with
  | resume => cases huntidy
  | event e =>
      obtain ⟨hen, s', gs, hfire, rfl⟩ := machine.step_event hstep
      change fire e c.st = some (s', gs) at hfire
      cases e with
      | streamClose sid =>
          simp only [fire] at hfire
          split at hfire
          · cases hfire
            have hshut : Filed False owner none
                (c.st.setSender sid (c.st.senders sid).close) c.frames := h.filed.weaken.close (by simp)
            have hclosed : ((c.st.setSender sid (c.st.senders sid).close).senders sid).closed =
                true := by simp [State.setSender, Sender.close]
            rintro ⟨hclean, hzero⟩
            rcases Bool.and_eq_false_iff.mp huntidy with hover | hends
            · obtain ⟨⟨id, st⟩, hmem, hst⟩ := List.all_eq_false.mp hover
              obtain ⟨hc, rfl⟩ : st.completed = true ∧ st.sid = sid := by simpa using hst
              have hentry := (mem_entries.mp hmem).2
              exact close_over hshut hentry hc hclosed (h.sound.landed.told id st hentry hc) hclean
            · have hgood := (onStreamClose_stale hshut sid).mp
                (hzero.trans (h.filed.stale trivial).symm)
              exact Bool.false_ne_true (hends.symm.trans hgood)
          · cases hfire
      | lost =>
          obtain ⟨hframes, -⟩ := machine.enabled_base rfl hen
          simp only [fire] at hfire
          split at hfire
          · next hses =>
              cases hfire
              have hready : c.st.phase = .ready := h.rest.session hses
              have hpending : c.st.pending = [] :=
                (h.rest.pending hready).resolve_left (by simp [desk, hframes])
              obtain ⟨⟨t, a⟩, hmem, ha⟩ := List.all_eq_false.mp huntidy
              cases a with
              | call => simp at ha
              | stream id ms =>
                  obtain ⟨st, hlive⟩ : ∃ st, live c.st id = some st :=
                    Option.ne_none_iff_exists'.mp (by simpa using ha)
                  exact fun hd => lost_timer h.filed (by simp [hready]) hpending
                    (h.sound.books.bounds.stream_lt (of_live hlive).1) hmem hlive hd.1
          · cases hfire
      | _ => cases huntidy

end Untidy

/-- **What finished operations leave behind.** In every run whose steps are all tidy, nothing is
    left of an operation that is finished, no table is larger than the number of the others, and no
    entry is erased through a dangling iterator. And that is the most that can be said: the step
    that follows such a run leaves the channel so just when it is tidy. -/
theorem finished_operations_leave_nothing (o : Options) (c : Conf)
    (h : machine.Reach (fun c l => tidyStep c l = true) (fresh o) c) :
    Clean c.st ∧ Bounded c.st ∧ c.st.staleErases = 0 ∧
      ∀ l d, machine.step c l = some d →
        (Clean d.st ∧ d.st.staleErases = 0 ↔ tidyStep c l = true) := by
  obtain ⟨owner, -, hc⟩ := reach_kept (fun _ _ _ hl => hl) (kept_fresh True (fun _ => .call 0) o) h
  refine ⟨hc.clean, hc.bounded, hc.filed.stale trivial,
    fun l d hstep => ⟨fun hclean => ?_, fun htidy => ?_⟩⟩
  · by_contra hno
    exact untidy_step hc (by simpa using hno) hstep hclean
  · obtain ⟨-, owner', -, hd⟩ := kept_step hc (fun _ => htidy) hstep
    exact ⟨hd.clean, hd.filed.stale trivial⟩

/-- A call is answered and its HTTP/2 stream closes, beside a stream that stays. -/
theorem finished_call_leaves_nothing :
    ∃ c, machine.Reach (fun c l => tidyStep c l = true) (fresh demo) c ∧ Finished c.st 1 ∧
      (c.st.streams 2).isSome = true ∧ Gone c.st 1 := by
  obtain ⟨c, hc, hdone, hst⟩ : ∃ c,
      machine.run (fun c l => tidyStep c l = true) (fresh demo) (callAndStream ++
        [.event (.headers 1 [("grpc-status", str "0")]), .event (.streamClose 1)]) = some c ∧
      .done 1 ∈ called c.st.log ∧ (c.st.streams 2).isSome = true := ⟨_, rfl, by decide, rfl⟩
  have hreach := machine.reach_of_run _ _ _ hc
  have hfin : Finished c.st 1 := .call hdone
  exact ⟨c, hreach, hfin, hst, (finished_operations_leave_nothing demo c hreach).1 1 hfin⟩

/-- Trailers end a stream and its HTTP/2 stream closes: the entry stays in `streams`. The
    connection is lost while a stream with a deadline is live: its timer stays armed. And the peer
    resets a call: its entry of `by_stream` is erased twice. -/
theorem finished_streams_leave_something :
    (∃ c, machine.Reach anyStep (fresh demo) c ∧ c.frames = [] ∧ Finished c.st 2 ∧
      (c.st.streams 2).isSome = true) ∧
    (∃ c, machine.Reach anyStep (fresh demo) c ∧ c.frames = [] ∧ Finished c.st 1 ∧
      c.st.timers = [(1, .stream 1 50)]) ∧
    ∃ c, machine.Reach anyStep (fresh demo) c ∧ c.frames = [] ∧ Finished c.st 1 ∧
      c.st.staleErases = 1 := by
  obtain ⟨c, hc, hframes, htold, hclosed, hst⟩ : ∃ c, machine.run anyStep (fresh demo)
      (callAndStream ++ [.event (.headers 3 [("grpc-status", str "0")]),
        .event (.streamClose 3)]) = some c ∧ c.frames = [] ∧ .complete 2 ∈ called c.st.log ∧
      (c.st.streams 2).all (fun st => (c.st.senders st.sid).closed) = true ∧
      (c.st.streams 2).isSome = true := ⟨_, rfl, rfl, by decide, rfl, rfl⟩
  obtain ⟨d, hd, hframes', htold', hnone, htimer⟩ : ∃ d, machine.run anyStep (fresh demo)
      [.event (.openStream (str "/b") ⟨true, true⟩ 50), .event (.task none), .event .connected,
        .resume, .resume, .resume, .resume, .event .lost] = some d ∧ d.frames = [] ∧
      .complete 1 ∈ called d.st.log ∧ d.st.streams 1 = none ∧
      d.st.timers = [(1, .stream 1 50)] := ⟨_, rfl, rfl, by decide, rfl, rfl⟩
  obtain ⟨e, he, hframes'', hdone, hone⟩ : ∃ e, machine.run anyStep (fresh demo)
      (callAndStream ++ [.event (.streamClose 1)]) = some e ∧ e.frames = [] ∧
      .done 1 ∈ called e.st.log ∧ e.st.staleErases = 1 := ⟨_, rfl, rfl, by decide, rfl⟩
  refine ⟨⟨c, machine.reach_of_run _ _ _ hc, hframes, .stream htold fun st h => ?_, hst⟩,
    ⟨d, machine.reach_of_run _ _ _ hd, hframes', .stream htold' fun st h => ?_, htimer⟩,
    e, machine.reach_of_run _ _ _ he, hframes'', .call hdone, hone⟩
  · rw [h] at hclosed
    exact hclosed
  · rw [hnone] at h
    cases h

end Urpc.Channel
