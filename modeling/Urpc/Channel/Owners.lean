/-
  Which client stream an HTTP/2 stream belongs to.

  A stream takes its HTTP/2 stream when it is opened and keeps it: no two streams share one
  (`apart`), and the closures of a stream are all in the session's part of that HTTP/2 stream
  (`home`, `own`). Both rest on the ledger: `on_complete` of a stream is in one place, so a
  stream that has been opened is never opened again (`waiting_complete_move`).
-/
import Urpc.Channel.Terminal

namespace Urpc.Channel

open Cxx Total

namespace Desk

variable {v v' : Desk} {E : Env}

/-! ## An opened stream does not wait again -/

theorem parkedWeight_complete (id : Nat) (ps : PendingStream) :
    parkedWeight (single (.complete id)) ps = if ps.id = id then 1 else 0 := by
  have hqueue : queueWeight (single (.complete id)) ps.id ps.outQueue = 0 := by
    have hcb : ∀ cb, cbWeight (single (.complete id)) ps.id cb = 0 := by
      intro cb
      cases cb <;> simp [cbWeight, single]
    simp [queueWeight, hcb]
  simp [parkedWeight, hqueue, single]

theorem cbWeight_complete (id id' : Nat) (cb : Option CbId) :
    cbWeight (single (.complete id)) id' cb = 0 := by
  cases cb <;> simp [cbWeight, single]

/-- What waits for `on_complete` of a stream that has its id does not become more. -/
theorem waiting_complete_move {id : Nat} (hid : id < v.nextCallId) (hm : Move E v v') :
    v'.waiting (single (.complete id)) ≤ v.waiting (single (.complete id)) := by
  cases hm with
  | call path framed timeoutMs => simp [waiting, taskWeight, single]
  | openStream path events timeoutMs =>
      have hne : v.nextCallId ≠ id := by omega
      simp [waiting, taskWeight, single, hne]
  | streamSend id' framed cb close => simp [waiting, taskWeight, cbWeight_complete]
  | post ht => simp [waiting, plain_weight _ ht]
  | consumed => simp [waiting, note, setStream, setSender, taskWeight]
  | connected hphase htodo => simp [waiting, htodo, frameWeight]
  | started hf | startedStreams hf | callGone hf | streamGone hf | callRegistered hf
  | callTimedOut hf | cancelled hf | streamErased hf =>
      simp only [waiting, note, setCall, hf, List.map_cons, List.sum_cons]
      omega
  | lost =>
      simp only [waiting, lose, List.map_nil, List.sum_nil]
      omega
  | skip hp =>
      simp only [waiting, hp, List.map_cons, List.sum_cons]
      omega
  | callParked timer hp =>
      simp only [waiting, hp, List.map_cons, List.sum_cons, List.map_append, List.sum_append,
        List.map_nil, List.sum_nil, taskWeight]
      omega
  | callSubmitted fields body hn =>
      have hw := (hn.weight (single (.complete id))).1
      rw [← hn.same.1]
      simp only [waiting, submit, setSender, List.map_cons, List.sum_cons, frameWeight] at hw ⊢
      omega
  | callFailed status hn =>
      have hw := (hn.weight (single (.complete id))).1
      simp only [waiting, note] at hw ⊢
      omega
  | callTimeout | streamTimeout =>
      simp [waiting, setCall, setStream, frameWeight]
  | cancel =>
      simp [waiting, setCall, frameWeight, single]
  | streamParked hp hq hphase =>
      rename_i ps ts
      simp only [waiting, hp, List.map_cons, List.sum_cons, List.map_append, List.sum_append,
        List.map_nil, List.sum_nil, taskWeight, ps.terminal, if_true, parkedWeight, hq,
        queueWeight]
      omega
  | streamOpened hn =>
      have hw := (hn.weight (single (.complete id))).1
      rw [← hn.same.1]
      simp only [waiting, submit, setSender, List.map_cons, List.sum_cons, frameWeight] at hw ⊢
      omega
  | streamFailed status hn =>
      have hw := (hn.weight (single (.complete id))).1
      simp only [waiting, note] at hw ⊢
      omega
  | streamRegistered timer hf =>
      simp only [waiting, setStream, hf, List.map_cons, List.sum_cons]
      omega
  | @sendParked id' framed cb close ts ps hp hps =>
      have hsame := updateParked_weight (single (.complete id)) id'
        (fun ps => { ps with outQueue := ps.outQueue ++ [⟨framed, close, cb⟩] }) 0 v.parked
        (fun ps _ => by simp only [parkedWeight_complete]; omega) (.inl rfl)
      simp only [waiting, hp, List.map_cons, List.sum_cons, hsame]
      omega
  | sendQueued hp =>
      simp only [waiting, setStream, hp, List.map_cons, List.sum_cons]
      omega
  | sendRefused status hp =>
      simp only [waiting, note, hp, List.map_cons, List.sum_cons]
      omega
  | closeParked id' =>
      have hsame := updateParked_weight (single (.complete id)) id'
        (fun ps => { ps with outQueue := closeQueue ps.outQueue }) 0 v.parked
        (fun ps _ => by simp only [parkedWeight_complete]; omega) (.inl rfl)
      simp only [waiting, hsame]
      omega
  | _ => exact Nat.le_refl _

/-! ## Owners -/

/-- The HTTP/2 stream of a stream that is being opened. -/
def openingSid : Frame → Option Nat
  | .openStreamRest sid _ _ => some sid
  | _ => none

def openings (v : Desk) : List Nat := v.todo.filterMap openingSid

theorem mem_openings {sid : Nat} {ps : PendingStream} {decoder : FrameDecoder}
    (h : .openStreamRest sid ps decoder ∈ v.todo) : sid ∈ v.openings :=
  List.mem_filterMap.mpr ⟨_, h, rfl⟩

structure Owned (v : Desk) : Prop where
  apart : ∀ id id' st st', v.streams id = some st → v.streams id' = some st' →
    st.sid = st'.sid → id = id'
  once : v.openings.Nodup
  unused : ∀ sid ∈ v.openings, (∀ id st, v.streams id = some st → st.sid ≠ sid) ∧
    ∀ f, (v.senders sid).carried f = 0
  home : ∀ id st sid, v.streams id = some st → sid ≠ st.sid →
    (v.senders sid).carried (closureOf id) = 0
  own : ∀ id st id', v.streams id = some st → id' ≠ id →
    (v.senders st.sid).carried (closureOf id') = 0
  begun : ∀ id sid, (v.senders sid).carried (closureOf id) ≠ 0 →
    id < v.nextCallId ∧ v.waiting (single (.complete id)) = 0

/-- Moves that open no stream and give the session no closure. -/
theorem Owned.keep (h : Owned v) (hm : Move E v v')
    (hstreams : ∀ id st', v'.streams id = some st' → ∃ st, v.streams id = some st ∧
      st'.sid = st.sid)
    (hopenings : v'.openings.Sublist v.openings)
    (hsenders : ∀ sid f, (v'.senders sid).carried f ≤ (v.senders sid).carried f)
    (hnext : v.nextCallId ≤ v'.nextCallId) : Owned v' := by
  have hzero : ∀ {sid : Nat} {f : Closure → Nat}, (v.senders sid).carried f = 0 →
      (v'.senders sid).carried f = 0 := by
    intro sid f h0
    have := hsenders sid f
    omega
  refine ⟨?_, h.once.sublist hopenings, ?_, ?_, ?_, ?_⟩
  · intro id id' st st' hst hst' hsid
    obtain ⟨s, hs, hsame⟩ := hstreams id st hst
    obtain ⟨s', hs', hsame'⟩ := hstreams id' st' hst'
    exact h.apart id id' s s' hs hs' (by rw [← hsame, ← hsame', hsid])
  · intro sid hsid
    obtain ⟨hfree, hempty⟩ := h.unused sid (hopenings.subset hsid)
    refine ⟨?_, fun f => hzero (hempty f)⟩
    intro id st' hst'
    obtain ⟨st, hst, hsame⟩ := hstreams id st' hst'
    rw [hsame]
    exact hfree id st hst
  · intro id st' sid hst' hne
    obtain ⟨st, hst, hsame⟩ := hstreams id st' hst'
    exact hzero (h.home id st sid hst (hsame ▸ hne))
  · intro id st' id' hst' hne
    obtain ⟨st, hst, hsame⟩ := hstreams id st' hst'
    rw [hsame]
    exact hzero (h.own id st id' hst hne)
  · intro id sid hpos
    have hpos : (v.senders sid).carried (closureOf id) ≠ 0 := fun h0 => hpos (hzero h0)
    obtain ⟨hid, hwait⟩ := h.begun id sid hpos
    have := waiting_complete_move hid hm
    exact ⟨by omega, by omega⟩

theorem openings_pop {f : Frame} {fs : List Frame} (h : v.todo = f :: fs) :
    (fs.filterMap openingSid).Sublist v.openings := by
  rw [openings, h]
  exact (List.sublist_cons_self f fs).filterMap _

/-- A sender that changes at one HTTP/2 stream only. -/
theorem carried_update {senders : Nat → Sender Closure} {sid : Nat} {h2 : Sender Closure}
    (h : ∀ f, h2.carried f ≤ (senders sid).carried f) (sid' : Nat) (f : Closure → Nat) :
    (Function.update senders sid h2 sid').carried f ≤ (senders sid').carried f := by
  by_cases heq : sid' = sid
  · subst heq
    rw [Function.update_self]
    exact h f
  · rw [Function.update_of_ne heq]

theorem carried_pop {h2 : Sender Closure} {n : Closure} {notes : List Closure}
    (hn : h2.notes = n :: notes) (f : Closure → Nat) :
    ({ h2 with notes } : Sender Closure).carried f ≤ h2.carried f := by
  simp only [Sender.carried, hn, List.map_cons, List.sum_cons]
  omega

/-- A new HTTP/2 stream that carries nothing, with the frame that opens a stream on it. -/
theorem Owned.opened (h : Owned v) (hb : Bounds v) (h2 : Sender Closure) (ps : PendingStream)
    (decoder : FrameDecoder) (h0 : ∀ f, h2.carried f = 0)
    (hm : Move E v { v'.submit h2 with todo := .openStreamRest v.nextSid ps decoder :: v.todo })
    (hs : v'.streams = v.streams) (hse : v'.senders = v.senders) (hsid : v'.nextSid = v.nextSid)
    (hid : v'.nextCallId = v.nextCallId) :
    Owned { v'.submit h2 with todo := .openStreamRest v.nextSid ps decoder :: v.todo } := by
  have hnew : v.nextSid ∉ v.openings := by
    intro hmem
    obtain ⟨f, hf, hsome⟩ := List.mem_filterMap.mp hmem
    cases f with
    | openStreamRest sid ps decoder =>
        cases hsome
        exact absurd (hb.opening _ _ _ hf).2 (Nat.lt_irrefl _)
    | _ => cases hsome
  have hempty : ∀ sid f, (v.senders sid).carried f = 0 →
      (Function.update v.senders v.nextSid h2 sid).carried f = 0 := by
    intro sid f hz
    by_cases heq : sid = v.nextSid
    · rw [heq, Function.update_self, h0]
    · rw [Function.update_of_ne heq, hz]
  refine ⟨?_, ?_, ?_, ?_, ?_, ?_⟩ <;>
    simp only [submit, setSender, hs, hse, hsid, hid]
  · exact h.apart
  · exact List.nodup_cons.mpr ⟨hnew, h.once⟩
  · intro sid hmem
    rcases List.mem_cons.mp hmem with rfl | hmem
    · refine ⟨fun id st hst heq => ?_, fun f => by rw [Function.update_self, h0]⟩
      have := (hb.sids id st hst).2
      omega
    · obtain ⟨hfree, hz⟩ := h.unused sid hmem
      exact ⟨hfree, fun f => hempty sid f (hz f)⟩
  · exact fun id st sid hst hne => hempty sid _ (h.home id st sid hst hne)
  · exact fun id st id' hst hne => hempty st.sid _ (h.own id st id' hst hne)
  · intro id sid hpos
    obtain ⟨hlt, hwait⟩ := h.begun id sid fun hz => hpos (hempty sid _ hz)
    have hmono := waiting_complete_move hlt hm
    refine ⟨hlt, ?_⟩
    have : (waiting (single (.complete id)) { v'.submit h2 with
      todo := .openStreamRest v.nextSid ps decoder :: v.todo }) = 0 := by omega
    simpa only [submit, setSender, hs, hse, hsid, hid] using this

/-- A live stream does not wait to be opened. -/
theorem Books.live_waiting (hb : Books v) {id : Nat} {st : Stream} (hst : v.streams id = some st)
    (hc : st.completed = false) : v.waiting (single (.complete id)) = 0 := by
  by_contra hpos
  have hfree := hb.stream_free (Nat.pos_of_ne_zero hpos) fun _ => 1
  rw [hst] at hfree
  simp only [streamWeight, hc, Bool.false_eq_true, if_false] at hfree
  omega

theorem Owned.registered (h : Owned v) {sid : Nat} {ps : PendingStream} {decoder : FrameDecoder}
    {fs : List Frame} {st : Stream} {routes : Nat → Option Nat}
    (hf : v.todo = .openStreamRest sid ps decoder :: fs) (hsid : st.sid = sid)
    (hm : Move E v ({ v with todo := fs, routes }.setStream ps.id st)) :
    Owned ({ v with todo := fs, routes }.setStream ps.id st) := by
  have hlist : v.openings = sid :: fs.filterMap openingSid := by rw [openings, hf]; rfl
  have hnodup := hlist ▸ h.once
  obtain ⟨hfree, hempty⟩ := h.unused sid (by simp [hlist])
  have hnone : ∀ sid', (v.senders sid').carried (closureOf ps.id) = 0 := by
    intro sid'
    by_contra hpos
    have hwait := (h.begun ps.id sid' hpos).2
    simp only [waiting, hf, List.map_cons, List.sum_cons, frameWeight, parkedWeight_complete,
      if_true] at hwait
    omega
  have hcases : ∀ id' st', Function.update v.streams ps.id (some st) id' = some st' →
      (id' = ps.id ∧ st' = st) ∨ (id' ≠ ps.id ∧ v.streams id' = some st') := by
    intro id' st' hst'
    by_cases heq : id' = ps.id
    · subst heq
      rw [Function.update_self, Option.some.injEq] at hst'
      exact .inl ⟨rfl, hst'.symm⟩
    · rw [Function.update_of_ne heq] at hst'
      exact .inr ⟨heq, hst'⟩
  refine ⟨?_, (List.nodup_cons.mp hnodup).2, ?_, ?_, ?_, ?_⟩
  · intro id1 id2 st1 st2 h1 h2 heq
    rcases hcases id1 st1 h1 with ⟨rfl, rfl⟩ | ⟨-, hold1⟩ <;>
      rcases hcases id2 st2 h2 with ⟨rfl, rfl⟩ | ⟨-, hold2⟩
    · rfl
    · exact absurd (heq.symm.trans hsid) (hfree id2 st2 hold2)
    · exact absurd (heq.trans hsid) (hfree id1 st1 hold1)
    · exact h.apart id1 id2 st1 st2 hold1 hold2 heq
  · intro sid' hmem
    obtain ⟨hfree', hempty'⟩ := h.unused sid' (by rw [hlist]; exact List.mem_cons_of_mem _ hmem)
    refine ⟨?_, hempty'⟩
    intro id' st' hst' heq
    rcases hcases id' st' hst' with ⟨rfl, rfl⟩ | ⟨-, hst'⟩
    · rw [hsid] at heq
      exact (List.nodup_cons.mp hnodup).1 (heq ▸ hmem)
    · exact hfree' id' st' hst' heq
  · intro id' st' sid' hst' hne
    rcases hcases id' st' hst' with ⟨rfl, rfl⟩ | ⟨-, hst'⟩
    · exact hnone sid'
    · exact h.home id' st' sid' hst' hne
  · intro id' st' id2 hst' hne
    rcases hcases id' st' hst' with ⟨rfl, rfl⟩ | ⟨-, hst'⟩
    · rw [hsid]
      exact hempty _
    · exact h.own id' st' id2 hst' hne
  · intro id' sid' hpos
    obtain ⟨hlt, hwait⟩ := h.begun id' sid' hpos
    have := waiting_complete_move hlt hm
    exact ⟨hlt, by omega⟩

theorem owned_move (hb : Books v) (h : Owned v) (hm : Move E v v') : Owned v' := by
  have hold : ∀ id st', v.streams id = some st' → ∃ st, v.streams id = some st ∧
      st'.sid = st.sid := fun id st h => ⟨st, h, rfl⟩
  have hle : ∀ sid f, (v.senders sid).carried f ≤ (v.senders sid).carried f :=
    fun _ _ => Nat.le_refl _
  have hrule := hm
  cases hrule with
  | call | openStream => exact h.keep hm hold (List.Sublist.refl _) hle (Nat.le_succ _)
  | credit sid n =>
      exact h.keep hm hold (List.Sublist.refl _)
        (carried_update fun f => Nat.le_of_eq (Sender.credit_carried f _ n)) (Nat.le_refl _)
  | close sid =>
      exact h.keep hm hold (List.Sublist.refl _)
        (carried_update fun f => Nat.le_of_eq (Sender.close_carried f _)) (Nat.le_refl _)
  | reset sid =>
      refine h.keep hm hold (List.Sublist.refl _) (carried_update ?_) (Nat.le_refl _)
      exact fun f => Nat.le_refl _
  | consumed hn hst =>
      exact h.keep hm (update_streams hst rfl) (List.Sublist.refl _)
        (carried_update (carried_pop hn)) (Nat.le_refl _)
  | consumedLate hn hst =>
      exact h.keep hm hold (List.Sublist.refl _) (carried_update (carried_pop hn)) (Nat.le_refl _)
  | connected hphase htodo => exact h.keep hm hold (List.nil_sublist _) hle (Nat.le_refl _)
  | started hf | startedStreams hf | callGone hf | streamGone hf | callRegistered hf
  | callTimedOut hf | cancelled hf =>
      exact h.keep hm hold (openings_pop hf) hle (Nat.le_refl _)
  | lost =>
      exact h.keep hm (fun _ _ h => by cases h) (List.Sublist.refl _)
        (fun sid f => Nat.le_of_eq (Sender.close_carried f _)) (Nat.le_refl _)
  | callSubmitted fields body hn =>
      refine h.keep hm ?_ ?_ ?_ ?_
      · cases hn <;> exact hold
      · exact List.Sublist.refl _
      · intro sid f
        have hzero : ∀ f, (submitRequest fields body).carried f ≤ (v.senders v.nextSid).carried f :=
          fun f => by rw [submitRequest_carried]; exact Nat.zero_le _
        cases hn <;> exact carried_update hzero sid f
      · cases hn <;> exact Nat.le_refl _
  | callFailed status hn => cases hn <;> exact h.keep hm hold (List.Sublist.refl _) hle (Nat.le_refl _)
  | streamOpened hn =>
      refine h.opened hb.bounds _ _ _ ?_ hm ?_ ?_ ?_ ?_
      · intro f
        rw [Sender.sendHeaders_carried]
        rfl
      all_goals cases hn <;> rfl
  | streamFailed status hn =>
      cases hn <;> exact h.keep hm hold (List.Sublist.refl _) hle (Nat.le_refl _)
  | streamFed _ _ hst | streamOver _ _ hst | closeQueued hst | closeMarked hst | sendQueued _ hst
  | streamTimeout hst =>
      exact h.keep hm (update_streams hst rfl) (List.Sublist.refl _) hle (Nat.le_refl _)
  | @streamErased id st fs hf hst =>
      refine h.keep hm ?_ (openings_pop hf) hle (Nat.le_refl _)
      intro id' st' hst'
      simp only at hst'
      by_cases heq : id' = id
      · rw [heq, Function.update_self] at hst'
        cases hst'
      · rw [Function.update_of_ne heq] at hst'
        exact ⟨st', hst', rfl⟩
  | closeSent hst =>
      refine h.keep hm (update_streams hst rfl) (List.Sublist.refl _) (carried_update ?_)
        (Nat.le_refl _)
      intro f
      rw [Sender.sendData_carried]
      exact Nat.le_refl _
  | streamRegistered timer hf => exact h.registered hf rfl hm
  | @pumped id st out queue hst hq hc hi hses =>
      have hcarried : ∀ sid' id', ((Function.update v.senders st.sid ((v.senders st.sid).sendData
          out.framed out.close (some ⟨id, out.cb⟩))) sid').carried (closureOf id') =
          (v.senders sid').carried (closureOf id') +
            if sid' = st.sid ∧ id = id' then 1 else 0 := by
        intro sid' id'
        by_cases heq : sid' = st.sid
        · subst heq
          rw [Function.update_self, Sender.sendData_carried]
          simp [closureOf]
        · rw [Function.update_of_ne heq]
          simp [heq]
      have hstreams := update_streams (x := { st with
        outQueue := queue, outInflight := true, sendClosed := st.sendClosed || out.close }) hst rfl
      refine ⟨?_, h.once, ?_, ?_, ?_, ?_⟩
      · intro id1 id2 st1 st2 h1 h2 heq
        obtain ⟨s1, h1, hsame1⟩ := hstreams id1 st1 h1
        obtain ⟨s2, h2, hsame2⟩ := hstreams id2 st2 h2
        exact h.apart id1 id2 s1 s2 h1 h2 (by rw [← hsame1, ← hsame2, heq])
      · intro sid' hmem
        obtain ⟨hfree, hempty⟩ := h.unused sid' hmem
        refine ⟨?_, ?_⟩
        · intro id' st' hst'
          obtain ⟨s, hs, hsame⟩ := hstreams id' st' hst'
          rw [hsame]
          exact hfree id' s hs
        · intro f
          simp only [setSender, setStream]
          rw [Function.update_of_ne (fun heq => hfree id st hst heq.symm)]
          exact hempty f
      · intro id' st' sid' hst' hne
        obtain ⟨s, hs, hsame⟩ := hstreams id' st' hst'
        have hold := h.home id' s sid' hs (hsame ▸ hne)
        have hno : ¬ (sid' = st.sid ∧ id = id') := by
          rintro ⟨rfl, rfl⟩
          rw [hst, Option.some.injEq] at hs
          exact hne (by rw [hsame, hs])
        exact (hcarried sid' id').trans (by rw [hold, if_neg hno])
      · intro id1 st1 id' hst1 hne
        obtain ⟨s, hs, hsame⟩ := hstreams id1 st1 hst1
        have hold := h.own id1 s id' hs hne
        have hno : ¬ (st1.sid = st.sid ∧ id = id') := by
          rintro ⟨heq, rfl⟩
          exact hne (h.apart id id1 st s hst hs (by rw [← heq, hsame]))
        rw [← hsame] at hold
        exact (hcarried st1.sid id').trans (by rw [hold, if_neg hno])
      · intro id' sid' hpos
        have hpos : (v.senders sid').carried (closureOf id') +
            (if sid' = st.sid ∧ id = id' then 1 else 0) ≠ 0 := hcarried sid' id' ▸ hpos
        by_cases hnew : sid' = st.sid ∧ id = id'
        · rw [← hnew.2]
          exact ⟨hb.bounds.stream_lt hst, hb.live_waiting hst hc⟩
        · rw [if_neg hnew] at hpos
          exact h.begun id' sid' hpos
  | _ => exact h.keep hm hold (List.Sublist.refl _) hle (Nat.le_refl _)

theorem owned_fresh (o : Options) : Owned (desk (fresh o).st (fresh o).frames) where
  apart _ _ _ _ h := by cases h
  once := List.nodup_nil
  unused _ h := by cases h
  home _ _ _ h := by cases h
  own _ _ _ h := by cases h
  begun _ _ h := absurd rfl h

end Desk

end Urpc.Channel
