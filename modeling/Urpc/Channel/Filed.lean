/-
  Where an operation is filed.

  A channel files an operation in several tables: `calls` and `by_stream`, or `streams` and
  `stream_by_sid`, and its timer in the loop. `Filed` says how they fit together: every HTTP/2
  stream has one owner, the operation that submitted it; the entries of the routing tables lead
  to the entry that they are about; the timer of a call is that of a call which waits or is live.

  With `tidy` it says more: a stream that is over is in `streams` only as long as its HTTP/2
  stream is open, the timer of a stream is that of a live one, and every iterator was good when it
  was used. Not every run is that tidy.

  Proved here: what each change to the tables keeps, and the functions on streams.
-/
import Urpc.Channel.Entries

namespace Urpc.Channel

open Cxx

/-- An operation: a unary call or a stream. -/
inductive Op where
  | call (id : Nat)
  | stream (id : Nat)
  deriving DecidableEq

def Alarm.op : Alarm → Op
  | .call id _ => .call id
  | .stream id _ => .stream id

def Obs.op : Obs → Op
  | .done id .. => .call id
  | .message id .. | .complete id _ | .flushed id .. => .stream id

/-- The HTTP/2 stream that a frame is about to register, for which operation, and its timer. -/
def Frame.opens : Frame → Option (Nat × Op × Nat)
  | .callNowRest sid id call => some (sid, .call id, call.timeoutTimer)
  | .openStreamRest sid ps _ => some (sid, .stream ps.id, 0)
  | _ => none

/-- The timer `t` is not that of another operation. -/
structure KeyOf (n : Nat) (timers : List (Nat × Alarm)) (op : Op) (t : Nat) : Prop where
  known : t < n
  own : ∀ a, (t, a) ∈ timers → a.op = op

/-- `op` owns the HTTP/2 stream `sid` and has the timer `t`. -/
structure Owns (owner : Nat → Op) (n m : Nat) (timers : List (Nat × Alarm)) (op : Op)
    (sid t : Nat) : Prop where
  owner : owner sid = op
  pos : 0 < sid
  known : sid < n
  key : KeyOf m timers op t

/-- Who will cancel the timer `t` of the call `id`; `hand` is a call that a function holds. -/
inductive Holds (pending : List PendingCall) (calls : Nat → Option Call) (fs : List Frame)
    (hand : Option (Nat × Nat)) (id t : Nat) : Prop where
  | hand : hand = some (id, t) → Holds pending calls fs hand id t
  | pending (pc : PendingCall) : pc ∈ pending → pc.id = id → pc.call.timeoutTimer = t →
      Holds pending calls fs hand id t
  | frame (f : Frame) (sid : Nat) : f ∈ fs → f.opens = some (sid, .call id, t) →
      Holds pending calls fs hand id t
  | call (call : Call) : calls id = some call → call.timeoutTimer = t →
      call.completed = false → Holds pending calls fs hand id t

structure Filed (tidy : Prop) (owner : Nat → Op) (hand : Option (Nat × Nat)) (s : State)
    (fs : List Frame) : Prop where
  linked : s.phase = .ready → s.session = true
  sidPos : 0 < s.nextSid
  timerPos : 0 < s.nextTimer
  keys : ∀ e ∈ s.timers, 0 < e.1 ∧ e.1 < s.nextTimer
  call : ∀ id call, s.calls id = some call →
    Owns owner s.nextSid s.nextTimer s.timers (.call id) call.sid call.timeoutTimer
  stream : ∀ id st, s.streams id = some st →
    Owns owner s.nextSid s.nextTimer s.timers (.stream id) st.sid st.timeoutTimer
  opening : ∀ f ∈ fs, ∀ sid op t, f.opens = some (sid, op, t) →
    Owns owner s.nextSid s.nextTimer s.timers op sid t
  byStream : ∀ sid id, s.byStream sid = some id → ∃ call, s.calls id = some call ∧ call.sid = sid
  route : ∀ sid id, s.streamBySid sid = some id →
    ∃ st, s.streams id = some st ∧ st.sid = sid ∧ st.completed = false
  task : ∀ id path framed ms call, .call id path framed ms call ∈ s.posted → call.timeoutTimer = 0
  pending : ∀ pc ∈ s.pending, KeyOf s.nextTimer s.timers (.call pc.id) pc.call.timeoutTimer
  inHand : ∀ id t, hand = some (id, t) → KeyOf s.nextTimer s.timers (.call id) t
  callTimer : ∀ t id ms, (t, .call id ms) ∈ s.timers → Holds s.pending s.calls fs hand id t
  streamTimer : tidy → ∀ t id ms, (t, .stream id ms) ∈ s.timers →
    ∃ st, s.streams id = some st ∧ st.timeoutTimer = t ∧ st.completed = false
  leftOpen : tidy → ∀ id st, s.streams id = some st → st.completed = true →
    (s.senders st.sid).closed = false
  stale : tidy → s.staleErases = 0

variable {tidy : Prop} {owner : Nat → Op} {hand : Option (Nat × Nat)} {s : State}
  {fs : List Frame}

theorem filed_fresh (tidy : Prop) (owner : Nat → Op) (o : Options) :
    Filed tidy owner none (fresh o).st (fresh o).frames where
  linked := nofun
  sidPos := Nat.zero_lt_one
  timerPos := Nat.zero_lt_one
  keys := nofun
  call := nofun
  stream := nofun
  opening := nofun
  byStream := nofun
  route := nofun
  task := nofun
  pending := nofun
  inHand := nofun
  callTimer := nofun
  streamTimer _ := nofun
  leftOpen _ := nofun
  stale _ := rfl

/-- Without the half of the streams. -/
theorem Filed.weaken (h : Filed tidy owner hand s fs) : Filed False owner hand s fs :=
  { h with streamTimer := nofun, leftOpen := nofun, stale := nofun }

/-! ## Timers -/

theorem KeyOf.zero {op : Op} (h : Filed tidy owner hand s fs) :
    KeyOf s.nextTimer s.timers op 0 :=
  ⟨h.timerPos, fun _ ha => absurd (h.keys _ ha).1 (Nat.lt_irrefl 0)⟩

/-- Timers go, or come with a new key. -/
theorem KeyOf.mono {n n' : Nat} {ts ts' : List (Nat × Alarm)} {op : Op} {t : Nat}
    (h : KeyOf n ts op t) (hn : n ≤ n') (hts : ∀ e ∈ ts', e ∈ ts ∨ n ≤ e.1) :
    KeyOf n' ts' op t where
  known := Nat.lt_of_lt_of_le h.known hn
  own a ha := by
    rcases hts _ ha with hold | hnew
    · exact h.own a hold
    · exact absurd h.known (Nat.not_lt.mpr hnew)

theorem Owns.mono {n n' m m' : Nat} {ts ts' : List (Nat × Alarm)} {op : Op} {sid t : Nat}
    (h : Owns owner n m ts op sid t) (hn : n ≤ n') (hm : m ≤ m')
    (hts : ∀ e ∈ ts', e ∈ ts ∨ m ≤ e.1) : Owns owner n' m' ts' op sid t :=
  ⟨h.owner, h.pos, Nat.lt_of_lt_of_le h.known hn, h.key.mono hm hts⟩

theorem Holds.imp {pending pending' : List PendingCall} {calls calls' : Nat → Option Call}
    {fs' : List Frame} {hand' : Option (Nat × Nat)} {id t : Nat}
    (h : Holds pending calls fs hand id t)
    (hhand : hand = some (id, t) → Holds pending' calls' fs' hand' id t)
    (hpending : ∀ pc ∈ pending, pc ∈ pending')
    (hframes : ∀ f ∈ fs, f.opens.isSome = true → f ∈ fs')
    (hcalls : ∀ call, calls id = some call → call.timeoutTimer = t → call.completed = false →
      Holds pending' calls' fs' hand' id t) : Holds pending' calls' fs' hand' id t := by
  cases h with
  | hand hh => exact hhand hh
  | pending pc hpc hid ht => exact .pending pc (hpending pc hpc) hid ht
  | frame f sid hf ho => exact .frame f sid (hframes f hf (by simp [ho])) ho
  | call call hc ht hcomp => exact hcalls call hc ht hcomp

/-- The same, but for the calls in hand. -/
theorem Holds.rehand {pending : List PendingCall} {calls : Nat → Option Call}
    {hand' : Option (Nat × Nat)} {id t : Nat} (h : Holds pending calls fs hand id t)
    (hhand : hand = some (id, t) → hand' = some (id, t)) : Holds pending calls fs hand' id t :=
  h.imp (fun hh => .hand (hhand hh)) (fun _ hpc => hpc) (fun _ hf _ => hf) .call

/-- `CancelTimer` of a timer that nobody will cancel again. -/
theorem Filed.cancelTimer {hand' : Option (Nat × Nat)} (h : Filed tidy owner hand s fs) (t : Nat)
    (hhand : ∀ id t', hand' = some (id, t') → hand = some (id, t'))
    (hlast : ∀ id t', t' ≠ t → hand = some (id, t') → hand' = some (id, t')) :
    Filed tidy owner hand' (s.cancelTimer t) fs := by
  have hless : ∀ e ∈ (s.cancelTimer t).timers, e ∈ s.timers ∧ e.1 ≠ t := by
    intro e he
    simpa [State.cancelTimer] using he
  have hts : ∀ e ∈ (s.cancelTimer t).timers, e ∈ s.timers ∨ s.nextTimer ≤ e.1 :=
    fun e he => .inl (hless e he).1
  have howns : ∀ {op : Op} {sid t' : Nat}, Owns owner s.nextSid s.nextTimer s.timers op sid t' →
      Owns owner s.nextSid s.nextTimer (s.cancelTimer t).timers op sid t' :=
    fun ho => ho.mono (Nat.le_refl _) (Nat.le_refl _) hts
  exact { h with
    keys := fun e he => h.keys e (hless e he).1
    call := fun id call hc => howns (h.call id call hc)
    stream := fun id st hst => howns (h.stream id st hst)
    opening := fun f hf sid op t' ho => howns (h.opening f hf sid op t' ho)
    pending := fun pc hpc => (h.pending pc hpc).mono (Nat.le_refl _) hts
    inHand := fun id t' hh => (h.inHand id t' (hhand id t' hh)).mono (Nat.le_refl _) hts
    callTimer := fun t' id ms he =>
      (h.callTimer t' id ms (hless _ he).1).rehand (hlast id t' (hless _ he).2)
    streamTimer := fun htidy t' id ms he => h.streamTimer htidy t' id ms (hless _ he).1 }

/-- `if (timer != 0) CancelTimer(timer)` for an operation with no one else to cancel it. -/
theorem Filed.cancelSet (h : Filed tidy owner hand s fs) (t : Nat) :
    Filed tidy owner hand (if t ≠ 0 then s.cancelTimer t else s) fs := by
  split
  · exact h.cancelTimer t (fun _ _ hh => hh) fun _ _ _ hh => hh
  · exact h

/-- The timer of a call that a function holds is cancelled: it need not be held any more. -/
theorem Filed.dropHand {id t : Nat} (h : Filed tidy owner (some (id, t)) s fs) :
    Filed tidy owner none (if t ≠ 0 then s.cancelTimer t else s) fs := by
  split
  · refine h.cancelTimer t nofun fun id' t' hne hh => ?_
    cases hh
    exact absurd rfl hne
  · next hzero =>
      have hz : t = 0 := by simpa using hzero
      refine { h with inHand := nofun, callTimer := fun t' id' ms he => ?_ }
      refine (h.callTimer t' id' ms he).rehand fun hh => ?_
      cases hh
      exact absurd (hz ▸ (h.keys _ he).1) (Nat.lt_irrefl 0)

/-- After `CancelTimer(t)` no timer has the key `t`. -/
theorem Filed.not_armed (h : Filed tidy owner hand s fs) (t : Nat) (a : Alarm) :
    (t, a) ∉ (if t ≠ 0 then s.cancelTimer t else s).timers := by
  intro hmem
  split at hmem
  · simp [State.cancelTimer] at hmem
  · next hzero =>
      have hz : t = 0 := by simpa using hzero
      exact absurd (hz ▸ (h.keys _ hmem).1) (Nat.lt_irrefl 0)

/-! ## Frames -/

/-- Frames that open nothing come and go. -/
theorem Filed.reframe {fs' : List Frame} (h : Filed tidy owner hand s fs)
    (hsub : ∀ f ∈ fs', f.opens.isSome = true → f ∈ fs)
    (hsup : ∀ f ∈ fs, f.opens.isSome = true → f ∈ fs') : Filed tidy owner hand s fs' :=
  { h with
    opening := fun f hf sid op t ho => h.opening f (hsub f hf (by simp [ho])) sid op t ho
    callTimer := fun t id ms he => (h.callTimer t id ms he).imp .hand (fun _ hpc => hpc) hsup
      .call }

theorem Filed.pop {f : Frame} (h : Filed tidy owner hand s (f :: fs)) (hf : f.opens = none) :
    Filed tidy owner hand s fs := by
  refine h.reframe (fun g hg _ => List.mem_cons_of_mem _ hg) fun g hg ho => ?_
  rcases List.mem_cons.mp hg with rfl | hg
  · simp [hf] at ho
  · exact hg

theorem Filed.push {f : Frame} (h : Filed tidy owner hand s fs) (hf : f.opens = none) :
    Filed tidy owner hand s (f :: fs) := by
  refine h.reframe (fun g hg ho => ?_) fun g hg _ => List.mem_cons_of_mem _ hg
  rcases List.mem_cons.mp hg with rfl | hg
  · simp [hf] at ho
  · exact hg

/-! ## Entries -/

/-- `stream_by_sid` leads to the stream itself. -/
theorem Filed.route_eq {id i : Nat} {st : Stream} (h : Filed tidy owner hand s fs)
    (hst : s.streams id = some st) (hi : s.streamBySid st.sid = some i) : i = id := by
  obtain ⟨st', hst', hsid, -⟩ := h.route st.sid i hi
  have howner := (h.stream i st' hst').owner
  rw [hsid, (h.stream id st hst).owner] at howner
  exact (Op.stream.inj howner).symm

/-- `by_stream` leads to the call itself. -/
theorem Filed.byStream_eq {id i : Nat} {call : Call} (h : Filed tidy owner hand s fs)
    (hcall : s.calls id = some call) (hi : s.byStream call.sid = some i) : i = id := by
  obtain ⟨call', hcall', hsid⟩ := h.byStream call.sid i hi
  have howner := (h.call i call' hcall').owner
  rw [hsid, (h.call id call hcall).owner] at howner
  exact (Op.call.inj howner).symm

/-- The HTTP/2 stream of a stream is not that of a call. -/
theorem Filed.noCall {sid id : Nat} {st : Stream} (h : Filed tidy owner hand s fs)
    (hst : s.streams id = some st) (hsid : st.sid = sid) : s.byStream sid = none := by
  by_contra hsome
  obtain ⟨id', hby⟩ := Option.ne_none_iff_exists'.mp hsome
  obtain ⟨call, hcall, hcallSid⟩ := h.byStream sid id' hby
  have hcallOwner := (h.call id' call hcall).owner
  rw [hcallSid, ← hsid, (h.stream id st hst).owner] at hcallOwner
  cases hcallOwner

theorem Filed.setStream {id : Nat} {st st' : Stream} (h : Filed tidy owner hand s fs)
    (hst : s.streams id = some st) (hsid : st'.sid = st.sid)
    (hkey : KeyOf s.nextTimer s.timers (.stream id) st'.timeoutTimer)
    (htimer : st'.completed = false → st'.timeoutTimer = st.timeoutTimer)
    (hback : st.completed = true → st'.completed = true)
    (hend : st.completed = false → st'.completed = true → s.streamBySid st.sid = none ∧
      (∀ ms, (st.timeoutTimer, .stream id ms) ∉ s.timers) ∧
        (tidy → (s.senders st.sid).closed = false)) :
    Filed tidy owner hand (s.setStream id st') fs := by
  have hold := h.stream id st hst
  refine { h with stream := ?_, route := ?_, streamTimer := ?_, leftOpen := ?_ }
  · intro id' st₁ hst₁
    rcases update_eq_some hst₁ with ⟨rfl, rfl⟩ | ⟨-, hst₁⟩
    · exact ⟨by rw [hsid]; exact hold.owner, by rw [hsid]; exact hold.pos,
        by rw [hsid]; exact hold.known, hkey⟩
    · exact h.stream id' st₁ hst₁
  · intro sid id' hroute
    obtain ⟨st₁, hst₁, rfl, hlive⟩ := h.route sid id' hroute
    by_cases heq : id' = id
    · subst heq
      rw [hst] at hst₁
      cases hst₁
      refine ⟨st', Function.update_self .., hsid, ?_⟩
      by_contra hc
      have hnone := (hend hlive (by simpa using hc)).1
      exact absurd (hroute.symm.trans hnone) (by simp)
    · exact ⟨st₁, (Function.update_of_ne heq ..).trans hst₁, rfl, hlive⟩
  · intro ht t id' ms he
    obtain ⟨st₁, hst₁, rfl, hlive⟩ := h.streamTimer ht t id' ms he
    by_cases heq : id' = id
    · subst heq
      rw [hst] at hst₁
      cases hst₁
      have hc : st'.completed = false := by
        by_contra hc
        exact (hend hlive (by simpa using hc)).2.1 ms he
      exact ⟨st', Function.update_self .., htimer hc, hc⟩
    · exact ⟨st₁, (Function.update_of_ne heq ..).trans hst₁, rfl, hlive⟩
  · intro ht id' st₁ hst₁ hc
    rcases update_eq_some hst₁ with ⟨rfl, rfl⟩ | ⟨-, hst₁⟩
    · rw [hsid]
      cases hbefore : st.completed with
      | true => exact h.leftOpen ht id' st hst hbefore
      | false => exact (hend hbefore hc).2.2 ht
    · exact h.leftOpen ht id' st₁ hst₁ hc

/-- An entry of `streams` changes, but for its HTTP/2 stream, its timer and its end. -/
theorem Filed.touchStream {id : Nat} {st st' : Stream} (h : Filed tidy owner hand s fs)
    (hst : s.streams id = some st) (hsid : st'.sid = st.sid)
    (htimer : st'.timeoutTimer = st.timeoutTimer) (hc : st'.completed = st.completed) :
    Filed tidy owner hand (s.setStream id st') fs := by
  refine h.setStream hst hsid (htimer ▸ (h.stream id st hst).key) (fun _ => htimer) hc.trans ?_
  intro hlive hend
  rw [hc, hlive] at hend
  cases hend

/-- A sender changes, but is not closed. -/
theorem Filed.setSender (h : Filed tidy owner hand s fs) {sid : Nat} {h2 : Sender Closure}
    (hclosed : h2.closed = (s.senders sid).closed) :
    Filed tidy owner hand (s.setSender sid h2) fs := by
  refine { h with leftOpen := fun ht id st hst hc => ?_ }
  have hopen := h.leftOpen ht id st hst hc
  simp only [State.setSender, Function.update_apply]
  split
  · next heq =>
      rw [hclosed, ← heq]
      exact hopen
  · exact hopen

theorem Filed.eraseStreamBySid (h : Filed tidy owner hand s fs) (sid : Nat) :
    Filed tidy owner hand (s.eraseStreamBySid sid) fs :=
  { h with route := fun sid' id hroute => h.route sid' id (erase_eq_some hroute).2 }

theorem Filed.eraseByStream (h : Filed tidy owner hand s fs) (sid : Nat) :
    Filed tidy owner hand (s.eraseByStream sid) fs :=
  { h with byStream := fun sid' id hroute => h.byStream sid' id (erase_eq_some hroute).2 }

theorem Filed.resetStream (h : Filed tidy owner hand s fs) (sid : Nat) :
    Filed tidy owner hand (s.resetStream sid) fs :=
  h.setSender rfl

/-- `CompleteStream` leaves the entry in `streams`. -/
theorem Filed.completeStream {id : Nat} {st : Stream} (h : Filed tidy owner hand s fs)
    (hst : s.streams id = some st) (htidy : tidy → (s.senders st.sid).closed = false)
    (decoder : FrameDecoder) (status : Status) :
    Filed tidy owner hand (completeStream s id { st with decoder } status) fs := by
  have hsid : st.sid ≠ 0 := Nat.pos_iff_ne_zero.mp (h.stream id st hst).pos
  unfold Channel.completeStream
  dsimp only
  split
  · exact h
  · have hcancel := h.cancelSet st.timeoutTimer
    have hoff := fun ms => h.not_armed st.timeoutTimer (.stream id ms)
    generalize hs₁ : (if st.timeoutTimer ≠ 0 then s.cancelTimer st.timeoutTimer else s) = s₁
    rw [hs₁] at hcancel hoff
    obtain ⟨hstreams, hsenders⟩ : s₁.streams id = some st ∧ s₁.senders = s.senders := by
      rw [← hs₁]
      split <;> exact ⟨hst, rfl⟩
    have herase := hcancel.eraseStreamBySid st.sid
    have hset : Filed tidy owner hand ((s₁.eraseStreamBySid st.sid).setStream id { st with
        decoder, completed := true, timeoutTimer := 0, outQueue := [] }) fs :=
      herase.setStream hstreams rfl (.zero herase) (by simp) (fun _ => rfl) fun _ _ =>
        ⟨Function.update_self .., hoff, fun ht => hsenders ▸ htidy ht⟩
    exact { hset with }

theorem Filed.endStream {id : Nat} {st : Stream} (h : Filed tidy owner hand s fs)
    (hst : s.streams id = some st)
    (hoff : st.completed = false → ∀ ms, (st.timeoutTimer, .stream id ms) ∉ s.timers) :
    Filed tidy owner hand ((s.eraseStreamBySid st.sid).eraseStream id) fs := by
  refine { h with stream := ?_, route := ?_, streamTimer := ?_, leftOpen := ?_ }
  · exact fun id' st' hst' => h.stream id' st' (erase_eq_some hst').2
  · intro sid id' hroute
    obtain ⟨hne, hroute⟩ := erase_eq_some hroute
    obtain ⟨st', hst', rfl, hlive⟩ := h.route sid id' hroute
    have hid : id' ≠ id := by
      rintro rfl
      rw [hst] at hst'
      cases hst'
      exact hne rfl
    exact ⟨st', (Function.update_of_ne hid ..).trans hst', rfl, hlive⟩
  · intro ht t id' ms he
    obtain ⟨st', hst', rfl, hlive⟩ := h.streamTimer ht t id' ms he
    have hid : id' ≠ id := by
      rintro rfl
      rw [hst] at hst'
      cases hst'
      exact hoff hlive ms he
    exact ⟨st', (Function.update_of_ne hid ..).trans hst', rfl, hlive⟩
  · exact fun ht id' st' hst' => h.leftOpen ht id' st' (erase_eq_some hst').2

theorem Filed.setCall {id : Nat} {call call' : Call} (h : Filed tidy owner hand s fs)
    (hcall : s.calls id = some call) (hsid : call'.sid = call.sid)
    (htimer : call'.timeoutTimer = call.timeoutTimer)
    (hend : call.completed = false → call'.completed = true →
      ∀ ms, (call.timeoutTimer, .call id ms) ∉ s.timers) :
    Filed tidy owner hand (s.setCall id call') fs := by
  refine { h with call := ?_, byStream := ?_, callTimer := ?_ }
  · intro id' call₁ hcall₁
    rcases update_eq_some hcall₁ with ⟨rfl, rfl⟩ | ⟨-, hcall₁⟩
    · rw [hsid, htimer]
      exact h.call id' call hcall
    · exact h.call id' call₁ hcall₁
  · intro sid id' hby
    obtain ⟨call₁, hcall₁, rfl⟩ := h.byStream sid id' hby
    by_cases heq : id' = id
    · subst heq
      rw [hcall] at hcall₁
      cases hcall₁
      exact ⟨call', Function.update_self .., hsid⟩
    · exact ⟨call₁, (Function.update_of_ne heq ..).trans hcall₁, rfl⟩
  · intro t id' ms he
    refine (h.callTimer t id' ms he).imp .hand (fun _ hpc => hpc) (fun _ hf _ => hf) ?_
    intro call₁ hcall₁ ht hcomp
    by_cases heq : id' = id
    · subst heq
      rw [hcall] at hcall₁
      cases hcall₁
      refine .call call' (Function.update_self ..) (htimer.trans ht) ?_
      by_contra hdone
      exact hend hcomp (by simpa using hdone) ms (ht ▸ he)
    · exact .call call₁ ((Function.update_of_ne heq ..).trans hcall₁) ht hcomp

theorem Filed.endCall {id : Nat} {call : Call} (h : Filed tidy owner hand s fs)
    (hcall : s.calls id = some call)
    (hoff : call.completed = false → ∀ ms, (call.timeoutTimer, .call id ms) ∉ s.timers) :
    Filed tidy owner hand ((s.eraseByStream call.sid).eraseCall id) fs := by
  refine { h with call := ?_, byStream := ?_, callTimer := ?_ }
  · exact fun id' call' hcall' => h.call id' call' (erase_eq_some hcall').2
  · intro sid id' hby
    obtain ⟨hne, hby⟩ := erase_eq_some hby
    obtain ⟨call', hcall', rfl⟩ := h.byStream sid id' hby
    have hid : id' ≠ id := by
      rintro rfl
      rw [hcall] at hcall'
      cases hcall'
      exact hne rfl
    exact ⟨call', (Function.update_of_ne hid ..).trans hcall', rfl⟩
  · intro t id' ms he
    refine (h.callTimer t id' ms he).imp .hand (fun _ hpc => hpc) (fun _ hf _ => hf) ?_
    intro call' hcall' ht hcomp
    have hid : id' ≠ id := by
      rintro rfl
      rw [hcall] at hcall'
      cases hcall'
      exact hoff hcomp ms (ht ▸ he)
    exact .call call' ((Function.update_of_ne hid ..).trans hcall') ht hcomp

theorem Filed.complete {id : Nat} {call : Call} (h : Filed tidy owner hand s fs)
    (hcall : s.calls id = some call) (decoder : FrameDecoder) (status : Status) (payload : Bytes) :
    Filed tidy owner hand (complete s id { call with decoder } status payload) fs := by
  unfold Channel.complete
  dsimp only
  split
  · exact h
  · have hcancel := h.cancelSet call.timeoutTimer
    have hoff := fun ms => h.not_armed call.timeoutTimer (.call id ms)
    generalize hs₁ : (if call.timeoutTimer ≠ 0 then s.cancelTimer call.timeoutTimer else s) = s₁
    rw [hs₁] at hcancel hoff
    have hcalls : s₁.calls id = some call := by
      rw [← hs₁]
      split <;> exact hcall
    have hsid : call.sid ≠ 0 := Nat.pos_iff_ne_zero.mp (h.call id call hcall).pos
    rw [if_pos hsid]
    have hend := hcancel.endCall hcalls fun _ => hoff
    exact { hend with }

/-- A call that a function holds and that is not in the table. -/
theorem Filed.completeNew {id : Nat} {call : NewCall}
    (h : Filed tidy owner (some (id, call.timeoutTimer)) s fs) (hfree : s.calls id = none)
    (status : Status) : Filed tidy owner none (completeNew s id call status) fs := by
  unfold Channel.completeNew Channel.complete
  dsimp only
  rw [if_neg (by simp), if_neg (by simp)]
  have hdrop := h.dropHand
  generalize hs₁ : (if call.timeoutTimer ≠ 0 then s.cancelTimer call.timeoutTimer else s) = s₁
  rw [hs₁] at hdrop
  have hcalls : s₁.calls id = none := by
    rw [← hs₁]
    split <;> exact hfree
  have hsame : s₁.eraseCall id = s₁ := by
    rw [State.eraseCall, ← hcalls, Function.update_eq_self]
  rw [hsame]
  exact { hdrop with }

/-! ## Submission and registration -/

/-- The owners of the streams submitted so far stay. -/
def Extends (n : Nat) (owner owner' : Nat → Op) : Prop := ∀ sid < n, owner' sid = owner sid

theorem Owns.extend {owner' : Nat → Op} {n m : Nat} {ts : List (Nat × Alarm)} {op : Op}
    {sid t : Nat} (h : Owns owner n m ts op sid t) (he : Extends n owner owner') :
    Owns owner' n m ts op sid t :=
  ⟨(he sid h.known).trans h.owner, h.pos, h.known, h.key⟩

/-- A new stream of the session, which the frame `f` is about to register for `op`. -/
theorem Filed.submit {f : Frame} {op : Op} {t : Nat} (h : Filed tidy owner hand s fs)
    (hf : f.opens = some (s.nextSid, op, t)) (hkey : KeyOf s.nextTimer s.timers op t)
    (hhand : ∀ id t', hand = some (id, t') → op = .call id ∧ t = t') (h2 : Sender Closure) :
    ∃ owner', Extends s.nextSid owner owner' ∧ Filed tidy owner' none
      { s.setSender s.nextSid h2 with nextSid := s.nextSid + 2 } (f :: fs) := by
  have hext : Extends s.nextSid owner (Function.update owner s.nextSid op) :=
    fun sid hlt => Function.update_of_ne (Nat.ne_of_lt hlt) ..
  have hkeep : ∀ {op' : Op} {sid t' : Nat}, Owns owner s.nextSid s.nextTimer s.timers op' sid t' →
      Owns (Function.update owner s.nextSid op) (s.nextSid + 2) s.nextTimer s.timers op' sid t' :=
    fun ho => (ho.extend hext).mono (Nat.le_add_right _ 2) (Nat.le_refl _) fun _ he => .inl he
  refine ⟨_, hext, { h with
    sidPos := Nat.succ_pos _
    call := fun id call hc => hkeep (h.call id call hc)
    stream := fun id st hst => hkeep (h.stream id st hst)
    opening := ?_
    inHand := nofun
    callTimer := ?_
    leftOpen := ?_ }⟩
  · intro g hg sid op' t' ho
    rcases List.mem_cons.mp hg with rfl | hg
    · rw [hf] at ho
      cases ho
      exact ⟨Function.update_self .., h.sidPos, by
        show s.nextSid < s.nextSid + 2
        omega, hkey⟩
    · exact hkeep (h.opening g hg sid op' t' ho)
  · intro t' id ms he
    refine (h.callTimer t' id ms he).imp (fun hh => ?_) (fun _ hpc => hpc)
      (fun _ hg _ => List.mem_cons_of_mem _ hg) .call
    obtain ⟨rfl, rfl⟩ := hhand id t' hh
    exact .frame f s.nextSid List.mem_cons_self hf
  · intro ht id st hst hc
    have hne : st.sid ≠ s.nextSid := Nat.ne_of_lt (h.stream id st hst).known
    have hsame : Function.update s.senders s.nextSid h2 st.sid = s.senders st.sid :=
      Function.update_of_ne hne ..
    exact (congrArg Sender.closed hsame).trans (h.leftOpen ht id st hst hc)

theorem Filed.callNow {id : Nat} {call : NewCall} (path framed : Bytes)
    (h : Filed tidy owner (some (id, call.timeoutTimer)) s fs) (hfree : s.calls id = none) :
    ∃ owner', Extends s.nextSid owner owner' ∧ Filed tidy owner' none
      (callNow s id path framed call).1 ((callNow s id path framed call).2 ++ fs) := by
  unfold Channel.callNow State.submit
  split
  · exact ⟨owner, fun _ _ => rfl, h.completeNew hfree submitFailed⟩
  · next s' sid hsub =>
      split at hsub
      · cases hsub
      · cases hsub
        refine h.submit rfl (h.inHand _ _ rfl) (fun id' t' hh => ?_) _
        cases hh
        exact ⟨rfl, rfl⟩

theorem Filed.openStreamNow (h : Filed tidy owner none s fs) (ps : PendingStream) :
    ∃ owner', Extends s.nextSid owner owner' ∧ Filed tidy owner' none
      (openStreamNow s ps).1 ((openStreamNow s ps).2 ++ fs) := by
  unfold Channel.openStreamNow State.submit
  dsimp only
  split
  · exact ⟨owner, fun _ _ => rfl, { h with }⟩
  · next s' sid hsub =>
      split at hsub
      · cases hsub
      · cases hsub
        exact h.submit rfl (.zero h) nofun _

theorem Filed.callNowRest {sid id : Nat} {call : NewCall}
    (h : Filed tidy owner none s (.callNowRest sid id call :: fs)) (hfree : s.calls id = none) :
    Filed tidy owner none (callNowRest s sid id call) fs := by
  have hown := h.opening _ List.mem_cons_self sid (.call id) call.timeoutTimer rfl
  refine { h with call := ?_, opening := ?_, byStream := ?_, callTimer := ?_ }
  · intro id' call' hcall'
    rcases update_eq_some hcall' with ⟨rfl, rfl⟩ | ⟨-, hcall'⟩
    · exact hown
    · exact h.call id' call' hcall'
  · exact fun f hf => h.opening f (List.mem_cons_of_mem _ hf)
  · intro sid' id' hby
    rcases update_eq_some hby with ⟨rfl, rfl⟩ | ⟨-, hby⟩
    · exact ⟨_, Function.update_self .., rfl⟩
    · obtain ⟨call', hcall', rfl⟩ := h.byStream sid' id' hby
      have hid : id' ≠ id := by
        rintro rfl
        simp [hfree] at hcall'
      exact ⟨call', (Function.update_of_ne hid ..).trans hcall', rfl⟩
  · intro t id' ms he
    cases h.callTimer t id' ms he with
    | hand hh => exact .hand hh
    | pending pc hpc hid ht => exact .pending pc hpc hid ht
    | frame f sid' hf ho =>
        rcases List.mem_cons.mp hf with rfl | hf
        · cases ho
          exact .call _ (Function.update_self ..) rfl rfl
        · exact .frame f sid' hf ho
    | call call' hcall' ht hcomp =>
        have hid : id' ≠ id := by
          rintro rfl
          simp [hfree] at hcall'
        exact .call call' ((Function.update_of_ne hid ..).trans hcall') ht hcomp

/-! ## Streams -/

theorem Filed.pumpStream (h : Filed tidy owner hand s fs) (id : Nat) :
    Filed tidy owner hand (pumpStream s id) fs := by
  unfold Channel.pumpStream
  split
  · exact h
  · next st hst =>
      split
      · exact h
      · next out queue hq =>
          split
          · exact h
          · split
            · exact h
            · have hset : Filed tidy owner hand (s.setStream id { st with
                  outQueue := queue, outInflight := true
                  sendClosed := st.sendClosed || out.close }) fs := h.touchStream hst rfl rfl rfl
              exact hset.setSender (Sender.sendData_closed ..)

/-- `loop->Post`; the call of a task has no timer yet. -/
theorem Filed.post (h : Filed tidy owner hand s fs) {task : Task}
    (htask : ∀ id path framed ms call, task = .call id path framed ms call →
      call.timeoutTimer = 0) : Filed tidy owner hand (s.post task) fs := by
  refine { h with task := fun id path framed ms call hmem => ?_ }
  rcases List.mem_append.mp hmem with hold | hnew
  · exact h.task id path framed ms call hold
  · exact htask id path framed ms call (List.mem_singleton.mp hnew).symm

theorem Filed.onConsumed (h : Filed tidy owner hand s fs) (n : Closure) :
    Filed tidy owner hand (onConsumed s n) fs := by
  unfold Channel.onConsumed
  cases hst : s.streams n.id with
  | none => exact { h with }
  | some st =>
      have hset : Filed tidy owner hand (s.setStream n.id { st with outInflight := false }) fs :=
        h.touchStream hst rfl rfl rfl
      have hpost : Filed tidy owner hand (State.post _ (.pumpStream n.id)) fs := hset.post nofun
      exact { hpost with }

/-- A stream is registered, with a new timer or without one. -/
theorem Filed.register {sid m : Nat} {ts : List (Nat × Alarm)} {armed : List Alarm}
    {ps : PendingStream} {decoder : FrameDecoder} {st : Stream} (ms : Nat)
    (h : Filed tidy owner none s (.openStreamRest sid ps decoder :: fs))
    (hfree : s.streams ps.id = none) (hsid : st.sid = sid) (hc : st.completed = false)
    (hm : s.nextTimer ≤ m)
    (hts : ∀ e ∈ ts, e ∈ s.timers ∨
      e = (s.nextTimer, .stream ps.id ms) ∧ st.timeoutTimer = s.nextTimer ∧ s.nextTimer < m)
    (hkey : KeyOf m ts (.stream ps.id) st.timeoutTimer) :
    Filed tidy owner none { s with
      streamBySid := Function.update s.streamBySid sid (some ps.id)
      timers := ts, nextTimer := m, armed
      streams := Function.update s.streams ps.id (some st) } fs := by
  have hown := h.opening _ List.mem_cons_self sid (.stream ps.id) 0 rfl
  have hnew : ∀ e ∈ ts, e ∈ s.timers ∨ s.nextTimer ≤ e.1 := by
    intro e he
    rcases hts e he with hold | ⟨rfl, -⟩
    · exact .inl hold
    · exact .inr (Nat.le_refl _)
  have howns : ∀ {op : Op} {sid' t : Nat}, Owns owner s.nextSid s.nextTimer s.timers op sid' t →
      Owns owner s.nextSid m ts op sid' t := fun ho => ho.mono (Nat.le_refl _) hm hnew
  refine { h with
    timerPos := Nat.lt_of_lt_of_le h.timerPos hm
    keys := ?_
    call := fun id call hc => howns (h.call id call hc)
    stream := ?_
    opening := fun f hf sid' op t ho => howns (h.opening f (List.mem_cons_of_mem _ hf) sid' op t ho)
    route := ?_
    pending := fun pc hpc => (h.pending pc hpc).mono hm hnew
    inHand := nofun
    callTimer := ?_
    streamTimer := ?_
    leftOpen := ?_ }
  · intro e he
    rcases hts e he with hold | ⟨rfl, -, hlt⟩
    · exact ⟨(h.keys e hold).1, Nat.lt_of_lt_of_le (h.keys e hold).2 hm⟩
    · exact ⟨h.timerPos, hlt⟩
  · intro id st' hst'
    rcases update_eq_some hst' with ⟨rfl, rfl⟩ | ⟨-, hst'⟩
    · exact ⟨hsid ▸ hown.owner, hsid ▸ hown.pos, hsid ▸ hown.known, hkey⟩
    · exact howns (h.stream id st' hst')
  · intro sid' id hr
    rcases update_eq_some hr with ⟨rfl, rfl⟩ | ⟨-, hr⟩
    · exact ⟨st, Function.update_self .., hsid, hc⟩
    · obtain ⟨st', hst', rfl, hlive⟩ := h.route sid' id hr
      have hid : id ≠ ps.id := by
        rintro rfl
        simp [hfree] at hst'
      exact ⟨st', (Function.update_of_ne hid ..).trans hst', rfl, hlive⟩
  · intro t id ms' he
    rcases hts _ he with hold | ⟨heq, -⟩
    · cases h.callTimer t id ms' hold with
      | hand hh => cases hh
      | pending pc hpc hid ht => exact .pending pc hpc hid ht
      | frame f sid' hf ho =>
          rcases List.mem_cons.mp hf with rfl | hf
          · cases ho
          · exact .frame f sid' hf ho
      | call call hc ht hcomp => exact .call call hc ht hcomp
    · cases heq
  · intro ht t id ms' he
    rcases hts _ he with hold | ⟨heq, htimer, -⟩
    · obtain ⟨st', hst', htimer⟩ := h.streamTimer ht t id ms' hold
      have hid : id ≠ ps.id := by
        rintro rfl
        simp [hfree] at hst'
      exact ⟨st', (Function.update_of_ne hid ..).trans hst', htimer⟩
    · cases heq
      exact ⟨st, Function.update_self .., htimer, hc⟩
  · intro ht id st' hst' hend
    rcases update_eq_some hst' with ⟨rfl, rfl⟩ | ⟨-, hst'⟩
    · rw [hc] at hend
      cases hend
    · exact h.leftOpen ht id st' hst' hend

/-- `OpenStreamNow` after the flush. -/
theorem Filed.openStreamRest {sid : Nat} {ps : PendingStream} {decoder : FrameDecoder}
    (h : Filed tidy owner none s (.openStreamRest sid ps decoder :: fs))
    (hfree : s.streams ps.id = none) :
    Filed tidy owner none (openStreamRest s sid ps decoder) fs := by
  unfold Channel.openStreamRest
  dsimp only
  split
  · refine Filed.pumpStream ?_ ps.id
    refine h.register ps.timeoutMs hfree rfl rfl (Nat.le_succ _) (fun e he => ?_) ?_
    · rcases List.mem_append.mp he with hold | hnew
      · exact .inl hold
      · exact .inr ⟨List.mem_singleton.mp hnew, rfl, Nat.lt_succ_self _⟩
    · refine ⟨Nat.lt_succ_self _, fun a ha => ?_⟩
      rcases List.mem_append.mp ha with hold | hnew
      · exact absurd (h.keys _ hold).2 (Nat.lt_irrefl _)
      · cases List.mem_singleton.mp hnew
        rfl
  · refine Filed.pumpStream ?_ ps.id
    have hzero : KeyOf s.nextTimer s.timers (.stream ps.id) 0 := .zero h
    exact h.register 0 hfree rfl rfl (Nat.le_refl _) (fun e he => .inl he) hzero

/-- `CompleteStream` on an entry that is then erased. -/
theorem Filed.completeErase {id : Nat} {st : Stream} (h : Filed tidy owner hand s fs)
    (hst : s.streams id = some st) (hc : st.completed = false) (status : Status) :
    Filed tidy owner hand ((Channel.completeStream s id st status).eraseStream id) fs := by
  have hsid : st.sid ≠ 0 := Nat.pos_iff_ne_zero.mp (h.stream id st hst).pos
  have hcancel := h.cancelSet st.timeoutTimer
  have hoff := fun ms => h.not_armed st.timeoutTimer (.stream id ms)
  unfold Channel.completeStream
  rw [if_neg (by simp [hc])]
  dsimp only
  rw [if_pos hsid]
  generalize hs₁ : (if st.timeoutTimer ≠ 0 then s.cancelTimer st.timeoutTimer else s) = s₁
  rw [hs₁] at hcancel hoff
  have hstreams : s₁.streams id = some st := by
    rw [← hs₁]
    split <;> exact hst
  have hend := hcancel.endStream hstreams fun _ => hoff
  have htable : ∀ st', Function.update (Function.update s₁.streams id (some st')) id none =
      Function.update s₁.streams id none := fun st' => Function.update_idem _ _ _
  simp only [State.eraseStream, State.note, State.setStream, State.eraseStreamBySid, htable]
  exact { hend with }

theorem Filed.streamTimeoutRest (h : Filed tidy owner hand s fs) (hready : s.phase = .ready)
    (id : Nat) : Filed tidy owner hand (streamTimeoutRest s id) fs := by
  unfold Channel.streamTimeoutRest
  split
  · exact h
  · next st hst =>
      have hsid : st.sid ≠ 0 := Nat.pos_iff_ne_zero.mp (h.stream id st hst).pos
      have hroute : (decide (st.sid ≠ 0) && s.session) = true := by
        simp [hsid, h.linked hready]
      rw [if_pos hroute]
      by_cases hc : st.completed = true
      · have hskip : Channel.completeStream (s.eraseStreamBySid st.sid) id st deadlineExceeded =
            s.eraseStreamBySid st.sid := by
          rw [Channel.completeStream, if_pos hc]
        dsimp only
        rw [hskip]
        exact h.endStream hst fun hlive => absurd hc (by simp [hlive])
      · have herase := h.eraseStreamBySid st.sid
        exact herase.completeErase hst (by simpa using hc) _

/-- The timer of `OpenStreamNow`. -/
theorem Filed.streamTimeout (h : Filed tidy owner none s []) (t id : Nat)
    (hready : (s.streams id).isSome = true → s.phase = .ready) :
    Filed tidy owner none (streamTimeout (s.cancelTimer t) id).1
      (streamTimeout (s.cancelTimer t) id).2 := by
  have hoff : Filed tidy owner none (s.cancelTimer t) [] :=
    h.cancelTimer t (fun _ _ hh => hh) fun _ _ _ hh => hh
  unfold Channel.streamTimeout
  split
  · exact hoff
  · next st hst =>
      have hsome : (s.streams id).isSome = true := by
        have hst : s.streams id = some st := hst
        rw [hst]
        rfl
      split
      · exact hoff
      · have hmark : Filed tidy owner none
            ((s.cancelTimer t).setStream id { st with rstPending := true }) [] :=
          hoff.touchStream hst rfl rfl rfl
        dsimp only
        split
        · exact (hmark.resetStream st.sid).push rfl
        · exact hmark.streamTimeoutRest (hready hsome) id

theorem Filed.onStreamData (h : Filed tidy owner hand s fs) {id : Nat} {st : Stream} {chunk : Bytes}
    (hst : s.streams id = some st) (hopen : (s.senders st.sid).closed = false) :
    Filed tidy owner hand (onStreamData s id st chunk) fs := by
  unfold Channel.onStreamData
  split
  · exact h
  · dsimp only
    split
    · exact h.completeStream hst (fun _ => hopen) _ _
    · have hset : Filed tidy owner hand (s.setStream id { st with
          decoder := (takeMessages (st.decoder.consume chunk).2).2 }) fs :=
        h.touchStream hst rfl rfl rfl
      exact { hset with }

end Urpc.Channel
