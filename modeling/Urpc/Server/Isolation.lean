/-
  Streams of one connection do not interfere.

  Take a schedule of a connection and leave out all turns of one stream. What is left is a schedule
  too, and every other stream goes through the same states: the relation `Without` is kept, step by
  step. The shared parts need an argument. An event of the loop finds the stack and the
  notifications empty, so it does without the other stream's as well; the first task or
  notification is still the first; and the timer that a stream cancels by its id is never that of
  another stream, for no id is given out twice (`Ticking`).

  Proved: `streams_do_not_interfere`.
-/
import Urpc.Server.Clock
import Urpc.Server.Conn
import Urpc.Server.Grammar

namespace Urpc.Server

open Cxx

namespace Conn

/-! ## Timers -/

/-- Timer ids are given out once, and a call keeps no other stream's. -/
structure Ticking (c : Conn) : Prop where
  once : (c.timers.map Prod.fst).Nodup
  known : ∀ e ∈ c.timers, 0 < e.1 ∧ e.1 < c.nextTimer
  pos : 0 < c.nextTimer
  own : ∀ sid k, (c.part sid).call = some k →
    k.deadlineTimer < c.nextTimer ∧ ∀ e ∈ c.timers, e.1 = k.deadlineTimer → e.2 = sid

/-- The same on the loop's own list. -/
def loopDoes (sid : Nat) (ts : List (Nat × Nat)) : TimerOp → List (Nat × Nat)
  | .keep => ts
  | .cancel t => ts.filter fun e => e.1 ≠ t
  | .arm t => ts ++ [(t, sid)]

/-- The stream may do this to the loop's timers when its turn comes at `clock`. -/
def Entitled (c : Conn) (sid clock : Nat) : TimerOp → Prop
  | .keep => True
  | .cancel t => ∀ e ∈ c.timers, e.1 = t → e.2 = sid
  | .arm t => t = clock

variable {c c' base base' d : Conn} {sid clock a b : Nat} {r : State × List Frame} {op : TimerOp}

theorem Ticking.fresh (h : Ticking c) (hclock : c.nextTimer ≤ clock) :
    clock ∉ c.timers.map Prod.fst := by
  intro hmem
  obtain ⟨e, he, rfl⟩ := List.mem_map.mp hmem
  have := (h.known e he).2
  omega

theorem put_timers (h : Ticking c) (hclock : c.nextTimer ≤ clock) (he : c.Entitled sid clock op)
    (hr : r.1.timers = op.apply (c.timers.map Prod.fst)) :
    (c.put sid r).timers = loopDoes sid c.timers op := by
  have hmem : ∀ e ∈ c.timers, e.1 ∈ c.timers.map Prod.fst := fun e he => List.mem_map_of_mem he
  -- no id of the old list is new
  have hnew : ∀ ts : List Nat, (∀ t ∈ ts, t ∈ c.timers.map Prod.fst) →
      ts.filter (fun t => !(c.timers.map Prod.fst).contains t) = [] := fun ts hts =>
    List.filter_eq_nil_iff.mpr fun t ht => by simpa using hts t ht
  simp only [put, hr]
  cases op with
  | keep =>
      have hold : c.timers.filter (fun e => (c.timers.map Prod.fst).contains e.1) = c.timers :=
        List.filter_eq_self.mpr fun e he => List.contains_iff_mem.mpr (hmem e he)
      simp only [TimerOp.apply, loopDoes, hold, hnew _ fun _ ht => ht, List.map_nil,
        List.append_nil]
  | cancel t =>
      have hold : c.timers.filter (fun e => ((c.timers.map Prod.fst).erase t).contains e.1) =
          c.timers.filter fun e => e.1 ≠ t := by
        refine List.filter_congr fun e he => ?_
        rw [Bool.eq_iff_iff, List.contains_iff_mem, h.once.mem_erase_iff, decide_eq_true_iff]
        exact and_iff_left (hmem e he)
      simp only [TimerOp.apply, loopDoes, hold, hnew _ fun _ ht => List.mem_of_mem_erase ht,
        List.map_nil, List.append_nil]
  | arm t =>
      obtain rfl : t = clock := he
      have hold : c.timers.filter (fun e => (t :: c.timers.map Prod.fst).contains e.1) =
          c.timers := List.filter_eq_self.mpr fun e he =>
        List.contains_iff_mem.mpr (List.mem_cons_of_mem _ (hmem e he))
      have hfirst : (t :: c.timers.map Prod.fst).filter
          (fun t => !(c.timers.map Prod.fst).contains t) = [t] := by
        rw [List.filter_cons_of_pos (by simpa using h.fresh hclock), hnew _ fun _ ht => ht]
      simp only [TimerOp.apply, loopDoes, hold, hfirst, List.map_cons, List.map_nil]

/-- **One turn of a stream**, as far as timers go. -/
theorem Ticking.put (h : Ticking c) (hclock : c.nextTimer ≤ clock)
    (he : c.Entitled sid clock op) (hr : r.1.timers = op.apply (c.timers.map Prod.fst))
    (hnext : r.1.nextTimer = op.next clock)
    (hkeeps : op.Keeps (c.part sid) r.1) : Ticking (c.put sid r) := by
  have htimers := put_timers h hclock he hr
  have hle : clock ≤ (c.put sid r).nextTimer := by
    show clock ≤ r.1.nextTimer
    rw [hnext]
    cases op <;> simp [TimerOp.next]
  -- the timers that were there, or a new one
  have hmem : ∀ e ∈ (c.put sid r).timers, e ∈ c.timers ∨ op = .arm clock ∧ e = (clock, sid) := by
    intro e hin
    rw [htimers] at hin
    cases op with
    | keep => exact .inl hin
    | cancel t => exact .inl (List.mem_filter.mp hin).1
    | arm t =>
        obtain rfl : t = clock := he
        exact (List.mem_append.mp hin).imp_right fun hnew => ⟨rfl, List.mem_singleton.mp hnew⟩
  have hpos := h.pos
  have hknown : ∀ e ∈ (c.put sid r).timers, 0 < e.1 ∧ e.1 < (c.put sid r).nextTimer := by
    intro e hin
    rcases hmem e hin with hold | ⟨rfl, rfl⟩
    · have := h.known e hold
      omega
    · refine ⟨by omega, ?_⟩
      show clock < r.1.nextTimer
      rw [hnext]
      exact Nat.lt_succ_self _
  refine ⟨?_, hknown, by omega, fun sid' k hk => ?_⟩
  · rw [htimers]
    cases op with
    | keep => exact h.once
    | cancel t => exact h.once.sublist (List.filter_sublist.map _)
    | arm t =>
        obtain rfl : t = clock := he
        have hfresh := h.fresh hclock
        rw [loopDoes, List.map_append, List.nodup_append]
        refine ⟨h.once, by simp, fun x hx y hy heq => ?_⟩
        obtain rfl : y = t := List.mem_singleton.mp hy
        exact hfresh (heq ▸ hx)
  · -- an id that was in use before the turn
    have hold : ∀ {t : Nat}, t < c.nextTimer → (∀ e ∈ c.timers, e.1 = t → e.2 = sid') →
        t < (c.put sid r).nextTimer ∧ ∀ e ∈ (c.put sid r).timers, e.1 = t → e.2 = sid' := by
      intro t hlt hown
      refine ⟨by omega, fun e hin heq => ?_⟩
      rcases hmem e hin with hin | ⟨-, rfl⟩
      · exact hown e hin heq
      · have heq : clock = t := heq
        omega
    by_cases hsid : sid' = sid
    · subst hsid
      have hk : r.1.call = some k := by
        rw [show (c.put sid' r).part sid' = r.1.alone from Function.update_self ..] at hk
        exact hk
      rcases hkeeps k hk with hz | harm | ⟨k₀, hk₀, heq⟩
      · rw [hz]
        refine ⟨by omega, fun e hin h0 => ?_⟩
        have := hknown e hin
        omega
      · subst harm
        have hclk : k.deadlineTimer = clock := he
        refine ⟨?_, fun e hin heq => ?_⟩
        · show k.deadlineTimer < r.1.nextTimer
          rw [hnext, hclk]
          exact Nat.lt_succ_self _
        · rcases hmem e hin with hin | ⟨-, rfl⟩
          · have := (h.known e hin).2
            omega
          · rfl
      · obtain ⟨hlt, hown⟩ := h.own sid' k₀ hk₀
        rw [← heq]
        exact hold hlt hown
    · rw [show (c.put sid r).part sid' = c.part sid' from Function.update_of_ne hsid ..] at hk
      obtain ⟨hlt, hown⟩ := h.own sid' k hk
      exact hold hlt hown

/-- What a turn does to the timers. -/
structure Ticks (c : Conn) (sid clock : Nat) (op : TimerOp) (r : State × List Frame) : Prop where
  entitled : c.Entitled sid clock op
  timers : r.1.timers = op.apply (c.timers.map Prod.fst)
  next : r.1.nextTimer = op.next clock
  keeps : op.Keeps (c.part sid) r.1

theorem Ticks.of_does {g : State → State × List Frame} (h : DoesTo op g (c.view sid clock))
    (hc : Ticking c) : Ticks c sid clock op (g (c.view sid clock)) := by
  refine ⟨?_, ?_, h.next, h.keeps⟩
  · cases op with
    | keep => trivial
    | cancel t =>
        obtain ⟨-, k, hk, rfl⟩ := h.fits
        exact (hc.own sid k hk).2
    | arm t => exact h.fits
  · exact congrArg (fun r => r.1.timers) (h.same (c.timers.map Prod.fst))

/-- Queues and stack do not matter to it. -/
theorem Ticks.queues (h : Ticks c sid clock op r) (notes : List (Nat × Option CbId))
    (posted : List Nat) (stack : List (Nat × Frame)) :
    Ticks { c with notes, posted, stack } sid clock op r :=
  { h with }

/-! ## Without one stream -/

/-- The connection `c'` is `c` without the stream `b`. -/
structure Without (b : Nat) (c c' : Conn) : Prop where
  part : ∀ a, a ≠ b → c'.part a = c.part a
  timers : c'.timers = c.timers.filter fun e => e.2 ≠ b
  clock : c'.nextTimer ≤ c.nextTimer
  posted : c'.posted = c.posted.filter (· ≠ b)
  notes : c'.notes = c.notes.filter fun n => n.1 ≠ b
  stack : c'.stack = c.stack.filter fun f => f.1 ≠ b

theorem filter_tagged {α : Type} (hab : a ≠ b) (l : List α) :
    (l.map (a, ·)).filter (fun x => x.1 ≠ b) = l.map (a, ·) :=
  List.filter_eq_self.mpr fun x hx => by
    obtain ⟨y, -, rfl⟩ := List.mem_map.mp hx
    simpa using hab

theorem filter_own {α : Type} (l : List α) : (l.map (b, ·)).filter (fun x => x.1 ≠ b) = [] :=
  List.filter_eq_nil_iff.mpr fun x hx => by
    obtain ⟨y, -, rfl⟩ := List.mem_map.mp hx
    simp

theorem Without.count (h : Without b c c') (hab : a ≠ b) : c'.posted.count a = c.posted.count a := by
  rw [h.posted, List.count_filter (by simpa using hab)]

theorem Without.notesOf (h : Without b c c') (hab : a ≠ b) : c'.notesOf a = c.notesOf a := by
  unfold Conn.notesOf
  rw [h.notes, List.filter_filter]
  congr 1
  refine List.filter_congr fun n _ => ?_
  by_cases hn : n.1 = a <;> simp [hn, hab]

/-- Another stream has the same view, but for the timers. -/
theorem Without.view (h : Without b c c') (hab : a ≠ b) (clock : Nat) :
    c'.view a clock = { c.view a clock with timers := c'.timers.map Prod.fst } := by
  simp only [Conn.view, h.part a hab, h.count hab, h.notesOf hab]

/-- A turn of another stream. -/
theorem Without.put (h : Without b c c') (hab : a ≠ b) (hc : Ticking c) (hc' : Ticking c')
    (hclock : c.nextTimer ≤ clock) (hr : Ticks c a clock op r) :
    Without b (c.put a r)
      (c'.put a ({ r.1 with timers := op.apply (c'.timers.map Prod.fst) }, r.2)) := by
  have hentitled : c'.Entitled a clock op := by
    cases op with
    | keep => trivial
    | cancel t =>
        intro e he
        rw [h.timers] at he
        exact hr.entitled e (List.mem_filter.mp he).1
    | arm t => exact hr.entitled
  refine ⟨fun a' ha' => ?_, ?_, Nat.le_refl _, ?_, ?_, ?_⟩
  · simp only [Conn.put, Function.update_apply]
    split
    · rfl
    · exact h.part a' ha'
  · rw [put_timers hc' (Nat.le_trans h.clock hclock) hentitled rfl,
      put_timers hc hclock hr.entitled hr.timers, h.timers]
    cases op with
    | keep => rfl
    | cancel t => simp only [loopDoes, List.filter_filter, Bool.and_comm]
    | arm t => simp [loopDoes, List.filter_append, hab]
  · have hcount := h.count hab
    have hnew : ∀ n, (List.replicate n a).filter (· ≠ b) = List.replicate n a :=
      fun n => List.filter_replicate_of_pos (by simpa using hab)
    simp only [Conn.put, hcount, List.filter_append, hnew]
    rw [h.posted]
  · have hnotes := h.notesOf hab
    simp only [Conn.put, hnotes, List.filter_append, filter_tagged hab]
    rw [h.notes]
  · simp only [Conn.put, List.filter_append, filter_tagged hab]
    rw [h.stack]

/-- A turn of the stream itself. -/
theorem Without.put_self (h : Without b c c') (hc : Ticking c) (hclock : c.nextTimer ≤ clock)
    (hr : Ticks c b clock op r) : Without b (c.put b r) c' := by
  have hle : c.nextTimer ≤ r.1.nextTimer := by
    rw [hr.next]
    cases op <;> simp only [TimerOp.next] <;> omega
  refine ⟨fun a ha => ?_, ?_, Nat.le_trans h.clock hle, ?_, ?_, ?_⟩
  · rw [h.part a ha]
    exact (Function.update_of_ne ha ..).symm
  · rw [put_timers hc hclock hr.entitled hr.timers, h.timers]
    cases op with
    | keep => rfl
    | cancel t =>
        rw [loopDoes, List.filter_filter]
        refine List.filter_congr fun e he => ?_
        have hown := hr.entitled e he
        by_cases ht : e.1 = t <;> simp [ht, hown]
    | arm t => simp [loopDoes, List.filter_append]
  · have hnew : ∀ n, (List.replicate n b).filter (· ≠ b) = [] :=
      fun n => List.filter_replicate_of_neg (by simp)
    simp only [Conn.put, List.filter_append, hnew, List.append_nil]
    exact h.posted
  · simp only [Conn.put, List.filter_append, filter_own, List.append_nil]
    exact h.notes
  · simp only [Conn.put, List.filter_append, filter_own, List.nil_append]
    exact h.stack

/-! ## Turns -/

/-- What an event does, whatever timers others have. -/
theorem fire_ticks {cfg : Config} {e : Event} (hc : Ticking c) (htake : c.take sid e = some base)
    (hfire : fire cfg e (c.view sid clock) = some r) :
    ∃ op, Ticks c sid clock op r ∧ ∀ ts, (∀ t, e = .deadline t → t ∈ ts) →
      fire cfg e { c.view sid clock with timers := ts } =
        some ({ r.1 with timers := op.apply ts }, r.2) := by
  by_cases hdead : ∃ t, e = .deadline t
  · obtain ⟨t, rfl⟩ := hdead
    have hmem : (t, sid) ∈ c.timers := by
      by_contra hno
      simp [take, hno] at htake
    have hview := fire_deadline cfg (c.view sid clock) (List.mem_map_of_mem (f := Prod.fst) hmem)
    obtain ⟨hnext, hkeeps⟩ := onDeadline_keeps (c.view sid clock)
    obtain rfl := Option.some.inj (hfire.symm.trans hview)
    refine ⟨.cancel t, ⟨fun e he heq => ?_, rfl, hnext, fun k' hk' => ?_⟩,
      fun ts hts => fire_deadline cfg _ (hts t rfl)⟩
    · have hsame : e = (t, sid) := List.inj_on_of_nodup_map hc.once he hmem heq
      rw [hsame]
    · exact (hkeeps k' hk').imp_right fun hor => .inr (hor.resolve_left nofun)
  · rcases fire_clocked cfg e (fun t ht => hdead ⟨t, ht⟩) (c.view sid clock) with
      hnone | ⟨g, ⟨op, hd⟩, hgo⟩
    · rw [show fire cfg e (c.view sid clock) = none from hnone _] at hfire
      cases hfire
    · have hself : fire cfg e (c.view sid clock) = some (g (c.view sid clock)) := hgo _
      obtain rfl := Option.some.inj (hfire.symm.trans hself)
      exact ⟨op, .of_does hd hc, fun ts _ => (hgo ts).trans (congrArg some (hd.same ts))⟩

/-- Taking a task or a notification changes nothing else. -/
theorem take_eq {e : Event} (h : c.take sid e = some base) :
    ∃ notes posted, base = { c with notes, posted } := by
  unfold take at h
  split at h
  · split at h
    · split at h
      · exact ⟨_, _, (Option.some.inj h).symm⟩
      · cases h
    · cases h
  · split at h
    · split at h
      · exact ⟨_, _, (Option.some.inj h).symm⟩
      · cases h
    · cases h
  · split at h
    · exact ⟨_, _, (Option.some.inj h).symm⟩
    · cases h
  · cases h
  · exact ⟨_, _, (Option.some.inj h).symm⟩

theorem Without.take {e : Event} (h : Without b c c') (hab : a ≠ b)
    (htake : c.take a e = some base) : ∃ base', c'.take a e = some base' ∧ Without b base base' := by
  cases e with
  | consumed =>
      cases hn : c.notes with
      | nil => simp [Conn.take, hn] at htake
      | cons n notes =>
          obtain ⟨sid, cb⟩ := n
          by_cases hsid : sid = a
          · subst hsid
            have hfirst : c'.notes = (sid, cb) :: notes.filter fun n => n.1 ≠ b := by
              rw [h.notes, hn, List.filter_cons_of_pos (by simpa using hab)]
            obtain rfl : { c with notes } = base := by simpa [Conn.take, hn] using htake
            refine ⟨{ c' with notes := notes.filter fun n => n.1 ≠ b }, ?_, { h with notes := rfl }⟩
            simp [Conn.take, hfirst]
          · simp [Conn.take, hn, hsid] at htake
  | pump =>
      cases hp : c.posted with
      | nil => simp [Conn.take, hp] at htake
      | cons sid posted =>
          by_cases hsid : sid = a
          · subst hsid
            have hfirst : c'.posted = sid :: posted.filter (· ≠ b) := by
              rw [h.posted, hp, List.filter_cons_of_pos (by simpa using hab)]
            obtain rfl : { c with posted } = base := by simpa [Conn.take, hp] using htake
            refine ⟨{ c' with posted := posted.filter (· ≠ b) }, ?_, { h with posted := rfl }⟩
            simp [Conn.take, hfirst]
          · simp [Conn.take, hp, hsid] at htake
  | deadline t =>
      by_cases hmem : (t, a) ∈ c.timers
      · obtain rfl : c = base := by simpa [Conn.take, hmem] using htake
        have hmem' : (t, a) ∈ c'.timers := by
          rw [h.timers]
          exact List.mem_filter.mpr ⟨hmem, by simpa using hab⟩
        exact ⟨c', by simp [Conn.take, hmem'], h⟩
      · simp [Conn.take, hmem] at htake
  | connectionLost => cases htake
  | headers | data | streamClose | credit | op =>
      cases htake
      exact ⟨c', rfl, h⟩

theorem Without.take_self {e : Event} (h : Without b c c') (htake : c.take b e = some base) :
    Without b base c' := by
  cases e with
  | consumed =>
      cases hn : c.notes with
      | nil => simp [Conn.take, hn] at htake
      | cons n notes =>
          obtain ⟨sid, cb⟩ := n
          by_cases hsid : sid = b
          · obtain rfl : { c with notes } = base := by simpa [Conn.take, hn, hsid] using htake
            refine { h with notes := ?_ }
            rw [h.notes, hn, List.filter_cons_of_neg (by simpa using hsid)]
          · simp [Conn.take, hn, hsid] at htake
  | pump =>
      cases hp : c.posted with
      | nil => simp [Conn.take, hp] at htake
      | cons sid posted =>
          by_cases hsid : sid = b
          · obtain rfl : { c with posted } = base := by simpa [Conn.take, hp, hsid] using htake
            refine { h with posted := ?_ }
            rw [h.posted, hp, List.filter_cons_of_neg (by simpa using hsid)]
          · simp [Conn.take, hp, hsid] at htake
  | deadline t =>
      by_cases hmem : (t, b) ∈ c.timers
      · obtain rfl : c = base := by simpa [Conn.take, hmem] using htake
        exact h
      · simp [Conn.take, hmem] at htake
  | connectionLost => cases htake
  | headers | data | streamClose | credit | op =>
      cases htake
      exact h

section Step

variable {cfg : Config} {t : Turn}

/-- A resume runs the first frame, which is the stream's. -/
theorem step_resume (h : c.step cfg t = some d) (hl : t.label = .resume) :
    c.nextTimer ≤ t.clock ∧ ∃ f rest, c.stack = (t.sid, f) :: rest ∧
      d = put { c with stack := rest } t.sid (exec f (c.view t.sid t.clock)) := by
  unfold step at h
  split at h
  · cases h
  · next hclock =>
      refine ⟨by omega, ?_⟩
      rw [hl] at h
      dsimp only at h
      split at h
      · next sid f rest hs =>
          split at h
          · next hsid =>
              subst hsid
              exact ⟨f, rest, hs, (Option.some.inj h).symm⟩
          · cases h
      · cases h

theorem step_event {e : Event} (h : c.step cfg t = some d) (hl : t.label = .event e) :
    c.nextTimer ≤ t.clock ∧ (anytime e || (c.stack.isEmpty && c.notes.isEmpty)) = true ∧
      ∃ base r, c.take t.sid e = some base ∧ fire cfg e (c.view t.sid t.clock) = some r ∧
        d = base.put t.sid r := by
  unfold step at h
  split at h
  · cases h
  · next hclock =>
      refine ⟨by omega, ?_⟩
      rw [hl] at h
      dsimp only at h
      split at h
      · next hen =>
          obtain ⟨base, htake, h⟩ := Option.bind_eq_some_iff.mp h
          obtain ⟨r, hfire, rfl⟩ := Option.map_eq_some_iff.mp h
          exact ⟨hen, base, r, htake, hfire, rfl⟩
      · cases h

theorem Ticking.step (hc : Ticking c) (h : c.step cfg t = some d) : Ticking d := by
  cases hl : t.label with
  | resume =>
      obtain ⟨hclock, f, rest, hs, rfl⟩ := step_resume h hl
      obtain ⟨op, hd⟩ := exec_clocked f (c.view t.sid t.clock)
      have hr := Ticks.of_does hd hc
      have hbase : Ticking { c with stack := rest } := { hc with }
      exact hbase.put hclock hr.entitled hr.timers hr.next hr.keeps
  | event e =>
      obtain ⟨hclock, -, base, r, htake, hfire, rfl⟩ := step_event h hl
      obtain ⟨op, hr, -⟩ := fire_ticks hc htake hfire
      obtain ⟨notes, posted, rfl⟩ := take_eq htake
      have hbase : Ticking { c with notes, posted } := { hc with }
      exact hbase.put hclock hr.entitled hr.timers hr.next hr.keeps

/-- **A turn of another stream is a turn without `b` as well.** -/
theorem Without.step (h : Without b c c') (hc : Ticking c) (hc' : Ticking c') (hsid : t.sid ≠ b)
    (hstep : c.step cfg t = some d) : ∃ d', c'.step cfg t = some d' ∧ Without b d d' := by
  have hview := h.view hsid t.clock
  cases hl : t.label with
  | resume =>
      obtain ⟨hclock, f, rest, hs, rfl⟩ := step_resume hstep hl
      obtain ⟨op, hd⟩ := exec_clocked f (c.view t.sid t.clock)
      have hrest : Without b { c with stack := rest }
          { c' with stack := rest.filter fun f => f.1 ≠ b } := { h with stack := rfl }
      have hput := hrest.put hsid { hc with } { hc' with } hclock
        ((Ticks.of_does hd hc).queues c.notes c.posted rest)
      refine ⟨_, ?_, hput⟩
      have hfirst : c'.stack = (t.sid, f) :: rest.filter fun f => f.1 ≠ b := by
        rw [h.stack, hs, List.filter_cons_of_pos (by simpa using hsid)]
      have hle := h.clock
      rw [Conn.step, if_neg (by omega), hl]
      simp only [hfirst, if_true]
      rw [hview, hd.same]
  | event e =>
      obtain ⟨hclock, hen, base, r, htake, hfire, rfl⟩ := step_event hstep hl
      obtain ⟨op, hr, hgo⟩ := fire_ticks hc htake hfire
      obtain ⟨base', htake', hbase⟩ := h.take hsid htake
      obtain ⟨notes, posted, rfl⟩ := take_eq htake
      obtain ⟨notes', posted', rfl⟩ := take_eq htake'
      have hput := hbase.put hsid { hc with } { hc' with } hclock (hr.queues notes posted c.stack)
      refine ⟨_, ?_, hput⟩
      have hen' : (anytime e || (c'.stack.isEmpty && c'.notes.isEmpty)) = true := by
        cases hany : anytime e with
        | true => rfl
        | false =>
            obtain ⟨hs, hn⟩ : c.stack = [] ∧ c.notes = [] := by simpa [hany] using hen
            rw [h.stack, h.notes, hs, hn]
            rfl
      have hle := h.clock
      rw [Conn.step, if_neg (by omega), hl]
      simp only [hen', if_true, htake', Option.bind_some]
      rw [hview, hgo _ fun t' ht' => ?_]
      · rfl
      · subst ht'
        have hmem : (t', t.sid) ∈ c'.timers := by
          by_contra hno
          simp [Conn.take, hno] at htake'
        exact List.mem_map_of_mem hmem

/-- **A turn of `b` is nothing without it.** -/
theorem Without.step_self (h : Without b c c') (hc : Ticking c) (hsid : t.sid = b)
    (hstep : c.step cfg t = some d) : Without b d c' := by
  subst hsid
  cases hl : t.label with
  | resume =>
      obtain ⟨hclock, f, rest, hs, rfl⟩ := step_resume hstep hl
      obtain ⟨op, hd⟩ := exec_clocked f (c.view t.sid t.clock)
      have hrest : Without t.sid { c with stack := rest } c' := by
        refine { h with stack := ?_ }
        rw [h.stack, hs, List.filter_cons_of_neg (by simp)]
      exact hrest.put_self { hc with } hclock
        ((Ticks.of_does hd hc).queues c.notes c.posted rest)
  | event e =>
      obtain ⟨hclock, -, base, r, htake, hfire, rfl⟩ := step_event hstep hl
      obtain ⟨op, hr, -⟩ := fire_ticks hc htake hfire
      have hbase := h.take_self htake
      obtain ⟨notes, posted, rfl⟩ := take_eq htake
      exact hbase.put_self { hc with } hclock (hr.queues notes posted c.stack)

end Step

/-! ## Runs -/

/-- What the stream `a` has submitted and what its handler has been told, after each of its turns. -/
def seen (cfg : Config) (a : Nat) (c : Conn) : List Turn → List (List Submission × List Obs)
  | [] => []
  | t :: ts =>
      match c.step cfg t with
      | none => []
      | some d =>
          if t.sid = a then ((d.part a).h2.subs, (d.part a).log) :: d.seen cfg a ts
          else d.seen cfg a ts

theorem Without.run {cfg : Config} {turns : List Turn} (h : Without b c c') (hc : Ticking c)
    (hc' : Ticking c') (hrun : c.run cfg turns = some d) :
    ∃ d', c'.run cfg (turns.filter fun t => t.sid ≠ b) = some d' ∧ Without b d d' ∧
      ∀ a, a ≠ b → c'.seen cfg a (turns.filter fun t => t.sid ≠ b) = c.seen cfg a turns := by
  induction turns generalizing c c' with
  | nil =>
      obtain rfl := Option.some.inj hrun
      exact ⟨c', rfl, h, fun _ _ => rfl⟩
  | cons t turns ih =>
      obtain ⟨e, hstep, hrun⟩ := Option.bind_eq_some_iff.mp hrun
      by_cases hsid : t.sid = b
      · obtain ⟨d', hrun', hd, hseen⟩ := ih (h.step_self hc hsid hstep) (hc.step hstep) hc' hrun
        rw [List.filter_cons_of_neg (by simpa using hsid)]
        refine ⟨d', hrun', hd, fun a hab => ?_⟩
        have hne : t.sid ≠ a := fun heq => hab (heq ▸ hsid)
        rw [hseen a hab, seen, hstep]
        simp only [hne, if_false]
      · obtain ⟨e', hstep', he⟩ := h.step hc hc' hsid hstep
        obtain ⟨d', hrun', hd, hseen⟩ := ih he (hc.step hstep) (hc'.step hstep') hrun
        rw [List.filter_cons_of_pos (by simpa using hsid)]
        refine ⟨d', ?_, hd, fun a hab => ?_⟩
        · rw [run, hstep']
          exact hrun'
        · rw [seen, hstep', seen, hstep]
          simp only [hseen a hab, he.part a hab]

end Conn

/-- A connection without streams. -/
theorem Conn.ticking_fresh : Ticking {} where
  once := List.nodup_nil
  known _ he := absurd he List.not_mem_nil
  pos := Nat.zero_lt_one
  own sid k hk := by
    have hnone : (({} : Conn).part sid).call = none := rfl
    rw [hnone] at hk
    cases hk

/-- **Streams of one connection do not interfere.** Leave all turns of the stream `b` out of a
    schedule of the connection. What is left is a schedule, and each other stream submits the same
    to the session and its handler is told the same, in the same order. -/
theorem streams_do_not_interfere (cfg : Config) (turns : List Turn) (c : Conn)
    (h : Conn.run cfg {} turns = some c) (a b : Nat) (hab : a ≠ b) :
    ∃ c', Conn.run cfg {} (turns.filter fun t => t.sid ≠ b) = some c' ∧ c'.part a = c.part a ∧
      Conn.seen cfg a {} (turns.filter fun t => t.sid ≠ b) = Conn.seen cfg a {} turns := by
  have hfresh : Conn.Without b {} {} := ⟨fun _ _ => rfl, rfl, Nat.le_refl _, rfl, rfl, rfl⟩
  obtain ⟨c', hrun, hc, hseen⟩ := hfresh.run Conn.ticking_fresh Conn.ticking_fresh h
  exact ⟨c', hrun, hc.part a hab, hseen a hab⟩

/-- A stream writes a message in the middle of the turns of another, whose deadline fires. -/
def twoStreams : List Turn :=
  [⟨1, 1, .event (.headers (demoHeaders "/t/B") false)⟩, ⟨1, 1, .resume⟩,
   ⟨3, 1, .event (.headers (demoHeaders "/t/B" ++ [("grpc-timeout", str "5m")]) false)⟩,
   ⟨3, 2, .resume⟩, ⟨1, 2, .event (.op (.writeMessage [7] (some 5)))⟩, ⟨1, 2, .resume⟩,
   ⟨3, 2, .event (.deadline 1)⟩, ⟨3, 2, .resume⟩, ⟨1, 2, .event (.credit 100)⟩,
   ⟨1, 2, .event .consumed⟩, ⟨1, 2, .resume⟩]

theorem streams_do_not_interfere_two :
    ∃ c c', Conn.run demo {} twoStreams = some c ∧ ((c.part 3).h2.subs.length, (c.part 1).log) =
        (1, [.stream none, .wrote 5 .okay]) ∧
      Conn.run demo {} (twoStreams.filter fun t => t.sid ≠ 3) = some c' ∧
      Conn.seen demo 1 {} (twoStreams.filter fun t => t.sid ≠ 3) =
        Conn.seen demo 1 {} twoStreams := by
  obtain ⟨c, hc, hdone⟩ : ∃ c, Conn.run demo {} twoStreams = some c ∧
      ((c.part 3).h2.subs.length, (c.part 1).log) = (1, [.stream none, .wrote 5 .okay]) :=
    ⟨_, rfl, rfl⟩
  obtain ⟨c', hc', -, hseen⟩ := streams_do_not_interfere demo twoStreams c hc 1 3 (by decide)
  exact ⟨c, c', hc, hdone, hc', hseen⟩

end Urpc.Server
