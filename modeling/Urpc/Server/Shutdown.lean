/-
  The drain handshake.

  * `shutdown_completes`: `mu` is never locked twice, and once nothing waits any more a
    requested shutdown has drained; in the runs in which the task of `Shutdown` finds the
    server listening or a call in flight, and no stream closes while `FinishShutdown` holds
    `mu`. `shutdown_hangs` shows what happens otherwise: after a failed `Start` the task calls
    `finish` with `mu` locked; a cancel callback that ends its stream brings `OnConnIdle` to
    the lock that `FinishShutdown` holds.
  * `drained_truthful`: `drained` is set once, after the close callback of the listener, and
    nothing is accepted any more; in the runs in which the grace timer does not go off while
    that callback is awaited. `drained_early`: `FinishShutdown` takes a cleared `listening` for
    a closed listener.
-/
import Urpc.Server.Handshake

namespace Urpc.Server.Impl

variable {c d : Conf} {l : Label}

/-! ## Shutdown completes -/

/-- The task of `Shutdown` finds the server listening or a call in flight; no stream closes
    while `mu` is held. -/
def lockSafe (c : Conf) : Label → Prop
  | .event .shutdownTask =>
      c.st.listening = true ∨ c.st.conns.any (fun conn => !conn.calls.isEmpty) = true
  | .event (.streamClose ..) => c.st.locked = false
  | _ => True

instance (c : Conf) : (l : Label) → Decidable (lockSafe c l)
  | .resume => isTrue trivial
  | .event e => by
      cases e <;> unfold lockSafe <;> infer_instance

/-- No task, timer or close callback waits. -/
structure Quiescent (c : Conf) : Prop where
  frames : c.frames = []
  start : c.st.startPosted = false
  shutdown : c.st.shutdownPosted = false
  pumps : c.st.pumps = []
  grace : c.st.grace = false
  deadlines : c.st.deadlines = []
  listener : c.st.listener ≠ .closing

/-- A requested shutdown is not forgotten: something that waits will go on with it. -/
structure Pending (c : Conf) : Prop where
  running : c.st.stuck = false
  awaited : c.st.shutdownRequested = true →
    c.st.shutdownPosted = true ∨ c.st.grace = true ∨ c.st.listener = .closing ∨
      c.st.locked = true ∨ c.st.drained = true
  destroyed : c.st.alive = false →
    c.st.drained = true ∨ c.st.startDone = false ∧ c.st.startPosted = false
  finishing : c.st.locked = true → ∀ f ∈ c.frames, f.finishing = true

theorem pending_fresh : Pending fresh where
  running := rfl
  awaited := nofun
  destroyed := nofun
  finishing := nofun

/-- `OnConnIdle` on a stack that does not hold `mu`. -/
theorem pending_idle {s t : State} {fs : List Frame} (hlocked : s.locked = false)
    (hp : Pending ⟨s, fs⟩) (h : Idle s t) : Pending ⟨t, fs⟩ := by
  cases h with
  | relock h => simp [hlocked] at h
  | purge => exact { hp with }
  | last =>
      exact { hp with
        awaited := fun _ => .inr (.inr (.inl rfl)) }

theorem pending_pop {f : Frame} {fs : List Frame} (hp : Pending c) (hf : c.frames = f :: fs) :
    Pending ⟨c.st, fs⟩ :=
  { hp with finishing := fun h g hg => hp.finishing h g (hf ▸ List.mem_cons_of_mem _ hg) }

/-- A frame of `OnRead` or `OnStreamClose` is on top: `mu` is free. -/
theorem Pending.unlocked {f : Frame} {fs : List Frame} (hp : Pending c) (hf : c.frames = f :: fs)
    (hnot : f.finishing = false) : c.st.locked = false := by
  by_contra h
  have := hp.finishing (by simpa using h) f (by simp [hf])
  simp [hnot] at this

theorem pending_rule (hb : Base c) (hp : Pending c) (hok : lockSafe c l) (h : Rule c l d) :
    Pending d := by
  cases h with
  | hang hs => exact hp
  | onRead hs hf hidle => exact pending_idle (hp.unlocked hf rfl) (pending_pop hp hf) hidle
  | @onStreamClose id sid fs s hs hf hidle =>
      have hpop := pending_pop hp hf
      have herase : Pending ⟨eraseCall c.st id sid, fs⟩ := { hpop with }
      exact pending_idle (s := eraseCall c.st id sid) (hp.unlocked hf rfl) herase hidle
  | finishConn hs hf =>
      have hpop := pending_pop hp hf
      exact { hpop with }
  | finishSocket hs hf =>
      have hpop := pending_pop hp hf
      exact { hpop with }
  | finishClose hs hf hdrained hlisten =>
      exact { hp with
        awaited := fun _ => .inr (.inr (.inl rfl))
        finishing := (by simp) }
  | finishDrain hs hf hdrained hlisten =>
      exact { hp with
        awaited := fun _ => .inr (.inr (.inr (.inr rfl)))
        destroyed := fun _ => .inl rfl
        finishing := (by simp) }
  | start hs halive hdone =>
      exact { hp with destroyed := fun h => by simp [halive] at h }
  | shutdownAgain hs h => exact hp
  | shutdown hs halive hdone hreq => exact { hp with awaited := fun _ => .inl rfl }
  | destroy hs hf h => exact { hp with destroyed := fun _ => h, finishing := fun _ => (by simp) }
  | startTask hs hf hposted =>
      have hreq := (hb.unasked hposted).2
      refine { hp with
        awaited := fun h => by simp [startTask, hreq] at h
        destroyed := fun h => ?_
        finishing := fun _ => (by simp) }
      rcases hp.destroyed h with hd | ⟨-, hnot⟩
      · exact .inl hd
      · simp [hposted] at hnot
  | deadTask hs hf hposted halive =>
      have hdrained : c.st.drained = true := by
        rcases hp.destroyed halive with hd | ⟨hdone, -⟩
        · exact hd
        · simp [hb.startDone_of_requested (hb.asked (.inl hposted))] at hdone
      exact { hp with
        awaited := fun _ => .inr (.inr (.inr (.inr hdrained)))
        finishing := fun _ => (by simp) }
  | taskGrace hs hf hlocked hposted halive hbusy =>
      exact { hp with awaited := fun _ => .inr (.inl rfl), finishing := fun _ => (by simp) }
  | taskClose hs hf hlocked hposted halive hidle hlisten =>
      exact { hp with
        awaited := fun _ => .inr (.inr (.inl rfl))
        finishing := fun _ => (by simp) }
  | taskRelock hs hf hlocked hposted halive hidle hlisten =>
      exfalso
      rcases hok with h | h
      · simp [hlisten] at h
      · obtain ⟨conn, hconn, hcalls⟩ := List.any_eq_true.mp h
        exact List.filter_eq_nil_iff.mp hidle conn hconn hcalls
  | postPump hs hfind => exact { hp with }
  | pump hs hf hpumps => exact { hp with finishing := fun _ => (by simp) }
  | graceLate hs hf hgrace h =>
      refine { hp with awaited := fun hreq => ?_, finishing := fun _ => (by simp) }
      have hdrained : c.st.drained = true := by
        rcases h with hd | halive
        · exact hd
        · rcases hp.destroyed halive with hd | ⟨hdone, -⟩
          · exact hd
          · simp [hb.startDone_of_requested hreq] at hdone
      exact .inr (.inr (.inr (.inr hdrained)))
  | grace hs hf hlocked hgrace hdrained =>
      exact { hp with
        awaited := fun _ => .inr (.inr (.inr (.inl rfl)))
        finishing := fun _ _ => finishing_of_mem_finishFrames }
  | stopDeadline hs => exact { hp with }
  | deadline hs hf => exact { hp with finishing := fun _ => (by simp) }
  | closedLate hs hf hclosing hdrained =>
      exact { hp with
        awaited := fun _ => .inr (.inr (.inr (.inr hdrained)))
        finishing := fun _ => (by simp) }
  | closed hs hf hclosing hdrained =>
      exact { hp with
        awaited := fun _ => .inr (.inr (.inr (.inr rfl)))
        destroyed := fun _ => .inl rfl
        finishing := fun _ => (by simp) }
  | accept hs hf hserving => exact { hp with finishing := fun _ => (by simp) }
  | openStream hs hf hfind => exact { hp with finishing := fun _ => (by simp) }
  | dispatch hs hf hfind hcall => exact { hp with finishing := fun _ => (by simp) }
  | streamClose hs =>
      have hlocked : c.st.locked = false := hok
      exact { hp with finishing := fun h => by simp [hlocked] at h }
  | streamCloseUnknown hs hfind hnone hidle => exact pending_idle hok hp hidle
  | connLost hs hf hfind =>
      have hlocked := hb.unlocked hs hf
      exact { hp with finishing := fun h => by simp [markClosed, State.update, hlocked] at h }

/-- No function waits for a lock that its own thread holds, and when nothing is left to wait
    for, a requested shutdown is over. -/
theorem shutdown_completes (h : machine.Reach lockSafe fresh c) :
    c.st.stuck = false ∧ (c.st.shutdownRequested = true → Quiescent c → c.st.drained = true) := by
  have hp : Pending c := reach_inv pending_fresh (fun _ _ _ => pending_rule) h
  refine ⟨hp.running, fun hreq hq => ?_⟩
  have hlocked := (reach_base h).unlocked hp.running hq.frames
  rcases hp.awaited hreq with h | h | h | h | h
  · simp [hq.shutdown] at h
  · simp [hq.grace] at h
  · exact absurd h hq.listener
  · simp [hlocked] at h
  · exact h

/-- A server with one call in flight, asked to shut down; the grace timer is armed. -/
def draining : List Label :=
  [.event .start, .event (.startTask .listening), .event .accept,
    .event (.openStream 0 1 false), .event (.dispatch 0 1), .event .shutdown,
    .event .shutdownTask]

theorem shutdown_completes_forced :
    ∃ c, machine.Reach lockSafe fresh c ∧ c.st.shutdownRequested = true ∧ Quiescent c ∧
      c.st.drained = true := by
  obtain ⟨c, hc, hreq, hq⟩ : ∃ c, machine.run lockSafe fresh
      (draining ++ [.event .graceTimer, .resume, .resume, .resume, .event .listenerClosed]) = some c ∧
      c.st.shutdownRequested = true ∧ Quiescent c :=
    ⟨_, rfl, rfl, ⟨rfl, rfl, rfl, rfl, rfl, rfl, nofun⟩⟩
  have hr := Resume.System.reach_of_run _ _ _ hc
  exact ⟨c, hr, hreq, hq, (shutdown_completes hr).2 hreq hq⟩

/-- After a failed `Start`, the task of `Shutdown` locks `mu` twice. So does `FinishShutdown`
    when a cancel callback ends the stream of its call. Nothing drains after that. -/
theorem shutdown_hangs :
    (∃ c, machine.run (fun _ _ => True) fresh
      [.event .start, .event (.startTask .bindFailed), .event .shutdown, .event .shutdownTask] =
        some c ∧ c.st.stuck = true ∧ Quiescent c ∧ c.st.drained = false) ∧
    (∃ c, machine.run (fun _ _ => True) fresh
      (draining ++ [.event .graceTimer, .resume, .event (.streamClose 0 1), .resume]) = some c ∧
        c.st.stuck = true ∧ c.st.drained = false) :=
  ⟨⟨_, rfl, rfl, ⟨rfl, rfl, rfl, rfl, rfl, rfl, nofun⟩, rfl⟩, ⟨_, rfl, rfl, rfl⟩⟩

/-! ## Drained is truthful -/

/-- The grace timer does not go off while the listener's close callback is awaited. -/
def graceOrClose (c : Conf) : Label → Prop
  | .event .graceTimer => c.st.listener ≠ .closing
  | _ => True

instance (c : Conf) : (l : Label) → Decidable (graceOrClose c l)
  | .resume => isTrue trivial
  | .event e => by
      cases e <;> unfold graceOrClose <;> infer_instance

/-- `uv_close` was called on the listener. -/
def Listener.gone : Listener → Bool
  | .closing | .closed => true
  | .absent | .idle | .serving => false

structure Truthful (s : State) : Prop where
  closes : s.listenerCloses = if s.listener.gone then 1 else 0
  gone : s.listener.gone = true → s.shutdownRequested = true ∧ s.conns = []
  count : s.drains = if s.drained then 1 else 0
  drained : s.drained = true ↔ s.listener = .closed
  opened : s.conns ≠ [] ∨ s.grace = true → s.listener = .serving ∨ s.listener.gone = true
  grace : s.grace = true → s.shutdownRequested = true
  finishing : s.locked = true → s.stuck = false →
    s.listener = .serving ∧ s.shutdownRequested = true

theorem truthful_fresh : Truthful fresh.st where
  closes := rfl
  gone := nofun
  count := rfl
  drained := by decide
  opened := by decide
  grace := nofun
  finishing := nofun

variable {s : State}

/-- Connections may change and go, not come. -/
theorem Truthful.with_conns {conns : List Conn} (ht : Truthful s)
    (hsub : s.conns = [] → conns = []) : Truthful { s with conns } :=
  { ht with
    gone := fun h => ⟨(ht.gone h).1, hsub (ht.gone h).2⟩
    opened := fun h => ht.opened (h.imp_left fun hne hnil => hne (hsub hnil)) }

theorem Truthful.update (ht : Truthful s) (id : Nat) (f : Conn → Conn) : Truthful (s.update id f) :=
  ht.with_conns fun h => by simp [h]

/-- The listener is closed: no connection is left, and `drained` is still to come. -/
theorem Truthful.close (ht : Truthful s) (hserving : s.listener = .serving)
    (hreq : s.shutdownRequested = true) : Truthful { s with
      conns := []
      listening := false
      locked := false
      listener := .closing
      listenerCloses := s.listenerCloses + 1 } where
  closes := by simp [ht.closes, hserving, Listener.gone]
  gone _ := ⟨hreq, rfl⟩
  count := ht.count
  drained := by simp [ht.drained, hserving]
  opened _ := .inr rfl
  grace := ht.grace
  finishing := nofun

theorem truthful_idle {t : State} (hserving : s.listening = true → s.listener = .serving)
    (ht : Truthful s) (h : Idle s t) : Truthful t := by
  cases h with
  | relock hlocked => exact { ht with finishing := nofun }
  | purge hlocked hstay => exact ht.with_conns fun h => by simp [h]
  | last hlocked hreq hnil hdrained hlisten =>
      have hclose := ht.close (hserving hlisten) hreq
      exact { hclose with finishing := fun h => by simp [hlocked] at h }

theorem truthful_startTask {outcome : Outcome} (hb : Base c) (ht : Truthful c.st)
    (hposted : c.st.startPosted = true) : Truthful (startTask c.st outcome) := by
  obtain ⟨hdone, hreq⟩ := hb.unasked hposted
  have habsent := (hb.unstarted hdone).1
  have hnone : ¬(c.st.conns ≠ [] ∨ c.st.grace = true) := fun h => by
    simpa [habsent, Listener.gone] using ht.opened h
  have hstays : (startTask c.st outcome).listener.gone = false := by
    cases outcome <;> rfl
  have hopen : (startTask c.st outcome).listener ≠ .closed := by
    cases outcome <;> nofun
  have hnever : c.st.listenerCloses = 0 := by simp [ht.closes, habsent, Listener.gone]
  have hyet : c.st.drained ≠ true := by simp [ht.drained, habsent]
  exact { ht with
    closes := by rw [hstays]; exact hnever
    gone := fun h => by simp [hstays] at h
    drained := ⟨fun h => absurd h hyet, fun h => absurd h hopen⟩
    opened := fun h => absurd h hnone
    finishing := fun hlocked hs => by
      have := (ht.finishing hlocked hs).2
      simp [hreq] at this }

theorem truthful_rule (hb : Base c) (ht : Truthful c.st) (hok : graceOrClose c l)
    (h : Rule c l d) : Truthful d.st := by
  cases h with
  | hang hs => exact ht
  | onRead hs hf hidle => exact truthful_idle hb.serving.mp ht hidle
  | @onStreamClose id sid fs s hs hf hidle =>
      have hup := ht.update id fun conn => { conn with calls := conn.calls.filter fun c => c.sid ≠ sid }
      have herase : Truthful (eraseCall c.st id sid) := { hup with }
      exact truthful_idle (s := eraseCall c.st id sid) hb.serving.mp herase hidle
  | finishConn hs hf => exact ht.update _ _
  | @finishSocket id fs hs hf =>
      have hup := ht.update id fun conn => { conn with socket := false }
      exact { hup with }
  | finishClose hs hf hdrained hlisten =>
      exact ht.close (hb.serving.mp hlisten) (ht.finishing (hb.finishEnd_last hs hf).1 hs).2
  | finishDrain hs hf hdrained hlisten =>
      have hserving := (ht.finishing (hb.finishEnd_last hs hf).1 hs).1
      simp [hb.serving.mpr hserving] at hlisten
  | start hs halive hdone => exact { ht with }
  | shutdownAgain hs h => exact ht
  | shutdown hs halive hdone hreq =>
      exact { ht with
        gone := fun h => ⟨rfl, (ht.gone h).2⟩
        grace := fun _ => rfl
        finishing := fun h hs => ⟨(ht.finishing h hs).1, rfl⟩ }
  | destroy hs hf h => exact { ht with }
  | startTask hs hf hposted => exact truthful_startTask hb ht hposted
  | deadTask hs hf hposted halive => exact { ht with }
  | taskGrace hs hf hlocked hposted halive hbusy =>
      have hconns : c.st.conns ≠ [] := fun h => hbusy (by simp [h])
      have hidle : Truthful { c.st with conns := c.st.conns.filter fun conn => !conn.calls.isEmpty } :=
        ht.with_conns fun h => by simp [h]
      exact { hidle with
        opened := fun _ => ht.opened (.inl hconns)
        grace := fun _ => hb.asked (.inl hposted) }
  | taskClose hs hf hlocked hposted halive hidle hlisten =>
      have hclose := ht.close (hb.serving.mp hlisten) (hb.asked (.inl hposted))
      exact { hclose with
        gone := fun h => ⟨(hclose.gone h).1, hidle⟩
        opened := fun _ => .inr rfl }
  | taskRelock hs hf hlocked hposted halive hidle hlisten =>
      have hpurge : Truthful { c.st with conns := c.st.conns.filter fun conn => !conn.calls.isEmpty } :=
        ht.with_conns fun h => by simp [h]
      exact { hpurge with finishing := nofun }
  | postPump hs hfind => exact { ht with }
  | pump hs hf hpumps => exact { ht with }
  | graceLate hs hf hgrace h =>
      exact { ht with
        opened := fun h => ht.opened (h.imp_right nofun)
        grace := nofun }
  | grace hs hf hlocked hgrace hdrained =>
      have hserving : c.st.listener = .serving := by
        rcases ht.opened (.inr hgrace) with h | hgone
        · exact h
        · cases hl : c.st.listener with
          | serving => rfl
          | closing => exact absurd hl hok
          | closed => simp [ht.drained.mpr hl] at hdrained
          | absent => simp [hl, Listener.gone] at hgone
          | idle => simp [hl, Listener.gone] at hgone
      exact { ht with
        opened := fun h => ht.opened (h.imp_right nofun)
        grace := nofun
        finishing := fun _ _ => ⟨hserving, ht.grace hgrace⟩ }
  | stopDeadline hs => exact { ht with }
  | deadline hs hf => exact { ht with }
  | closedLate hs hf hclosing hdrained =>
      have := ht.drained.mp hdrained
      simp [hclosing] at this
  | closed hs hf hclosing hdrained =>
      have hgone : c.st.listener.gone = true := by rw [hclosing]; rfl
      exact { ht with
        closes := by simp [ht.closes, hclosing, Listener.gone]
        gone := fun _ => ht.gone hgone
        count := by simp [ht.count, hdrained]
        drained := by simp
        opened := fun _ => .inr rfl
        finishing := fun h => by simp [hb.unlocked hs hf] at h }
  | accept hs hf hserving =>
      exact { ht with
        gone := fun h => by simp [Impl.accept, hserving, Listener.gone] at h
        opened := fun _ => .inl hserving }
  | @openStream id sid deadline conn hs hf hfind =>
      have hup := ht.update id fun conn =>
        { conn with calls := conn.calls ++ [{ sid, late := c.st.swept }] }
      exact { hup with }
  | @dispatch id sid conn call hs hf hfind hcall =>
      have hup := ht.update id fun conn => { conn with
        calls := conn.calls.map fun c => if c.sid = call.sid then { c with dispatched := true } else c }
      exact { hup with }
  | streamClose hs => exact ht
  | streamCloseUnknown hs hfind hnone hidle => exact truthful_idle hb.serving.mp ht hidle
  | connLost hs hf hfind => exact ht.update _ _

theorem reach_truthful (h : machine.Reach graceOrClose fresh c) : Truthful c.st :=
  reach_inv (I := fun c => Truthful c.st) truthful_fresh (fun _ _ _ => truthful_rule) h

/-- What was drained stays drained, and its listener accepts nothing. -/
theorem drained_rule (h : Rule c l d) (hdrained : c.st.drained = true)
    (hlistener : c.st.listener ≠ .serving) :
    d.st.drained = true ∧ d.st.nextConn = c.st.nextConn := by
  have hidle : ∀ {s t : State}, Idle s t → t.drained = s.drained ∧ t.nextConn = s.nextConn := by
    intro s t h
    cases h <;> exact ⟨rfl, rfl⟩
  cases h with
  | onRead hs hf hi => exact ⟨(hidle hi).1.trans hdrained, (hidle hi).2⟩
  | onStreamClose hs hf hi => exact ⟨(hidle hi).1.trans hdrained, (hidle hi).2⟩
  | streamCloseUnknown hs hfind hnone hi => exact ⟨(hidle hi).1.trans hdrained, (hidle hi).2⟩
  | accept hs hf hserving => exact absurd hserving hlistener
  | finishDrain => exact ⟨rfl, rfl⟩
  | closed => exact ⟨rfl, rfl⟩
  | hang | finishConn | finishSocket | finishClose | start | shutdownAgain | shutdown | destroy
  | startTask | deadTask | taskGrace | taskClose | taskRelock | postPump | pump | graceLate | grace
  | stopDeadline | deadline | closedLate | openStream | dispatch | streamClose | connLost =>
      exact ⟨hdrained, rfl⟩

/-- `drained` is set at most once and the listener closed at most once. When `drained` is set,
    shutdown was requested and the listener's close callback has run; from then on (`d`) it
    stays set, there are no connections, and none is accepted. -/
theorem drained_truthful (h : machine.Reach graceOrClose fresh c)
    (h' : machine.Reach graceOrClose c d) :
    c.st.drains ≤ 1 ∧ c.st.listenerCloses ≤ 1 ∧
      (c.st.drained = true →
        (c.st.shutdownRequested = true ∧ c.st.listener = .closed ∧ c.st.listenerCloses = 1) ∧
        (d.st.drained = true ∧ d.st.conns = [] ∧ d.st.nextConn = c.st.nextConn)) := by
  have hc := reach_truthful h
  refine ⟨?_, ?_, fun hdrained => ?_⟩
  · rw [hc.count]
    split <;> omega
  · rw [hc.closes]
    split <;> omega
  · have hclosed := hc.drained.mp hdrained
    have hgone : c.st.listener.gone = true := by rw [hclosed]; rfl
    refine ⟨⟨(hc.gone hgone).1, hclosed, by simp [hc.closes, hgone]⟩, ?_⟩
    have hstay : machine.Reach graceOrClose fresh d ∧ d.st.drained = true ∧
        d.st.nextConn = c.st.nextConn := by
      refine h'.inv (I := fun e => machine.Reach graceOrClose fresh e ∧ e.st.drained = true ∧
        e.st.nextConn = c.st.nextConn) ⟨h, hdrained, rfl⟩ ?_
      intro e l e' ⟨hr, hd, hn⟩ hok hstep
      have hopen : e.st.listener ≠ .serving := by simp [(reach_truthful hr).drained.mp hd]
      obtain ⟨hd', hn'⟩ := drained_rule (rule_of_step (reach_base hr) hstep) hd hopen
      exact ⟨.tail hr hok hstep, hd', hn'.trans hn⟩
    obtain ⟨hr, hd, hn⟩ := hstay
    have ht := reach_truthful hr
    refine ⟨hd, (ht.gone ?_).2, hn⟩
    rw [ht.drained.mp hd]
    rfl

/-- The last connection is lost during the drain. -/
theorem drained_truthful_lost :
    ∃ c, machine.Reach graceOrClose fresh c ∧ c.st.drained = true ∧ c.st.listenerCloses = 1 ∧
      c.st.conns = [] := by
  obtain ⟨c, hc, hd⟩ : ∃ c, machine.run graceOrClose fresh
      (draining ++ [.event (.connLost 0), .resume, .event .listenerClosed]) = some c ∧
      c.st.drained = true := ⟨_, rfl, rfl⟩
  have hr := Resume.System.reach_of_run _ _ _ hc
  obtain ⟨-, -, himp⟩ := drained_truthful hr .refl
  obtain ⟨⟨-, -, hcloses⟩, -, hconns, -⟩ := himp hd
  exact ⟨c, hr, hd, hcloses, hconns⟩

/-- `OnConnIdle` has started to close the listener when the grace timer goes off: drained is
    set, and the close callback has not run. -/
theorem drained_early :
    ∃ c, machine.run (fun _ _ => True) fresh
      (draining ++ [.event (.connLost 0), .resume, .event .graceTimer, .resume]) = some c ∧
      c.st.drained = true ∧ c.st.listener = .closing :=
  ⟨_, rfl, rfl, rfl⟩

end Urpc.Server.Impl
