/-
  What a draining server takes on, and what it keeps.

  * `drain_admits_nothing`: after the task of `Shutdown`, no connection is added and no stream
    opened later is dispatched; in the runs in which that task finds no call in flight.
    `drain_admits_more`: neither the accept callback nor `OnHeadersComplete` looks at
    `shutdown_requested`, so while a call is in flight both still happen.
  * `drain_keeps_busy`: after that task every connection has a call; in the runs in which none
    is accepted any more and no stream closes as the last one of an open connection.
    `drain_keeps_idle`: `OnStreamClose` does not mark its connection closed, and `OnConnIdle`
    removes only closed ones, so the idle connection stays until the grace timer.
-/
import Urpc.Server.Shutdown

namespace Urpc.Server.Impl

variable {c d : Conf} {l : Label} {s : State}

/-! ## No new work -/

/-- The task of `Shutdown` finds no call in flight. -/
def idleDrain (c : Conf) : Label → Prop
  | .event .shutdownTask => ∀ conn ∈ c.st.conns, conn.calls = []
  | _ => True

instance (c : Conf) : (l : Label) → Decidable (idleDrain c l)
  | .event .shutdownTask => inferInstanceAs (Decidable (∀ conn ∈ c.st.conns, conn.calls = []))
  | .resume
  | .event .start | .event (.startTask _) | .event .shutdown | .event .graceTimer
  | .event .listenerClosed | .event .accept | .event (.openStream ..) | .event (.dispatch ..)
  | .event (.streamClose ..) | .event (.stopDeadline ..) | .event (.deadline ..)
  | .event (.postPump _) | .event .pump | .event (.connLost _) | .event .destroy => isTrue trivial

structure Refuses (s : State) : Prop where
  conns : s.lateConns = 0
  dispatches : s.lateDispatches = 0
  calls : ∀ conn ∈ s.conns, ∀ call ∈ conn.calls, call.late = false
  swept : s.swept = true → s.conns = [] ∧ s.listener ≠ .serving

theorem refuses_fresh : Refuses fresh.st where
  conns := rfl
  dispatches := rfl
  calls := nofun
  swept := nofun

/-- Connections may go, and their calls may change but not become late. -/
theorem Refuses.with_conns {conns : List Conn} (hr : Refuses s)
    (hsub : ∀ conn ∈ conns, ∃ conn' ∈ s.conns, ∀ call ∈ conn.calls, ∃ call' ∈ conn'.calls,
      call.late = call'.late) : Refuses { s with conns } where
  conns := hr.conns
  dispatches := hr.dispatches
  calls conn hconn call hcall := by
    obtain ⟨conn', hconn', hlate⟩ := hsub conn hconn
    obtain ⟨call', hcall', heq⟩ := hlate call hcall
    exact heq.trans (hr.calls conn' hconn' call' hcall')
  swept h := by
    refine ⟨List.eq_nil_iff_forall_not_mem.mpr fun conn hconn => ?_, (hr.swept h).2⟩
    obtain ⟨conn', hconn', -⟩ := hsub conn hconn
    simp [(hr.swept h).1] at hconn'

theorem Refuses.filter (hr : Refuses s) (p : Conn → Bool) :
    Refuses { s with conns := s.conns.filter p } :=
  hr.with_conns fun conn hconn =>
    ⟨conn, (List.mem_filter.mp hconn).1, fun call hcall => ⟨call, hcall, rfl⟩⟩

theorem Refuses.update {id : Nat} {f : Conn → Conn} (hr : Refuses s)
    (hf : ∀ conn, ∀ call ∈ (f conn).calls, ∃ call' ∈ conn.calls, call.late = call'.late) :
    Refuses (s.update id f) := by
  refine hr.with_conns fun conn hconn => ?_
  obtain ⟨conn', hconn', rfl⟩ := State.mem_update.mp hconn
  refine ⟨conn', hconn', ?_⟩
  split
  · exact hf conn'
  · exact fun call hcall => ⟨call, hcall, rfl⟩

theorem refuses_idle {t : State} (hr : Refuses s) (h : Idle s t) : Refuses t := by
  cases h with
  | relock hlocked => exact { hr with }
  | purge hlocked hstay => exact hr.filter _
  | last hlocked hreq hnil hdrained hlisten =>
      exact { hr with calls := nofun, swept := fun _ => ⟨rfl, nofun⟩ }

/-- While there is a connection, the task of `Shutdown` has not run. -/
theorem Refuses.not_swept {conn : Conn} (hr : Refuses s) (h : conn ∈ s.conns) :
    s.swept = false := by
  by_contra hswept
  simp [(hr.swept (by simpa using hswept)).1] at h

theorem refuses_openStream {id sid : Nat} {deadline : Bool} {conn : Conn} (hr : Refuses s)
    (hfind : s.find id = some conn) : Refuses (openStream s id sid deadline) where
  conns := hr.conns
  dispatches := hr.dispatches
  calls := by
    have hswept := hr.not_swept (State.mem_of_find hfind).1
    intro conn' hconn' call hcall
    obtain ⟨conn₀, hconn₀, rfl⟩ := State.mem_update.mp hconn'
    split at hcall
    · rcases List.mem_append.mp hcall with h | h
      · exact hr.calls conn₀ hconn₀ call h
      · rw [List.mem_singleton.mp h]
        exact hswept
    · exact hr.calls conn₀ hconn₀ call hcall
  swept h := by
    have hswept := hr.not_swept (State.mem_of_find hfind).1
    simp [openStream, State.update, hswept] at h

theorem refuses_dispatch {id : Nat} {conn : Conn} {call : Call} (hr : Refuses s)
    (hfind : s.find id = some conn) (hcall : call ∈ conn.calls) :
    Refuses (dispatch s id call) := by
  have hlate := hr.calls conn (State.mem_of_find hfind).1 call hcall
  have hup : Refuses (s.update id fun conn => { conn with calls := conn.calls.map fun c =>
      if c.sid = call.sid then { c with dispatched := true } else c }) := by
    refine hr.update fun conn call' hcall' => ?_
    obtain ⟨call₀, hcall₀, rfl⟩ := List.mem_map.mp hcall'
    refine ⟨call₀, hcall₀, ?_⟩
    split <;> rfl
  exact { hup with dispatches := by simp [dispatch, hlate, hr.dispatches] }

theorem refuses_rule (hb : Base c) (hr : Refuses c.st) (hok : idleDrain c l) (h : Rule c l d) :
    Refuses d.st := by
  cases h with
  | hang hs => exact hr
  | onRead hs hf hidle => exact refuses_idle hr hidle
  | @onStreamClose id sid fs s hs hf hidle =>
      have hup : Refuses (c.st.update id fun conn =>
          { conn with calls := conn.calls.filter fun c => c.sid ≠ sid }) :=
        hr.update fun conn call hcall => ⟨call, (List.mem_filter.mp hcall).1, rfl⟩
      have herase : Refuses (eraseCall c.st id sid) := { hup with }
      exact refuses_idle herase hidle
  | finishConn hs hf => exact hr.update fun conn call hcall => ⟨call, hcall, rfl⟩
  | @finishSocket id fs hs hf =>
      have hup : Refuses (c.st.update id fun conn => { conn with socket := false }) :=
        hr.update fun conn call hcall => ⟨call, hcall, rfl⟩
      exact { hup with }
  | finishClose hs hf hdrained hlisten =>
      exact { hr with calls := nofun, swept := fun _ => ⟨rfl, nofun⟩ }
  | finishDrain hs hf hdrained hlisten =>
      exact { hr with calls := nofun, swept := fun h => ⟨rfl, (hr.swept h).2⟩ }
  | start hs halive hdone => exact { hr with }
  | shutdownAgain hs h => exact hr
  | shutdown hs halive hdone hreq => exact { hr with }
  | destroy hs hf h => exact { hr with }
  | startTask hs hf hposted =>
      refine { hr with swept := fun h => ?_ }
      have := hb.asked (.inr h)
      simp [(hb.unasked hposted).2] at this
  | deadTask hs hf hposted halive => exact { hr with }
  | taskGrace hs hf hlocked hposted halive hbusy =>
      exact absurd (List.filter_eq_nil_iff.mpr fun conn hconn => by simp [hok conn hconn]) hbusy
  | taskClose hs hf hlocked hposted halive hidle hlisten =>
      have hfilter := hr.filter fun conn => !conn.calls.isEmpty
      exact { hfilter with swept := fun _ => ⟨hidle, nofun⟩ }
  | taskRelock hs hf hlocked hposted halive hidle hlisten =>
      have hfilter := hr.filter fun conn => !conn.calls.isEmpty
      have hclosed : c.st.listener ≠ .serving := fun h => by
        simp [hb.serving.mpr h] at hlisten
      exact { hfilter with swept := fun _ => ⟨hidle, hclosed⟩ }
  | postPump hs hfind => exact { hr with }
  | pump hs hf hpumps => exact { hr with }
  | graceLate hs hf hgrace h => exact { hr with }
  | grace hs hf hlocked hgrace hdrained => exact { hr with }
  | stopDeadline hs => exact { hr with }
  | deadline hs hf => exact { hr with }
  | closedLate hs hf hclosing hdrained =>
      exact { hr with swept := fun h => ⟨(hr.swept h).1, nofun⟩ }
  | closed hs hf hclosing hdrained =>
      exact { hr with swept := fun h => ⟨(hr.swept h).1, nofun⟩ }
  | accept hs hf hserving =>
      have hswept : c.st.swept = false := by
        by_contra h
        exact (hr.swept (by simpa using h)).2 hserving
      refine { hr with conns := ?_, calls := ?_, swept := fun h => ?_ }
      · simp [Impl.accept, hr.conns, hswept]
      · simpa [Impl.accept, or_imp, forall_and] using hr.calls
      · simp [Impl.accept, hswept] at h
  | openStream hs hf hfind => exact refuses_openStream hr hfind
  | dispatch hs hf hfind hcall => exact refuses_dispatch hr hfind hcall
  | streamClose hs => exact hr
  | streamCloseUnknown hs hfind hnone hidle => exact refuses_idle hr hidle
  | connLost hs hf hfind => exact hr.update fun conn call hcall => ⟨call, hcall, rfl⟩

theorem drain_admits_nothing (h : machine.Reach idleDrain fresh c) :
    c.st.lateConns = 0 ∧ c.st.lateDispatches = 0 := by
  have hr : Refuses c.st :=
    reach_inv (I := fun c => Refuses c.st) refuses_fresh (fun _ _ _ => refuses_rule) h
  exact ⟨hr.conns, hr.dispatches⟩

theorem drain_admits_nothing_idle :
    ∃ c, machine.Reach idleDrain fresh c ∧ c.st.swept = true ∧ c.st.lateConns = 0 ∧
      c.st.lateDispatches = 0 := by
  obtain ⟨c, hc, hswept⟩ : ∃ c, machine.run idleDrain fresh
      [.event .start, .event (.startTask .listening), .event .accept, .event (.openStream 0 1 false),
        .event (.dispatch 0 1), .event (.streamClose 0 1), .resume, .event .shutdown,
        .event .shutdownTask] = some c ∧ c.st.swept = true := ⟨_, rfl, rfl⟩
  have hr := Resume.System.reach_of_run _ _ _ hc
  exact ⟨c, hr, hswept, drain_admits_nothing hr⟩

/-- One call is in flight. The server accepts another connection, and dispatches a stream that
    its first connection opens after the task of `Shutdown`. -/
theorem drain_admits_more :
    ∃ c, machine.run (fun _ _ => True) fresh
      (draining ++ [.event .accept, .event (.openStream 0 3 false), .event (.dispatch 0 3)]) = some c ∧
      c.st.lateConns = 1 ∧ c.st.lateDispatches = 1 :=
  ⟨_, rfl, rfl, rfl⟩

/-! ## No idle connection -/

/-- After the task of `Shutdown` no connection is accepted, and a stream that closes leaves a
    call on its connection, unless that connection is lost and about to be removed. -/
def lastCallStays (c : Conf) : Label → Prop
  | .event .accept => c.st.swept = false
  | .resume =>
      match c.frames with
      | .onStreamCloseRest id sid :: _ =>
          c.st.swept = true → ∀ conn ∈ c.st.conns, conn.id = id →
            conn.closed = true ∧ c.st.locked = false ∨ ∃ call ∈ conn.calls, call.sid ≠ sid
      | _ => True
  | _ => True

instance (c : Conf) : (l : Label) → Decidable (lastCallStays c l)
  | .event .accept => inferInstanceAs (Decidable (c.st.swept = false))
  | .resume =>
      match c with
      | ⟨s, .onStreamCloseRest id sid :: _⟩ => inferInstanceAs (Decidable (s.swept = true →
          ∀ conn ∈ s.conns, conn.id = id →
            conn.closed = true ∧ s.locked = false ∨ ∃ call ∈ conn.calls, call.sid ≠ sid))
      | ⟨_, []⟩ | ⟨_, .onReadRest :: _⟩ | ⟨_, .finishConn _ :: _⟩ | ⟨_, .finishSocket _ :: _⟩
      | ⟨_, .finishEnd :: _⟩ => isTrue trivial
  | .event .start | .event (.startTask _) | .event .shutdown | .event .shutdownTask | .event .graceTimer
  | .event .listenerClosed | .event (.openStream ..) | .event (.dispatch ..)
  | .event (.streamClose ..) | .event (.stopDeadline ..) | .event (.deadline ..)
  | .event (.postPump _) | .event .pump | .event (.connLost _) | .event .destroy => isTrue trivial

def Busy (s : State) : Prop := s.swept = true → ∀ conn ∈ s.conns, conn.calls ≠ []

theorem Busy.filter (hb : Busy s) (p : Conn → Bool) : Busy { s with conns := s.conns.filter p } :=
  fun h conn hconn => hb h conn (List.mem_filter.mp hconn).1

theorem Busy.update {id : Nat} {f : Conn → Conn} (hb : Busy s)
    (hf : ∀ conn, conn.calls ≠ [] → (f conn).calls ≠ []) : Busy (s.update id f) := by
  intro h conn hconn
  obtain ⟨conn', hconn', rfl⟩ := State.mem_update.mp hconn
  have hcalls := hb h conn' hconn'
  split
  · exact hf conn' hcalls
  · exact hcalls

theorem busy_idle {t : State} (hb : Busy s) (h : Idle s t) : Busy t := by
  cases h with
  | relock hlocked => exact hb
  | purge hlocked hstay => exact hb.filter _
  | last hlocked hreq hnil hdrained hlisten => exact fun _ => nofun

/-- A connection that lost its last call is removed in the same step. -/
theorem busy_onStreamClose {id sid : Nat} {t : State} (hb : Busy s)
    (hok : s.swept = true → ∀ conn ∈ s.conns, conn.id = id →
      conn.closed = true ∧ s.locked = false ∨ ∃ call ∈ conn.calls, call.sid ≠ sid)
    (h : Idle (eraseCall s id sid) t) : Busy t := by
  have hcases : ∀ {swept : Bool} {conn : Conn}, swept = s.swept → swept = true →
      conn ∈ (eraseCall s id sid).conns →
      conn.calls ≠ [] ∨ conn.closed = true ∧ s.locked = false := by
    rintro swept conn rfl hswept hconn
    obtain ⟨conn', hconn', rfl⟩ := State.mem_update.mp hconn
    have hcalls := hb hswept conn' hconn'
    split
    · next hid =>
        rcases hok hswept conn' hconn' hid with h | ⟨call, hcall, hne⟩
        · exact .inr h
        · exact .inl (List.ne_nil_of_mem (List.mem_filter.mpr ⟨hcall, by simpa using hne⟩))
    · exact .inl hcalls
  cases h with
  | relock hlocked =>
      intro hswept conn hconn
      refine (hcases rfl hswept hconn).resolve_right fun h => ?_
      simp [eraseCall, State.update, h.2] at hlocked
  | purge hlocked hstay =>
      intro hswept conn hconn
      obtain ⟨hmem, hopen⟩ := List.mem_filter.mp hconn
      refine (hcases rfl hswept hmem).resolve_right fun h => ?_
      simp [h.1] at hopen
  | last hlocked hreq hnil hdrained hlisten => exact fun _ => (by simp)

theorem busy_rule (hb : Busy c.st) (hok : lastCallStays c l) (h : Rule c l d) : Busy d.st := by
  cases h with
  | onRead hs hf hidle => exact busy_idle hb hidle
  | onStreamClose hs hf hidle =>
      simp only [lastCallStays, hf] at hok
      exact busy_onStreamClose hb hok hidle
  | finishConn hs hf => exact hb.update fun conn h => h
  | finishSocket hs hf => exact hb.update fun conn h => h
  | finishClose hs hf hdrained hlisten => exact fun _ => nofun
  | finishDrain hs hf hdrained hlisten => exact fun _ => nofun
  | taskGrace hs hf hlocked hposted halive hbusy =>
      intro _ conn hconn
      simpa using (List.mem_filter.mp hconn).2
  | taskClose hs hf hlocked hposted halive hidle hlisten =>
      intro _ conn hconn
      simpa using (List.mem_filter.mp hconn).2
  | taskRelock hs hf hlocked hposted halive hidle hlisten =>
      intro _ conn hconn
      simpa using (List.mem_filter.mp hconn).2
  | accept hs hf hserving =>
      intro hswept
      have hnot : c.st.swept = false := hok
      simp [Impl.accept, hnot] at hswept
  | openStream hs hf hfind => exact hb.update fun conn h => by simp
  | dispatch hs hf hfind hcall => exact hb.update fun conn h => by simpa using h
  | streamCloseUnknown hs hfind hnone hidle => exact busy_idle hb hidle
  | connLost hs hf hfind => exact hb.update fun conn h => h
  | hang | start | shutdownAgain | shutdown | destroy | startTask | deadTask | postPump | pump
  | graceLate | grace | stopDeadline | deadline | closedLate | closed | streamClose => exact hb

theorem drain_keeps_busy (h : machine.Reach lastCallStays fresh c) (hswept : c.st.swept = true) :
    ∀ conn ∈ c.st.conns, conn.calls ≠ [] :=
  reach_inv (I := fun c => Busy c.st) nofun (fun _ _ _ _ => busy_rule) h hswept

theorem drain_keeps_busy_two :
    ∃ c conn, machine.Reach lastCallStays fresh c ∧ c.st.swept = true ∧ conn ∈ c.st.conns ∧
      conn.calls ≠ [] := by
  obtain ⟨c, hc, hswept, conn, hconn⟩ : ∃ c, machine.run lastCallStays fresh
      [.event .start, .event (.startTask .listening), .event .accept, .event (.openStream 0 1 false),
        .event (.openStream 0 3 false), .event .shutdown, .event .shutdownTask,
        .event (.streamClose 0 1), .resume] = some c ∧ c.st.swept = true ∧ ∃ conn, conn ∈ c.st.conns :=
    ⟨_, rfl, rfl, _, List.mem_cons_self⟩
  have hr := Resume.System.reach_of_run _ _ _ hc
  exact ⟨c, conn, hr, hswept, hconn, drain_keeps_busy hr hswept conn hconn⟩

/-- The only call of the only connection completes during the drain. The connection stays,
    open and without calls, and so does the listener. -/
theorem drain_keeps_idle :
    ∃ c, machine.run (fun _ _ => True) fresh
      (draining ++ [.event (.streamClose 0 1), .resume]) = some c ∧ c.st.swept = true ∧
      c.frames = [] ∧ c.st.conns = [{ id := 0 }] ∧ c.st.listener = .serving ∧
      c.st.grace = true :=
  ⟨_, rfl, rfl, rfl, rfl, rfl, rfl⟩

end Urpc.Server.Impl
