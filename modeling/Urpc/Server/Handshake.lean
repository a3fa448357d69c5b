/-
  What one step in the life of a server can do.

  `Idle s t`: what `OnConnIdle` makes of `s`. `Rule c l d`: one constructor for each branch of
  each event and frame, with the guards under which it is taken. `Base`: what holds in every
  state of every run and decides the branches that the flags alone do not: the listener serves
  exactly while `listening` is set, and `mu` is held exactly while `FinishShutdown` is on the
  stack.

  Proved: `rule_of_step` (every step is a rule), `base_rule` and `reach_base` (`Base` holds in
  every run).
-/
import Urpc.Server.Impl

namespace Urpc.Server.Impl

open Resume.System (step_event step_resume enabled_base)

/-! ## Connections -/

theorem State.mem_update {s : State} {id : Nat} {f : Conn → Conn} {conn : Conn} :
    conn ∈ (s.update id f).conns ↔
      ∃ conn' ∈ s.conns, conn = if conn'.id = id then f conn' else conn' := by
  simp [State.update, eq_comm]

theorem State.mem_of_find {s : State} {id : Nat} {conn : Conn} (h : s.find id = some conn) :
    conn ∈ s.conns ∧ conn.id = id :=
  ⟨List.mem_of_find?_eq_some h, by simpa using List.find?_some h⟩

/-! ## The rules -/

/-- `OnConnIdle`. -/
inductive Idle (s : State) : State → Prop where
  | relock (hlocked : s.locked = true) : Idle s { s with stuck := true }
  | purge (hlocked : s.locked = false)
      (hstay : s.shutdownRequested = true → s.drained = false → s.listening = true →
        s.conns.filter (fun conn => !conn.closed) ≠ []) :
      Idle s { s with conns := s.conns.filter fun conn => !conn.closed }
  | last (hlocked : s.locked = false) (hreq : s.shutdownRequested = true)
      (hnil : s.conns.filter (fun conn => !conn.closed) = []) (hdrained : s.drained = false)
      (hlisten : s.listening = true) :
      Idle s { s with
        conns := []
        listening := false
        listener := .closing
        listenerCloses := s.listenerCloses + 1 }

/-- The frames of `FinishShutdown`. -/
def Frame.finishing : Frame → Bool
  | .finishConn _ | .finishSocket _ | .finishEnd => true
  | .onReadRest | .onStreamCloseRest .. => false

inductive Rule (c : Conf) : Label → Conf → Prop where
  -- frames
  | hang (hs : c.st.stuck = true) : Rule c .resume c
  | onRead {fs : List Frame} {s : State} (hs : c.st.stuck = false)
      (hf : c.frames = .onReadRest :: fs) (hidle : Idle c.st s) : Rule c .resume ⟨s, fs⟩
  | onStreamClose {id sid : Nat} {fs : List Frame} {s : State} (hs : c.st.stuck = false)
      (hf : c.frames = .onStreamCloseRest id sid :: fs) (hidle : Idle (eraseCall c.st id sid) s) :
      Rule c .resume ⟨s, fs⟩
  | finishConn {id : Nat} {fs : List Frame} (hs : c.st.stuck = false)
      (hf : c.frames = .finishConn id :: fs) : Rule c .resume ⟨markClosed c.st id, fs⟩
  | finishSocket {id : Nat} {fs : List Frame} (hs : c.st.stuck = false)
      (hf : c.frames = .finishSocket id :: fs) : Rule c .resume ⟨finishSocket c.st id, fs⟩
  | finishClose (hs : c.st.stuck = false) (hf : c.frames = [.finishEnd])
      (hdrained : c.st.drained = false) (hlisten : c.st.listening = true) :
      Rule c .resume ⟨{ c.st with
        conns := []
        listening := false
        locked := false
        listener := .closing
        listenerCloses := c.st.listenerCloses + 1 }, []⟩
  | finishDrain (hs : c.st.stuck = false) (hf : c.frames = [.finishEnd])
      (hdrained : c.st.drained = false) (hlisten : c.st.listening = false) :
      Rule c .resume ⟨{ c.st with
        conns := []
        drained := true
        drains := c.st.drains + 1
        locked := false }, []⟩
  -- the public functions, on any thread
  | start (hs : c.st.stuck = false) (halive : c.st.alive = true) (hdone : c.st.startDone = false) :
      Rule c (.event .start) ⟨{ c.st with startPosted := true }, c.frames⟩
  | shutdownAgain (hs : c.st.stuck = false)
      (h : c.st.startDone = true → c.st.shutdownRequested = true) : Rule c (.event .shutdown) c
  | shutdown (hs : c.st.stuck = false) (halive : c.st.alive = true) (hdone : c.st.startDone = true)
      (hreq : c.st.shutdownRequested = false) :
      Rule c (.event .shutdown)
        ⟨{ c.st with shutdownRequested := true, shutdownPosted := true }, c.frames⟩
  | destroy (hs : c.st.stuck = false) (hf : c.frames = [])
      (h : c.st.drained = true ∨ c.st.startDone = false ∧ c.st.startPosted = false) :
      Rule c (.event .destroy) ⟨{ c.st with alive := false }, []⟩
  -- posted tasks
  | startTask {outcome : Outcome} (hs : c.st.stuck = false) (hf : c.frames = [])
      (hposted : c.st.startPosted = true) :
      Rule c (.event (.startTask outcome)) ⟨startTask c.st outcome, []⟩
  | deadTask (hs : c.st.stuck = false) (hf : c.frames = []) (hposted : c.st.shutdownPosted = true)
      (halive : c.st.alive = false) :
      Rule c (.event .shutdownTask) ⟨{ c.st with shutdownPosted := false }, []⟩
  | taskGrace (hs : c.st.stuck = false) (hf : c.frames = []) (hlocked : c.st.locked = false)
      (hposted : c.st.shutdownPosted = true) (halive : c.st.alive = true)
      (hbusy : c.st.conns.filter (fun conn => !conn.calls.isEmpty) ≠ []) :
      Rule c (.event .shutdownTask)
        ⟨{ closeIdle { c.st with shutdownPosted := false } with grace := true }, []⟩
  | taskClose (hs : c.st.stuck = false) (hf : c.frames = []) (hlocked : c.st.locked = false)
      (hposted : c.st.shutdownPosted = true) (halive : c.st.alive = true)
      (hidle : c.st.conns.filter (fun conn => !conn.calls.isEmpty) = [])
      (hlisten : c.st.listening = true) :
      Rule c (.event .shutdownTask) ⟨{ closeIdle { c.st with shutdownPosted := false } with
        listening := false
        listener := .closing
        listenerCloses := c.st.listenerCloses + 1
        locked := false }, []⟩
  | taskRelock (hs : c.st.stuck = false) (hf : c.frames = []) (hlocked : c.st.locked = false)
      (hposted : c.st.shutdownPosted = true) (halive : c.st.alive = true)
      (hidle : c.st.conns.filter (fun conn => !conn.calls.isEmpty) = [])
      (hlisten : c.st.listening = false) :
      Rule c (.event .shutdownTask) ⟨{ closeIdle { c.st with shutdownPosted := false } with
        locked := true
        stuck := true }, []⟩
  | postPump {id : Nat} {conn : Conn} (hs : c.st.stuck = false) (hfind : c.st.find id = some conn) :
      Rule c (.event (.postPump id)) ⟨{ c.st with pumps := c.st.pumps ++ [id] }, c.frames⟩
  | pump {id : Nat} {pumps : List Nat} (hs : c.st.stuck = false) (hf : c.frames = [])
      (hpumps : c.st.pumps = id :: pumps) : Rule c (.event .pump) ⟨{ c.st with pumps }, []⟩
  -- timers and close callbacks
  | graceLate (hs : c.st.stuck = false) (hf : c.frames = []) (hgrace : c.st.grace = true)
      (h : c.st.drained = true ∨ c.st.alive = false) :
      Rule c (.event .graceTimer) ⟨{ c.st with grace := false }, []⟩
  | grace (hs : c.st.stuck = false) (hf : c.frames = []) (hlocked : c.st.locked = false)
      (hgrace : c.st.grace = true) (hdrained : c.st.drained = false) :
      Rule c (.event .graceTimer)
        ⟨{ c.st with grace := false, locked := true }, finishFrames c.st.conns⟩
  | stopDeadline {id sid : Nat} (hs : c.st.stuck = false) :
      Rule c (.event (.stopDeadline id sid))
        ⟨{ c.st with deadlines := c.st.deadlines.filter fun t => t ≠ (id, sid) }, c.frames⟩
  | deadline {id sid : Nat} (hs : c.st.stuck = false) (hf : c.frames = []) :
      Rule c (.event (.deadline id sid))
        ⟨{ c.st with deadlines := c.st.deadlines.filter fun t => t ≠ (id, sid) }, []⟩
  | closedLate (hs : c.st.stuck = false) (hf : c.frames = []) (hclosing : c.st.listener = .closing)
      (hdrained : c.st.drained = true) :
      Rule c (.event .listenerClosed) ⟨{ c.st with listener := .closed }, []⟩
  | closed (hs : c.st.stuck = false) (hf : c.frames = []) (hclosing : c.st.listener = .closing)
      (hdrained : c.st.drained = false) :
      Rule c (.event .listenerClosed)
        ⟨{ c.st with listener := .closed, drained := true, drains := c.st.drains + 1 }, []⟩
  -- connections and their streams
  | accept (hs : c.st.stuck = false) (hf : c.frames = []) (hserving : c.st.listener = .serving) :
      Rule c (.event .accept) ⟨accept c.st, []⟩
  | openStream {id sid : Nat} {deadline : Bool} {conn : Conn} (hs : c.st.stuck = false)
      (hf : c.frames = []) (hfind : c.st.find id = some conn) :
      Rule c (.event (.openStream id sid deadline)) ⟨openStream c.st id sid deadline, []⟩
  | dispatch {id sid : Nat} {conn : Conn} {call : Call} (hs : c.st.stuck = false)
      (hf : c.frames = []) (hfind : c.st.find id = some conn) (hcall : call ∈ conn.calls) :
      Rule c (.event (.dispatch id sid)) ⟨dispatch c.st id call, []⟩
  | streamClose {id sid : Nat} (hs : c.st.stuck = false) :
      Rule c (.event (.streamClose id sid)) ⟨c.st, .onStreamCloseRest id sid :: c.frames⟩
  | streamCloseUnknown {id sid : Nat} {conn : Conn} {s : State} (hs : c.st.stuck = false)
      (hfind : c.st.find id = some conn) (hnone : ∀ call ∈ conn.calls, call.sid ≠ sid)
      (hidle : Idle c.st s) : Rule c (.event (.streamClose id sid)) ⟨s, c.frames⟩
  | connLost {id : Nat} {conn : Conn} (hs : c.st.stuck = false) (hf : c.frames = [])
      (hfind : c.st.find id = some conn) :
      Rule c (.event (.connLost id)) ⟨markClosed c.st id, [.onReadRest]⟩

/-! ## What holds in every run -/

structure Base (c : Conf) : Prop where
  serving : c.st.listening = true ↔ c.st.listener = .serving
  started : c.st.startDone = true → c.st.startPosted = false
  unstarted : c.st.startDone = false → c.st.listener = .absent ∧ c.st.shutdownRequested = false
  asked : c.st.shutdownPosted = true ∨ c.st.swept = true → c.st.shutdownRequested = true
  free : c.st.locked = false → ∀ f ∈ c.frames, f.finishing = false
  held : c.st.locked = true → c.st.stuck = false →
    c.st.drained = false ∧ ∃ fs, c.frames = fs ++ [.finishEnd] ∧ .finishEnd ∉ fs

variable {c d : Conf} {l : Label} {s : State}

theorem Base.unlocked (hb : Base c) (hs : c.st.stuck = false) (hf : c.frames = []) :
    c.st.locked = false := by
  by_contra h
  obtain ⟨-, fs, hfs, -⟩ := hb.held (by simpa using h) hs
  simp [hf] at hfs

/-- Between two events of the loop. -/
theorem Base.at_rest (hb : Base c) (hf : c.frames = []) : Base ⟨c.st, []⟩ := by
  obtain ⟨st, frames⟩ := c
  cases hf
  exact hb

theorem Base.startDone_of_listener (hb : Base c) (h : c.st.listener ≠ .absent) :
    c.st.startDone = true := by
  by_contra hdone
  exact h (hb.unstarted (by simpa using hdone)).1

theorem Base.startDone_of_requested (hb : Base c) (h : c.st.shutdownRequested = true) :
    c.st.startDone = true := by
  by_contra hdone
  have := (hb.unstarted (by simpa using hdone)).2
  simp [h] at this

/-- While the task of `Start` waits, nobody has requested a shutdown. -/
theorem Base.unasked (hb : Base c) (h : c.st.startPosted = true) :
    c.st.startDone = false ∧ c.st.shutdownRequested = false := by
  have hdone : c.st.startDone = false := by
    by_contra hdone
    have := hb.started (by simpa using hdone)
    simp [h] at this
  exact ⟨hdone, (hb.unstarted hdone).2⟩

theorem finishing_of_mem_finishFrames {conns : List Conn} {f : Frame}
    (h : f ∈ finishFrames conns) : f.finishing = true := by
  simp only [finishFrames, List.mem_append, List.mem_flatMap, List.mem_cons, List.not_mem_nil,
    or_false] at h
  rcases h with ⟨conn, -, rfl | rfl⟩ | rfl <;> rfl

/-- When the last frame of `FinishShutdown` is on top, nothing is below it. -/
theorem Base.finishEnd_last {fs : List Frame} (hb : Base c) (hs : c.st.stuck = false)
    (hf : c.frames = .finishEnd :: fs) :
    c.st.locked = true ∧ c.st.drained = false ∧ fs = [] := by
  have hlocked : c.st.locked = true := by
    by_contra h
    have := hb.free (by simpa using h) .finishEnd (by simp [hf])
    cases this
  obtain ⟨hd, gs, hgs, hnot⟩ := hb.held hlocked hs
  rw [hf] at hgs
  cases gs with
  | nil => exact ⟨hlocked, hd, (List.cons.inj hgs).2⟩
  | cons g gs =>
      have hg : Frame.finishEnd = g := (List.cons.inj hgs).1
      exact absurd (hg ▸ List.mem_cons_self) hnot

theorem idle_onConnIdle (hserving : s.listening = true ↔ s.listener = .serving) :
    Idle s (onConnIdle s) := by
  unfold onConnIdle
  split
  · next h => exact .relock h
  · next h =>
      have hlocked : s.locked = false := by simpa using h
      dsimp only
      split
      · next hall =>
          simp only [Bool.and_eq_true, List.isEmpty_iff, Bool.not_eq_true'] at hall
          obtain ⟨⟨⟨hreq, hnil⟩, hdrained⟩, hlisten⟩ := hall
          have := Idle.last hlocked hreq hnil hdrained hlisten
          simpa [closeListener, hserving.mp hlisten, hnil] using this
      · next hany =>
          refine .purge hlocked fun hreq hdrained hlisten hnil => hany ?_
          simp [hreq, hdrained, hlisten, hnil]

/-! ## Every step is a rule -/

theorem rule_of_resume (hb : Base c) (h : machine.step c .resume = some d) :
    Rule c .resume d := by
  obtain ⟨f, fs, hf, rfl⟩ := step_resume h
  by_cases hs : c.st.stuck = true
  · have hc : (⟨c.st, [f] ++ fs⟩ : Conf) = c := by
      obtain ⟨st, frames⟩ := c
      simp_all
    simpa only [machine, exec, hs, if_true, hc] using Rule.hang hs
  · have hrun : c.st.stuck = false := by simpa using hs
    simp only [machine, exec, hs, Bool.false_eq_true, if_false]
    cases f with
    | onReadRest => exact .onRead hrun hf (idle_onConnIdle hb.serving)
    | onStreamCloseRest id sid => exact .onStreamClose hrun hf (idle_onConnIdle hb.serving)
    | finishConn id => exact .finishConn hrun hf
    | finishSocket id => exact .finishSocket hrun hf
    | finishEnd =>
        obtain ⟨-, hdrained, rfl⟩ := hb.finishEnd_last hrun hf
        cases hlisten : c.st.listening with
        | true =>
            have := Rule.finishClose hrun hf hdrained hlisten
            simpa [finishEnd, closeListener, hlisten, hb.serving.mp hlisten] using this
        | false =>
            have := Rule.finishDrain hrun hf hdrained hlisten
            simpa [finishEnd, setDrained, hlisten, hdrained] using this

/-- The task of `Shutdown`. -/
theorem rule_of_shutdownTask (hb : Base c) (hs : c.st.stuck = false) (hf : c.frames = [])
    (hposted : c.st.shutdownPosted = true) (halive : c.st.alive = true) :
    Rule c (.event .shutdownTask) ⟨shutdownTask { c.st with shutdownPosted := false }, []⟩ := by
  have hlocked := hb.unlocked hs hf
  by_cases hidle : c.st.conns.filter (fun conn => !conn.calls.isEmpty) = []
  · cases hlisten : c.st.listening with
    | true =>
        have := Rule.taskClose hs hf hlocked hposted halive hidle hlisten
        simpa [shutdownTask, closeIdle, closeSockets, closeListener, hidle, hlisten, hs,
          hb.serving.mp hlisten] using this
    | false =>
        have := Rule.taskRelock hs hf hlocked hposted halive hidle hlisten
        simpa [shutdownTask, closeIdle, closeSockets, finish, hidle, hlisten] using this
  · have := Rule.taskGrace hs hf hlocked hposted halive hidle
    have hbusy : (c.st.conns.filter fun conn => !conn.calls.isEmpty).isEmpty = false := by
      simpa using hidle
    simpa only [shutdownTask, closeIdle, closeSockets, hbusy, Bool.not_false, if_true] using this

theorem fire_eq_some {e : Event} {r : State × List Frame} (h : fire e s = some r) :
    s.stuck = false ∧ handle s e = some r := by
  unfold fire at h
  split at h
  · cases h
  · next hs => exact ⟨by simpa using hs, h⟩

theorem rule_of_event {e : Event} (hb : Base c) (h : machine.step c (.event e) = some d) :
    Rule c (.event e) d := by
  obtain ⟨hen, s, gs, hfire, rfl⟩ := step_event h
  obtain ⟨hs, hfire⟩ := fire_eq_some hfire
  have hbase : anytime e = false → c.frames = [] := fun he => (enabled_base he hen).1
  cases e with
  | start =>
      simp only [handle, Option.ite_none_right_eq_some, Option.some.injEq, Prod.mk.injEq, Bool.and_eq_true,
        Bool.not_eq_true'] at hfire
      obtain ⟨⟨⟨halive, hdone⟩, -⟩, rfl, rfl⟩ := hfire
      exact .start hs halive hdone
  | startTask outcome =>
      simp only [handle, Option.ite_none_right_eq_some, Option.some.injEq, Prod.mk.injEq] at hfire
      obtain ⟨hposted, rfl, rfl⟩ := hfire
      rw [hbase rfl]
      exact .startTask hs (hbase rfl) hposted
  | shutdown =>
      dsimp only [handle] at hfire
      split at hfire
      · cases hfire
      · next hcan =>
          simp only [Bool.or_eq_true, Bool.not_eq_true', not_or] at hcan
          split at hfire
          · next hagain =>
              cases hfire
              refine .shutdownAgain hs fun hdone => ?_
              simpa [hdone] using hagain
          · next hfirst =>
              cases hfire
              simp only [Bool.or_eq_true, Bool.not_eq_true', not_or, Bool.not_eq_false,
                Bool.not_eq_true] at hfirst hcan
              exact .shutdown hs hcan.1 hfirst.1 hfirst.2
  | shutdownTask =>
      dsimp only [handle] at hfire
      split at hfire
      · cases hfire
      · next hposted =>
          have hposted : c.st.shutdownPosted = true := by simpa using hposted
          rw [hbase rfl]
          by_cases halive : c.st.alive = true
          · rw [if_pos halive] at hfire
            cases hfire
            exact rule_of_shutdownTask hb hs (hbase rfl) hposted halive
          · rw [if_neg halive] at hfire
            cases hfire
            exact .deadTask hs (hbase rfl) hposted (by simpa using halive)
  | graceTimer =>
      dsimp only [handle] at hfire
      split at hfire
      · cases hfire
      · next hgrace =>
          have hgrace : c.st.grace = true := by simpa using hgrace
          rw [hbase rfl]
          by_cases halive : c.st.alive = true
          · rw [if_pos halive] at hfire
            by_cases hdrained : c.st.drained = true
            · rw [finishShutdown, if_pos hdrained] at hfire
              cases hfire
              exact .graceLate hs (hbase rfl) hgrace (.inl hdrained)
            · rw [finishShutdown, if_neg hdrained] at hfire
              cases hfire
              rw [List.append_nil]
              exact .grace hs (hbase rfl) (hb.unlocked hs (hbase rfl)) hgrace (by simpa using hdrained)
          · rw [if_neg halive] at hfire
            cases hfire
            exact .graceLate hs (hbase rfl) hgrace (.inr (by simpa using halive))
  | listenerClosed =>
      simp only [handle, Option.ite_none_right_eq_some, Option.some.injEq, Prod.mk.injEq] at hfire
      obtain ⟨hclosing, rfl, rfl⟩ := hfire
      rw [hbase rfl]
      cases hdrained : c.st.drained with
      | true =>
          have := Rule.closedLate hs (hbase rfl) hclosing hdrained
          simpa [finish, setDrained, hb.unlocked hs (hbase rfl), hdrained] using this
      | false =>
          have := Rule.closed hs (hbase rfl) hclosing hdrained
          simpa [finish, setDrained, hb.unlocked hs (hbase rfl), hdrained] using this
  | accept =>
      simp only [handle, Option.ite_none_right_eq_some, Option.some.injEq, Prod.mk.injEq] at hfire
      obtain ⟨hserving, rfl, rfl⟩ := hfire
      rw [hbase rfl]
      exact .accept hs (hbase rfl) hserving
  | openStream id sid deadline =>
      dsimp only [handle] at hfire
      rw [hbase rfl]
      split at hfire
      · next conn hfind =>
          simp only [Option.ite_none_right_eq_some, Option.some.injEq, Prod.mk.injEq] at hfire
          obtain ⟨-, rfl, rfl⟩ := hfire
          exact .openStream hs (hbase rfl) hfind
      · cases hfire
  | dispatch id sid =>
      dsimp only [handle] at hfire
      rw [hbase rfl]
      split at hfire
      · next call hcall =>
          cases hfire
          obtain ⟨conn, hfind, hmem⟩ := Option.bind_eq_some_iff.mp hcall
          exact .dispatch hs (hbase rfl) hfind (List.mem_of_find?_eq_some hmem)
      · cases hfire
  | streamClose id sid =>
      dsimp only [handle] at hfire
      split at hfire
      · next conn hfind =>
          split at hfire
          · cases hfire
            exact .streamClose hs
          · next hnone =>
              cases hfire
              exact .streamCloseUnknown hs hfind (by simpa using hnone) (idle_onConnIdle hb.serving)
      · cases hfire
  | stopDeadline id sid =>
      simp only [handle, Option.ite_none_right_eq_some, Option.some.injEq, Prod.mk.injEq] at hfire
      obtain ⟨-, rfl, rfl⟩ := hfire
      exact .stopDeadline hs
  | deadline id sid =>
      simp only [handle, Option.ite_none_right_eq_some, Option.some.injEq, Prod.mk.injEq] at hfire
      obtain ⟨-, rfl, rfl⟩ := hfire
      rw [hbase rfl]
      exact .deadline hs (hbase rfl)
  | postPump id =>
      simp only [handle, Option.ite_none_right_eq_some, Option.some.injEq, Prod.mk.injEq,
        Option.isSome_iff_exists] at hfire
      obtain ⟨⟨conn, hfind⟩, rfl, rfl⟩ := hfire
      exact .postPump hs hfind
  | pump =>
      dsimp only [handle] at hfire
      rw [hbase rfl]
      split at hfire
      · cases hfire
      · next id pumps hpumps =>
          cases hfire
          exact .pump hs (hbase rfl) hpumps
  | connLost id =>
      dsimp only [handle] at hfire
      rw [hbase rfl]
      split at hfire
      · next conn hfind =>
          split at hfire
          · cases hfire
          · cases hfire
            exact .connLost hs (hbase rfl) hfind
      · cases hfire
  | destroy =>
      simp only [handle, Option.ite_none_right_eq_some, Option.some.injEq, Prod.mk.injEq, Bool.and_eq_true,
        Bool.or_eq_true, Bool.not_eq_true'] at hfire
      obtain ⟨⟨-, hmay⟩, rfl, rfl⟩ := hfire
      rw [hbase rfl]
      exact .destroy hs (hbase rfl) hmay

theorem rule_of_step (hb : Base c) (h : machine.step c l = some d) : Rule c l d := by
  cases l with
  | resume => exact rule_of_resume hb h
  | event e => exact rule_of_event hb h

/-! ## Every run keeps the base -/

theorem base_fresh : Base fresh where
  serving := by decide
  started := nofun
  unstarted _ := ⟨rfl, rfl⟩
  asked := by decide
  free _ := nofun
  held := nofun

/-- `OnConnIdle`, run on top of the frames `fs`. -/
theorem base_idle {fs : List Frame} (hb : Base ⟨s, fs⟩) {t : State} (h : Idle s t) :
    Base ⟨t, fs⟩ := by
  cases h with
  | relock hlocked => exact { hb with held := nofun }
  | purge hlocked hstay => exact { hb with }
  | last hlocked hreq hnil hdrained hlisten =>
      have hdone : s.startDone = true := hb.startDone_of_requested hreq
      exact { hb with
        serving := by simp
        unstarted := fun h => by simp [hdone] at h
        held := fun h => by simp [hlocked] at h }

/-- The tail of the stack, below a frame that is not the last one of `FinishShutdown`. -/
theorem base_pop {f : Frame} {fs : List Frame} (hb : Base c) (hf : c.frames = f :: fs)
    (hne : f ≠ .finishEnd) : Base ⟨c.st, fs⟩ where
  serving := hb.serving
  started := hb.started
  unstarted := hb.unstarted
  asked := hb.asked
  free h g hg := hb.free h g (hf ▸ List.mem_cons_of_mem _ hg)
  held h hs := by
    obtain ⟨hd, gs, hgs, hnot⟩ := hb.held h hs
    refine ⟨hd, gs.tail, ?_, fun h => hnot (List.mem_of_mem_tail h)⟩
    rw [hf] at hgs
    cases gs with
    | nil => exact absurd (List.cons.inj hgs).1 hne
    | cons g gs => exact (List.cons.inj hgs).2

theorem base_rule (hb : Base c) (h : Rule c l d) : Base d := by
  cases h with
  | hang hs => exact hb
  | onRead hs hf hidle => exact base_idle (base_pop hb hf nofun) hidle
  | @onStreamClose id sid fs s hs hf hidle =>
      have hpop := base_pop hb hf nofun
      have herase : Base ⟨eraseCall c.st id sid, fs⟩ := { hpop with }
      exact base_idle herase hidle
  | finishConn hs hf =>
      have hpop := base_pop hb hf nofun
      exact { hpop with }
  | finishSocket hs hf =>
      have hpop := base_pop hb hf nofun
      exact { hpop with }
  | finishClose hs hf hdrained hlisten =>
      have hdone := hb.startDone_of_listener (by simp [hb.serving.mp hlisten])
      exact { hb with
        serving := by simp
        unstarted := fun h => by simp [hdone] at h
        free := fun _ => nofun
        held := nofun }
  | finishDrain hs hf hdrained hlisten =>
      exact { hb with free := fun _ => nofun, held := nofun }
  | start hs halive hdone =>
      exact { hb with started := fun h => by simp [hdone] at h }
  | shutdownAgain hs h => exact hb
  | shutdown hs halive hdone hreq =>
      exact { hb with unstarted := fun h => by simp [hdone] at h, asked := fun _ => rfl }
  | destroy hs hf h =>
      have hrest := hb.at_rest hf
      exact { hrest with }
  | @startTask outcome hs hf hposted =>
      have hrest := hb.at_rest hf
      exact { hrest with
        serving := by cases outcome <;> simp [startTask]
        started := fun _ => rfl
        unstarted := nofun }
  | deadTask hs hf hposted halive =>
      have hrest := hb.at_rest hf
      exact { hrest with asked := fun _ => hb.asked (.inl hposted) }
  | taskGrace hs hf hlocked hposted halive hbusy =>
      have hrest := hb.at_rest hf
      exact { hrest with asked := fun _ => hb.asked (.inl hposted) }
  | taskClose hs hf hlocked hposted halive hidle hlisten =>
      have hrest := hb.at_rest hf
      have hdone := hb.startDone_of_listener (by simp [hb.serving.mp hlisten])
      exact { hrest with
        serving := by simp
        unstarted := fun h => by simp [closeIdle, closeSockets, hdone] at h
        asked := fun _ => hb.asked (.inl hposted)
        free := fun _ => nofun
        held := nofun }
  | taskRelock hs hf hlocked hposted halive hidle hlisten =>
      have hrest := hb.at_rest hf
      exact { hrest with
        asked := fun _ => hb.asked (.inl hposted)
        free := nofun
        held := nofun }
  | postPump hs hfind => exact { hb with }
  | pump hs hf hpumps =>
      have hrest := hb.at_rest hf
      exact { hrest with }
  | graceLate hs hf hgrace h =>
      have hrest := hb.at_rest hf
      exact { hrest with }
  | grace hs hf hlocked hgrace hdrained =>
      exact { hb with
        free := nofun
        held := fun _ _ => ⟨hdrained, _, rfl, by simp⟩ }
  | stopDeadline hs => exact { hb with }
  | deadline hs hf =>
      have hrest := hb.at_rest hf
      exact { hrest with }
  | closedLate hs hf hclosing hdrained =>
      have hrest := hb.at_rest hf
      have hdone := hb.startDone_of_listener (by simp [hclosing])
      exact { hrest with
        serving := by simp [hb.serving, hclosing]
        unstarted := fun h => by simp [hdone] at h }
  | closed hs hf hclosing hdrained =>
      have hrest := hb.at_rest hf
      have hdone := hb.startDone_of_listener (by simp [hclosing])
      exact { hrest with
        serving := by simp [hb.serving, hclosing]
        unstarted := fun h => by simp [hdone] at h
        held := fun h => by simp [hb.unlocked hs hf] at h }
  | accept hs hf hserving =>
      have hrest := hb.at_rest hf
      exact { hrest with }
  | openStream hs hf hfind =>
      have hrest := hb.at_rest hf
      exact { hrest with }
  | dispatch hs hf hfind hcall =>
      have hrest := hb.at_rest hf
      exact { hrest with }
  | @streamClose id sid hs =>
      refine { hb with free := fun h => ?_, held := fun h hs => ?_ }
      · exact List.forall_mem_cons.mpr ⟨rfl, hb.free h⟩
      · obtain ⟨hd, fs, hfs, hnot⟩ := hb.held h hs
        exact ⟨hd, .onStreamCloseRest id sid :: fs, by simp [hfs], by simp [hnot]⟩
  | streamCloseUnknown hs hfind hnone hidle => exact base_idle hb hidle
  | connLost hs hf hfind =>
      have hlocked := hb.unlocked hs hf
      exact { hb with
        free := fun _ => List.forall_mem_singleton.mpr rfl
        held := fun h => by simp [markClosed, State.update, hlocked] at h }

variable {ok : Conf → Label → Prop}

theorem reach_base (h : machine.Reach ok fresh c) : Base c :=
  h.inv base_fresh fun _ _ _ hb _ hstep => base_rule hb (rule_of_step hb hstep)

/-- The invariant rule for the life of a server: `I` is kept by every rule whose step meets `ok`. -/
theorem reach_inv {I : Conf → Prop} (h0 : I fresh)
    (hrule : ∀ c l d, Base c → I c → ok c l → Rule c l d → I d)
    (h : machine.Reach ok fresh c) : I c := by
  have hboth : Base c ∧ I c := by
    refine h.inv (I := fun e => Base e ∧ I e) ⟨base_fresh, h0⟩ ?_
    intro e l e' ⟨hb, hi⟩ hok hstep
    have hr := rule_of_step hb hstep
    exact ⟨base_rule hb hr, hrule e l e' hb hi hok hr⟩
  exact hboth.2

/-- The same rule for a run with a history. -/
theorem hist_inv {ρ : Type*} {rec : ρ → Label → ρ} {r q : ρ} {I : Conf → ρ → Prop}
    (h0 : I fresh r)
    (hrule : ∀ c l d q, Base c → I c q → ok c l → Rule c l d → I d (rec q l))
    (h : machine.Hist rec ok fresh r c q) : I c q := by
  have hboth : Base c ∧ I c q := by
    refine h.inv (I := fun e p => Base e ∧ I e p) ⟨base_fresh, h0⟩ ?_
    intro e l e' p ⟨hb, hi⟩ hok hstep
    have hr := rule_of_step hb hstep
    exact ⟨base_rule hb hr, hrule e l e' p hb hi hok hr⟩
  exact hboth.2

end Urpc.Server.Impl
