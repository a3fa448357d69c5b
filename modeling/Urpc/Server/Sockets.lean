/-
  What a removed connection leaves behind.

  * `sockets_closed_once`: `uv_close` is called at most once on the socket of a connection, and
    on that of a removed connection exactly once, unless the connection was removed because it
    was lost: `OnRead` marks it closed, `OnConnIdle` erases it, and nobody closes its socket
    (`lost_socket_leaks`).
  * `no_dangling_work`: armed deadlines and posted `PumpOut` tasks belong to a connection in
    `conns`, and an armed grace timer to a living server; in the runs whose removals find
    nothing that waits for the connections they remove, and which destroy the server with its
    grace timer off. `dangling_work` has a run for each of the three: a removal cancels no
    deadline, the guard of `PumpOut` is the life of the server, and a drain that ends before
    the grace timer leaves it armed.
-/
import Urpc.Server.Shutdown

namespace Urpc.Server.Impl

variable {c d : Conf} {l : Label} {s : State}

/-! ## Sockets -/

/-- The connections lost so far. -/
def lost (q : List Nat) : Label → List Nat
  | .event (.connLost id) => id :: q
  | _ => q

/-- Which sockets were closed: none twice, those of the connections that no longer have one,
    and those of the removed connections that were not lost. -/
structure Closes (s : State) (q : List Nat) : Prop where
  nodup : (s.conns.map Conn.id).Nodup
  once : s.socketCloses.Nodup
  connKnown : ∀ conn ∈ s.conns, conn.id < s.nextConn
  closeKnown : ∀ id ∈ s.socketCloses, id < s.nextConn
  lostKnown : ∀ id ∈ q, id < s.nextConn
  kept : ∀ conn ∈ s.conns, conn.id ∈ s.socketCloses ↔ conn.socket = false
  removed : ∀ id < s.nextConn, id ∉ s.conns.map Conn.id → (id ∈ s.socketCloses ↔ id ∉ q)

structure Counted (c : Conf) (q : List Nat) : Prop where
  closes : Closes c.st q
  free : c.st.locked = false → ∀ conn ∈ c.st.conns,
    conn.socket = true ∧ (conn.closed = true ↔ conn.id ∈ q) ∧
      (conn.closed = true → .onReadRest ∈ c.frames)
  held : c.st.locked = true → c.st.stuck = false → ∀ conn ∈ c.st.conns,
    conn.id ∉ q ∧ (conn.socket = true → .finishSocket conn.id ∈ c.frames)

variable {q : List Nat}

theorem counted_fresh : Counted fresh [] where
  closes := ⟨List.nodup_nil, List.nodup_nil, nofun, nofun, nofun, nofun, nofun⟩
  free _ := nofun
  held := nofun

theorem map_id_update {id : Nat} {f : Conn → Conn} (hf : ∀ conn, (f conn).id = conn.id) :
    (s.update id f).conns.map Conn.id = s.conns.map Conn.id := by
  simp only [State.update, List.map_map]
  refine List.map_congr_left fun conn _ => ?_
  simp only [Function.comp_apply]
  split
  · exact hf conn
  · rfl

theorem Closes.update {id : Nat} {f : Conn → Conn} (h : Closes s q)
    (hid : ∀ conn, (f conn).id = conn.id) (hsocket : ∀ conn, (f conn).socket = conn.socket) :
    Closes (s.update id f) q where
  nodup := by rw [map_id_update hid]; exact h.nodup
  once := h.once
  connKnown conn hconn := by
    obtain ⟨conn', hconn', rfl⟩ := State.mem_update.mp hconn
    split
    · rw [hid]; exact h.connKnown conn' hconn'
    · exact h.connKnown conn' hconn'
  closeKnown := h.closeKnown
  lostKnown := h.lostKnown
  kept conn hconn := by
    obtain ⟨conn', hconn', rfl⟩ := State.mem_update.mp hconn
    split
    · rw [hid, hsocket]; exact h.kept conn' hconn'
    · exact h.kept conn' hconn'
  removed := by rw [map_id_update hid]; exact h.removed

/-- Connections are removed whose sockets are closed already, or that were lost. -/
theorem Closes.filter (h : Closes s q) (p : Conn → Bool)
    (hgone : ∀ conn ∈ s.conns, p conn = false → (conn.socket = false ↔ conn.id ∉ q)) :
    Closes { s with conns := s.conns.filter p } q where
  nodup := (List.filter_sublist.map Conn.id).nodup h.nodup
  once := h.once
  connKnown conn hconn := h.connKnown conn (List.mem_filter.mp hconn).1
  closeKnown := h.closeKnown
  lostKnown := h.lostKnown
  kept conn hconn := h.kept conn (List.mem_filter.mp hconn).1
  removed id hid hnot := by
    by_cases hold : id ∈ s.conns.map Conn.id
    · obtain ⟨conn, hconn, rfl⟩ := List.mem_map.mp hold
      have hp : p conn = false := by
        by_contra hp
        exact hnot (List.mem_map.mpr
          ⟨conn, List.mem_filter.mpr ⟨hconn, by simpa using hp⟩, rfl⟩)
      exact (h.kept conn hconn).trans (hgone conn hconn hp)
    · exact h.removed id hid hold

/-- `uv_close` on the sockets that some of the connections still have. -/
theorem Closes.once_closeSockets (h : Closes s q) (p : Conn → Bool) :
    (closeSockets s (s.conns.filter p)).socketCloses.Nodup := by
  have hsub : (((s.conns.filter p).filter Conn.socket).map Conn.id).Nodup :=
    ((List.filter_sublist.trans List.filter_sublist).map Conn.id).nodup h.nodup
  refine List.nodup_append.mpr ⟨h.once, hsub, ?_⟩
  rintro id hid id' hid' rfl
  obtain ⟨conn, hconn, rfl⟩ := List.mem_map.mp hid'
  obtain ⟨hmem, hsocket⟩ := List.mem_filter.mp hconn
  have := (h.kept conn (List.mem_filter.mp hmem).1).mp hid
  simp [hsocket] at this

theorem mem_closeSockets {conns : List Conn} {id : Nat} :
    id ∈ (closeSockets s conns).socketCloses ↔
      id ∈ s.socketCloses ∨ ∃ conn ∈ conns, conn.socket = true ∧ conn.id = id := by
  simp [closeSockets, and_assoc]

/-- The connections of one identity are one connection. -/
theorem Closes.unique (h : Closes s q) {conn conn' : Conn} (hconn : conn ∈ s.conns)
    (hconn' : conn' ∈ s.conns) (hid : conn.id = conn'.id) : conn = conn' :=
  List.inj_on_of_nodup_map h.nodup hconn hconn' hid

theorem Closes.finishSocket (h : Closes s q) (id : Nat) : Closes (finishSocket s id) q := by
  have hids : (Impl.finishSocket s id).conns.map Conn.id = s.conns.map Conn.id :=
    map_id_update fun _ => rfl
  have hmem : ∀ id', id' ∈ (Impl.finishSocket s id).socketCloses ↔
      id' ∈ s.socketCloses ∨ ∃ conn ∈ s.conns, conn.id = id ∧ conn.socket = true ∧ conn.id = id' := by
    intro id'
    simp [Impl.finishSocket, mem_closeSockets, State.update, and_assoc]
  refine ⟨hids ▸ h.nodup, h.once_closeSockets fun conn => conn.id = id, ?_, ?_, h.lostKnown, ?_, ?_⟩
  · intro conn hconn
    obtain ⟨conn', hconn', hid⟩ := List.mem_map.mp (hids ▸ List.mem_map_of_mem hconn)
    exact hid ▸ h.connKnown conn' hconn'
  · intro id' hid'
    rcases (hmem id').mp hid' with hold | ⟨conn, hconn, -, -, rfl⟩
    · exact h.closeKnown id' hold
    · exact h.connKnown conn hconn
  · intro conn hconn
    obtain ⟨conn', hconn', rfl⟩ := State.mem_update.mp hconn
    split
    · next hid =>
        refine ⟨fun _ => rfl, fun _ => (hmem _).mpr ?_⟩
        cases hsocket : conn'.socket with
        | true => exact .inr ⟨conn', hconn', hid, hsocket, rfl⟩
        | false => exact .inl ((h.kept conn' hconn').mpr hsocket)
    · next hid =>
        rw [hmem, ← h.kept conn' hconn']
        refine ⟨fun hor => hor.resolve_right ?_, .inl⟩
        rintro ⟨conn, hconn, hc, -, heq⟩
        exact hid (heq ▸ hc)
  · intro id' hlt hnot
    rw [hids] at hnot
    rw [hmem, ← h.removed id' hlt hnot]
    refine ⟨fun hor => hor.resolve_right ?_, .inl⟩
    rintro ⟨conn, hconn, -, -, rfl⟩
    exact hnot (List.mem_map_of_mem hconn)

/-- The task of `Shutdown` closes what it removes. -/
theorem Closes.closeIdle (h : Closes s q)
    (hall : ∀ conn ∈ s.conns, conn.socket = true ∧ conn.id ∉ q) : Closes (closeIdle s) q := by
  have hmem : ∀ id, id ∈ (Impl.closeIdle s).socketCloses ↔
      id ∈ s.socketCloses ∨ ∃ conn ∈ s.conns, conn.calls = [] ∧ conn.id = id := by
    intro id
    refine mem_closeSockets.trans (or_congr_right ?_)
    constructor
    · rintro ⟨conn, hconn, -, rfl⟩
      obtain ⟨hc, hcalls⟩ := List.mem_filter.mp hconn
      exact ⟨conn, hc, by simpa using hcalls, rfl⟩
    · rintro ⟨conn, hc, hcalls, rfl⟩
      exact ⟨conn, List.mem_filter.mpr ⟨hc, by simp [hcalls]⟩, (hall conn hc).1, rfl⟩
  refine ⟨(List.filter_sublist.map Conn.id).nodup h.nodup,
    h.once_closeSockets fun conn => conn.calls.isEmpty,
    fun conn hconn => h.connKnown conn (List.mem_filter.mp hconn).1, ?_, h.lostKnown, ?_, ?_⟩
  · intro id hid
    rcases (hmem id).mp hid with hold | ⟨conn, hconn, -, rfl⟩
    · exact h.closeKnown id hold
    · exact h.connKnown conn hconn
  · intro conn hconn
    obtain ⟨hc, hcalls⟩ := List.mem_filter.mp hconn
    rw [hmem, ← h.kept conn hc]
    refine ⟨fun hor => hor.resolve_right ?_, .inl⟩
    rintro ⟨conn', hconn', hnil, hid⟩
    rw [h.unique hconn' hc hid] at hnil
    simp [hnil] at hcalls
  · intro id hlt hnot
    rw [hmem]
    by_cases hold : id ∈ s.conns.map Conn.id
    · obtain ⟨conn, hc, rfl⟩ := List.mem_map.mp hold
      refine ⟨fun _ => (hall conn hc).2, fun _ => .inr ⟨conn, hc, ?_, rfl⟩⟩
      by_contra hcalls
      exact hnot (List.mem_map_of_mem (List.mem_filter.mpr ⟨hc, by simpa using hcalls⟩))
    · rw [← h.removed id hlt hold]
      refine ⟨fun hor => hor.resolve_right ?_, .inl⟩
      rintro ⟨conn, hconn, -, rfl⟩
      exact hold (List.mem_map_of_mem hconn)

/-- A connection changes, but for its identity, its socket and its `closed`. -/
theorem Counted.update {id : Nat} {f : Conn → Conn} (h : Counted c q)
    (hid : ∀ conn, (f conn).id = conn.id) (hsocket : ∀ conn, (f conn).socket = conn.socket)
    (hclosed : ∀ conn, (f conn).closed = conn.closed) : Counted ⟨c.st.update id f, c.frames⟩ q where
  closes := h.closes.update hid hsocket
  free hlocked conn hconn := by
    obtain ⟨conn', hconn', rfl⟩ := State.mem_update.mp hconn
    split
    · rw [hid, hsocket, hclosed]; exact h.free hlocked conn' hconn'
    · exact h.free hlocked conn' hconn'
  held hlocked hs conn hconn := by
    obtain ⟨conn', hconn', rfl⟩ := State.mem_update.mp hconn
    split
    · rw [hid, hsocket]; exact h.held hlocked hs conn' hconn'
    · exact h.held hlocked hs conn' hconn'

/-- `OnConnIdle` removes lost connections only. -/
theorem counted_idle {t : State} {fs gs : List Frame} (h : Counted ⟨s, gs⟩ q)
    (hi : Idle s t) : Counted ⟨t, fs⟩ q := by
  have hpurge (hlocked : s.locked = false) :
      Closes { s with conns := s.conns.filter fun conn => !conn.closed } q := by
    refine h.closes.filter _ fun conn hconn hclosed => ?_
    obtain ⟨hsocket, hlost, -⟩ := h.free hlocked conn hconn
    have hin := hlost.mp (by simpa using hclosed)
    simp [hsocket, hin]
  cases hi with
  | relock hlocked =>
      have hc := h.closes
      exact ⟨{ hc with }, fun hnot => by simp [hlocked] at hnot, nofun⟩
  | purge hlocked hstay =>
      refine ⟨hpurge hlocked, fun _ conn hconn => ?_, fun hheld => by simp [hlocked] at hheld⟩
      obtain ⟨hmem, hopen⟩ := List.mem_filter.mp hconn
      obtain ⟨hsocket, hlost, -⟩ := h.free hlocked conn hmem
      exact ⟨hsocket, hlost, fun hclosed => by simp [hclosed] at hopen⟩
  | last hlocked hreq hnil hdrained hlisten =>
      have hc := hnil ▸ hpurge hlocked
      exact ⟨{ hc with }, fun _ => nofun, fun _ _ => nofun⟩

theorem Counted.at_rest (h : Counted c q) (hf : c.frames = []) : Counted ⟨c.st, []⟩ q := by
  obtain ⟨st, frames⟩ := c
  cases hf
  exact h

/-- Between two events of the loop every connection has its socket, and none is lost. -/
theorem Counted.open_at_rest (h : Counted c q) (hb : Base c) (hs : c.st.stuck = false)
    (hf : c.frames = []) : ∀ conn ∈ c.st.conns, conn.socket = true ∧ conn.id ∉ q := by
  intro conn hconn
  obtain ⟨hsocket, hlost, hrest⟩ := h.free (hb.unlocked hs hf) conn hconn
  refine ⟨hsocket, fun hin => ?_⟩
  have := hrest (hlost.mpr hin)
  simp [hf] at this

/-- `FinishShutdown` clears `conns` when it has closed every socket. -/
theorem counted_finishEnd (hb : Base c) (h : Counted c q) (hs : c.st.stuck = false)
    (hf : c.frames = [.finishEnd]) : Closes { c.st with conns := [] } q := by
  have hclear : c.st.conns.filter (fun _ => false) = [] := by simp
  have hpurge : Closes { c.st with conns := c.st.conns.filter fun _ => false } q := by
    refine h.closes.filter _ fun conn hconn _ => ?_
    obtain ⟨hlost, hframe⟩ := h.held (hb.finishEnd_last hs hf).1 hs conn hconn
    have hsocket : conn.socket = false := by
      by_contra hsocket
      have := hframe (by simpa using hsocket)
      simp [hf] at this
    simp [hsocket, hlost]
  rwa [hclear] at hpurge

theorem counted_connLost {id : Nat} {conn : Conn} (hb : Base c) (h : Counted c q)
    (hs : c.st.stuck = false) (hf : c.frames = []) (hfind : c.st.find id = some conn) :
    Counted ⟨markClosed c.st id, [.onReadRest]⟩ (id :: q) := by
  obtain ⟨hconn, rfl⟩ := State.mem_of_find hfind
  have hcloses : Closes (markClosed c.st conn.id) q :=
    h.closes.update (fun _ => rfl) fun _ => rfl
  have hids : (markClosed c.st conn.id).conns.map Conn.id = c.st.conns.map Conn.id :=
    map_id_update fun _ => rfl
  have hlocked : (markClosed c.st conn.id).locked = false := hb.unlocked hs hf
  refine ⟨{ hcloses with lostKnown := ?_, removed := ?_ }, fun _ => ?_, fun hheld => ?_⟩
  · exact List.forall_mem_cons.mpr ⟨h.closes.connKnown conn hconn, h.closes.lostKnown⟩
  · intro id' hlt hnot
    have hne : id' ≠ conn.id := fun heq => hnot (by
      rw [hids, heq]
      exact List.mem_map_of_mem hconn)
    simpa [hne] using hcloses.removed id' hlt hnot
  · intro conn' hconn'
    obtain ⟨conn₀, hconn₀, rfl⟩ := State.mem_update.mp hconn'
    obtain ⟨hsocket, hlost, -⟩ := h.free (hb.unlocked hs hf) conn₀ hconn₀
    split
    · next hid => exact ⟨hsocket, by simp [hid], fun _ => by simp⟩
    · next hid => exact ⟨hsocket, by simpa [hid] using hlost, fun _ => by simp⟩
  · simp [hlocked] at hheld

theorem counted_accept (hb : Base c) (h : Counted c q) (hs : c.st.stuck = false)
    (hf : c.frames = []) : Counted ⟨accept c.st, []⟩ q := by
  have hc := h.closes
  have hnew : c.st.nextConn ∉ q := fun hin => absurd (hc.lostKnown _ hin) (Nat.lt_irrefl _)
  refine ⟨⟨?_, hc.once, ?_, ?_, ?_, ?_, ?_⟩, fun hlocked => ?_, fun hheld => ?_⟩
  · simp only [accept, List.map_append, List.map_cons, List.map_nil]
    refine List.nodup_append.mpr ⟨hc.nodup, List.nodup_singleton _, ?_⟩
    rintro id hid id' hid' rfl
    obtain ⟨conn, hconn, rfl⟩ := List.mem_map.mp hid
    have := hc.connKnown conn hconn
    simp at hid'
    omega
  · intro conn hconn
    rcases List.mem_append.mp hconn with hold | hone
    · exact Nat.lt_succ_of_lt (hc.connKnown conn hold)
    · rw [List.mem_singleton.mp hone]
      exact Nat.lt_succ_self _
  · exact fun id hid => Nat.lt_succ_of_lt (hc.closeKnown id hid)
  · exact fun id hid => Nat.lt_succ_of_lt (hc.lostKnown id hid)
  · intro conn hconn
    rcases List.mem_append.mp hconn with hold | hone
    · exact hc.kept conn hold
    · rw [List.mem_singleton.mp hone]
      exact ⟨fun hin => absurd (hc.closeKnown _ hin) (Nat.lt_irrefl _), (by simp)⟩
  · intro id hlt hnot
    simp only [accept, List.map_append, List.map_cons, List.map_nil, List.mem_append,
      List.mem_singleton, not_or] at hnot
    have hold : id < c.st.nextConn := by
      have : id < c.st.nextConn + 1 := hlt
      omega
    exact hc.removed id hold hnot.1
  · intro conn hconn
    rcases List.mem_append.mp hconn with hold | hone
    · exact (h.at_rest hf).free hlocked conn hold
    · rw [List.mem_singleton.mp hone]
      exact ⟨rfl, ⟨(by simp), fun hin => absurd hin hnew⟩, (by simp)⟩
  · have hlocked : (accept c.st).locked = false := hb.unlocked hs hf
    simp [hlocked] at hheld

theorem counted_rule (hb : Base c) (h : Counted c q) (hr : Rule c l d) : Counted d (lost q l) := by
  have hc := h.closes
  cases hr with
  | hang hs => exact h
  | onRead hs hf hidle => exact counted_idle h hidle
  | @onStreamClose id sid fs s hs hf hidle =>
      have hup : Counted ⟨c.st.update id fun conn =>
          { conn with calls := conn.calls.filter fun c => c.sid ≠ sid }, c.frames⟩ q :=
        h.update (fun _ => rfl) (fun _ => rfl) fun _ => rfl
      have hce := hup.closes
      have herase : Counted ⟨eraseCall c.st id sid, c.frames⟩ q :=
        { hup with closes := { hce with } }
      exact counted_idle herase hidle
  | @finishConn id fs hs hf =>
      have hlocked : c.st.locked = true := by
        by_contra hnot
        have := hb.free (by simpa using hnot) (.finishConn id) (by simp [hf])
        cases this
      refine ⟨hc.update (fun _ => rfl) fun _ => rfl,
        fun hnot => by simp [markClosed, State.update, hlocked] at hnot, fun _ _ conn hconn => ?_⟩
      obtain ⟨conn', hconn', rfl⟩ := State.mem_update.mp hconn
      obtain ⟨hlost, hframe⟩ := h.held hlocked hs conn' hconn'
      have htail : conn'.socket = true → .finishSocket conn'.id ∈ fs := by
        simpa [hf] using hframe
      split
      · exact ⟨hlost, htail⟩
      · exact ⟨hlost, htail⟩
  | @finishSocket id fs hs hf =>
      have hlocked : c.st.locked = true := by
        by_contra hnot
        have := hb.free (by simpa using hnot) (.finishSocket id) (by simp [hf])
        cases this
      refine ⟨hc.finishSocket id,
        fun hnot => by simp [Impl.finishSocket, closeSockets, State.update, hlocked] at hnot,
        fun _ _ conn hconn => ?_⟩
      obtain ⟨conn', hconn', rfl⟩ := State.mem_update.mp hconn
      obtain ⟨hlost, hframe⟩ := h.held hlocked hs conn' hconn'
      split
      · exact ⟨hlost, (by simp)⟩
      · next hne => exact ⟨hlost, fun hsocket => by simpa [hf, hne] using hframe hsocket⟩
  | finishClose hs hf hdrained hlisten =>
      have hce := counted_finishEnd hb h hs hf
      exact ⟨{ hce with }, fun _ => (by simp), (by simp)⟩
  | finishDrain hs hf hdrained hlisten =>
      have hce := counted_finishEnd hb h hs hf
      exact ⟨{ hce with }, fun _ => (by simp), (by simp)⟩
  | start hs halive hdone => exact { h with closes := { hc with } }
  | shutdownAgain hs h' => exact h
  | shutdown hs halive hdone hreq => exact { h with closes := { hc with } }
  | destroy hs hf h' =>
      have hrest := h.at_rest hf
      exact { hrest with closes := { hc with } }
  | startTask hs hf hposted =>
      have hrest := h.at_rest hf
      exact { hrest with closes := { hc with } }
  | deadTask hs hf hposted halive =>
      have hrest := h.at_rest hf
      exact { hrest with closes := { hc with } }
  | taskGrace hs hf hlocked hposted halive hbusy =>
      have hce := hc.closeIdle (h.open_at_rest hb hs hf)
      have hrest := h.at_rest hf
      exact ⟨{ hce with }, fun hlocked conn hconn => hrest.free hlocked conn (List.mem_filter.mp hconn).1,
        fun hheld => by simp [closeIdle, closeSockets, hlocked] at hheld⟩
  | taskClose hs hf hlocked hposted halive hidle hlisten =>
      have hce := hc.closeIdle (h.open_at_rest hb hs hf)
      have hrest := h.at_rest hf
      exact ⟨{ hce with }, fun _ conn hconn => hrest.free hlocked conn (List.mem_filter.mp hconn).1,
        (by simp)⟩
  | taskRelock hs hf hlocked hposted halive hidle hlisten =>
      have hce := hc.closeIdle (h.open_at_rest hb hs hf)
      exact ⟨{ hce with }, (by simp), (by simp)⟩
  | postPump hs hfind => exact { h with closes := { hc with } }
  | pump hs hf hpumps =>
      have hrest := h.at_rest hf
      exact { hrest with closes := { hc with } }
  | graceLate hs hf hgrace h' =>
      have hrest := h.at_rest hf
      exact { hrest with closes := { hc with } }
  | grace hs hf hlocked hgrace hdrained =>
      refine ⟨{ hc with }, (by simp), fun _ _ conn hconn => ?_⟩
      refine ⟨(h.open_at_rest hb hs hf conn hconn).2, fun _ => ?_⟩
      exact List.mem_append_left _ (List.mem_flatMap.mpr ⟨conn, hconn, by simp⟩)
  | stopDeadline hs => exact { h with closes := { hc with } }
  | deadline hs hf =>
      have hrest := h.at_rest hf
      exact { hrest with closes := { hc with } }
  | closedLate hs hf hclosing hdrained =>
      have hrest := h.at_rest hf
      exact { hrest with closes := { hc with } }
  | closed hs hf hclosing hdrained =>
      have hrest := h.at_rest hf
      exact { hrest with closes := { hc with } }
  | accept hs hf hserving => exact counted_accept hb h hs hf
  | @openStream id sid deadline conn hs hf hfind =>
      have hup : Counted ⟨c.st.update id fun conn =>
          { conn with calls := conn.calls ++ [{ sid, late := c.st.swept }] }, []⟩ q :=
        (h.at_rest hf).update (fun _ => rfl) (fun _ => rfl) fun _ => rfl
      have hce := hup.closes
      exact { hup with closes := { hce with } }
  | @dispatch id sid conn call hs hf hfind hcall =>
      have hup : Counted ⟨c.st.update id fun conn => { conn with
          calls := conn.calls.map fun c => if c.sid = call.sid then { c with dispatched := true } else c },
          []⟩ q :=
        (h.at_rest hf).update (fun _ => rfl) (fun _ => rfl) fun _ => rfl
      have hce := hup.closes
      exact { hup with closes := { hce with } }
  | streamClose hs =>
      refine ⟨hc, fun hlocked conn hconn => ?_, fun hlocked hs conn hconn => ?_⟩
      · obtain ⟨hsocket, hlost, hrest⟩ := h.free hlocked conn hconn
        exact ⟨hsocket, hlost, fun hclosed => List.mem_cons_of_mem _ (hrest hclosed)⟩
      · obtain ⟨hlost, hframe⟩ := h.held hlocked hs conn hconn
        exact ⟨hlost, fun hsocket => List.mem_cons_of_mem _ (hframe hsocket)⟩
  | streamCloseUnknown hs hfind hnone hidle => exact counted_idle h hidle
  | connLost hs hf hfind => exact counted_connLost hb h hs hf hfind

/-- For every connection ever accepted: its socket is closed at most once, and once it is
    removed exactly once, unless it was lost. -/
theorem sockets_closed_once (h : machine.Hist lost (fun _ _ => True) fresh [] c q) {id : Nat}
    (hid : id < c.st.nextConn) :
    c.st.socketCloses.count id ≤ 1 ∧
      (id ∉ c.st.conns.map Conn.id → (c.st.socketCloses.count id = 1 ↔ id ∉ q)) := by
  have hc : Counted c q := hist_inv counted_fresh (fun _ _ _ _ hb h _ => counted_rule hb h) h
  have honce := List.nodup_iff_count_le_one.mp hc.closes.once id
  refine ⟨honce, fun hnot => ?_⟩
  rw [← hc.closes.removed id hid hnot, ← List.count_pos_iff]
  omega

/-- An idle connection when the server shuts down. -/
theorem sockets_closed_once_idle :
    ∃ c, machine.Hist lost (fun _ _ => True) fresh [] c [] ∧ c.st.conns = [] ∧
      c.st.socketCloses.count 0 = 1 := by
  obtain ⟨c, hc, hlt, hconns⟩ : ∃ c, machine.run (fun _ _ => True) fresh
      [.event .start, .event (.startTask .listening), .event .accept, .event .shutdown,
        .event .shutdownTask] = some c ∧ 0 < c.st.nextConn ∧ c.st.conns = [] :=
    ⟨_, rfl, Nat.zero_lt_one, rfl⟩
  have hh := Resume.System.hist_of_run lost [] _ hc
  exact ⟨c, hh, hconns, ((sockets_closed_once hh hlt).2 (by simp [hconns])).mpr nofun⟩

/-- A client disconnects: its connection is removed, its socket is not closed. -/
theorem lost_socket_leaks :
    ∃ c, machine.run (fun _ _ => True) fresh
      [.event .start, .event (.startTask .listening), .event .accept, .event (.connLost 0),
        .resume] = some c ∧ c.st.nextConn = 1 ∧ c.st.conns = [] ∧ c.st.socketCloses = [] :=
  ⟨_, rfl, rfl, rfl, rfl⟩

/-! ## Deferred work -/

/-- No armed deadline and no posted `PumpOut` refers to the connections with `p`. -/
def unreferenced (s : State) (p : Conn → Bool) : Prop :=
  ∀ conn ∈ s.conns, p conn = true → (∀ t ∈ s.deadlines, t.1 ≠ conn.id) ∧ conn.id ∉ s.pumps

instance (p : Conn → Bool) : Decidable (unreferenced s p) :=
  inferInstanceAs (Decidable (∀ conn ∈ s.conns, _))

/-- What removes connections finds nothing that waits for them: `OnConnIdle` the closed ones,
    the task of `Shutdown` the idle ones, `FinishShutdown` all. The server is not destroyed
    while its grace timer is armed. -/
def quietRemoval (c : Conf) : Label → Prop
  | .resume =>
      match c.frames with
      | .onReadRest :: _ => unreferenced c.st Conn.closed
      | .onStreamCloseRest id sid :: _ =>
          -- the call's own deadline is cancelled first
          unreferenced { c.st with deadlines := c.st.deadlines.filter fun t => t ≠ (id, sid) }
            Conn.closed
      | .finishEnd :: _ => unreferenced c.st fun _ => true
      | _ => True
  | .event (.streamClose id sid) =>
      (∀ conn ∈ c.st.find id, ∀ call ∈ conn.calls, call.sid ≠ sid) → unreferenced c.st Conn.closed
  | .event .shutdownTask => unreferenced c.st fun conn => conn.calls.isEmpty
  | .event .destroy => c.st.grace = false
  | _ => True

instance (c : Conf) : (l : Label) → Decidable (quietRemoval c l)
  | .resume =>
      match c with
      | ⟨s, .onReadRest :: _⟩ => inferInstanceAs (Decidable (unreferenced s Conn.closed))
      | ⟨s, .onStreamCloseRest id sid :: _⟩ => inferInstanceAs (Decidable (unreferenced
          { s with deadlines := s.deadlines.filter fun t => t ≠ (id, sid) } Conn.closed))
      | ⟨s, .finishEnd :: _⟩ => inferInstanceAs (Decidable (unreferenced s fun _ => true))
      | ⟨_, []⟩ | ⟨_, .finishConn _ :: _⟩ | ⟨_, .finishSocket _ :: _⟩ => isTrue trivial
  | .event (.streamClose id sid) => inferInstanceAs (Decidable
      ((∀ conn ∈ c.st.find id, ∀ call ∈ conn.calls, call.sid ≠ sid) →
        unreferenced c.st Conn.closed))
  | .event .shutdownTask =>
      inferInstanceAs (Decidable (unreferenced c.st fun conn => conn.calls.isEmpty))
  | .event .destroy => inferInstanceAs (Decidable (c.st.grace = false))
  | .event .start | .event (.startTask _) | .event .shutdown | .event .graceTimer
  | .event .listenerClosed | .event .accept | .event (.openStream ..) | .event (.dispatch ..)
  | .event (.stopDeadline ..) | .event (.deadline ..) | .event (.postPump _) | .event .pump
  | .event (.connLost _) => isTrue trivial

structure Anchored (s : State) : Prop where
  deadlines : ∀ t ∈ s.deadlines, ∃ conn ∈ s.conns, conn.id = t.1
  pumps : ∀ id ∈ s.pumps, ∃ conn ∈ s.conns, conn.id = id
  grace : s.grace = true → s.alive = true

theorem anchored_fresh : Anchored fresh.st := ⟨nofun, nofun, nofun⟩

theorem Anchored.update {id : Nat} {f : Conn → Conn} (h : Anchored s)
    (hf : ∀ conn, (f conn).id = conn.id) : Anchored (s.update id f) := by
  have hstill : ∀ id', (∃ conn ∈ s.conns, conn.id = id') →
      ∃ conn ∈ (s.update id f).conns, conn.id = id' := by
    rintro id' ⟨conn, hconn, rfl⟩
    refine ⟨_, State.mem_update.mpr ⟨conn, hconn, rfl⟩, ?_⟩
    split
    · exact hf conn
    · rfl
  exact { h with
    deadlines := fun t ht => hstill _ (h.deadlines t ht)
    pumps := fun id' hid => hstill _ (h.pumps id' hid) }

/-- The connections with `p` are kept, and nothing waits for the others. -/
theorem Anchored.filter (h : Anchored s) {p p' : Conn → Bool}
    (hp : ∀ conn, p conn = false → p' conn = true) (hun : unreferenced s p') :
    Anchored { s with conns := s.conns.filter p } := by
  have hkeep : ∀ conn ∈ s.conns, p' conn ≠ true → conn ∈ s.conns.filter p := by
    intro conn hconn hnot
    refine List.mem_filter.mpr ⟨hconn, ?_⟩
    by_contra hgone
    exact hnot (hp conn (by simpa using hgone))
  refine { h with deadlines := fun t ht => ?_, pumps := fun id hid => ?_ }
  · obtain ⟨conn, hconn, heq⟩ := h.deadlines t ht
    exact ⟨conn, hkeep conn hconn fun hgone => (hun conn hconn hgone).1 t ht heq.symm, heq⟩
  · obtain ⟨conn, hconn, rfl⟩ := h.pumps id hid
    exact ⟨conn, hkeep conn hconn fun hgone => (hun conn hconn hgone).2 hid, rfl⟩

theorem anchored_idle {t : State} (h : Anchored s) (hun : unreferenced s Conn.closed)
    (hi : Idle s t) : Anchored t := by
  have hpurge : Anchored { s with conns := s.conns.filter fun conn => !conn.closed } :=
    h.filter (by simp) hun
  cases hi with
  | relock hlocked => exact { h with }
  | purge hlocked hstay => exact hpurge
  | last hlocked hreq hnil hdrained hlisten =>
      rw [hnil] at hpurge
      exact { hpurge with }

/-- Cancelled or fired, a deadline is armed no more. -/
theorem Anchored.disarm (h : Anchored s) (p : Nat × Nat → Bool) :
    Anchored { s with deadlines := s.deadlines.filter p } :=
  { h with deadlines := fun t ht => h.deadlines t (List.mem_filter.mp ht).1 }

theorem anchored_onStreamClose {id sid : Nat} {t : State} (h : Anchored s)
    (hun : unreferenced { s with deadlines := s.deadlines.filter fun t => t ≠ (id, sid) } Conn.closed)
    (hi : Idle (eraseCall s id sid) t) : Anchored t := by
  have herase : Anchored (eraseCall s id sid) :=
    (h.disarm fun t => t ≠ (id, sid)).update fun _ => rfl
  refine anchored_idle herase (fun conn hconn hclosed => ?_) hi
  obtain ⟨conn', hconn', rfl⟩ := State.mem_update.mp hconn
  split at hclosed
  · next hid =>
      rw [if_pos hid]
      exact hun conn' hconn' hclosed
  · next hid =>
      rw [if_neg hid]
      exact hun conn' hconn' hclosed

theorem anchored_openStream {id sid : Nat} {deadline : Bool} {conn : Conn} (h : Anchored s)
    (hfind : s.find id = some conn) : Anchored (openStream s id sid deadline) := by
  have hup : Anchored (s.update id fun conn =>
      { conn with calls := conn.calls ++ [{ sid, late := s.swept }] }) := h.update fun _ => rfl
  refine { hup with deadlines := fun t ht => ?_ }
  have hnew : t ∈ s.deadlines ∨ t = (id, sid) := by
    cases deadline with
    | true => simpa [openStream] using ht
    | false => exact .inl ht
  rcases hnew with hold | rfl
  · exact hup.deadlines t hold
  · obtain ⟨hconn, rfl⟩ := State.mem_of_find hfind
    exact ⟨_, State.mem_update.mpr ⟨conn, hconn, rfl⟩, by simp⟩

theorem anchored_rule (h : Anchored c.st) (hok : quietRemoval c l) (hr : Rule c l d) :
    Anchored d.st := by
  cases hr with
  | hang hs => exact h
  | onRead hs hf hidle =>
      simp only [quietRemoval, hf] at hok
      exact anchored_idle h hok hidle
  | onStreamClose hs hf hidle =>
      simp only [quietRemoval, hf] at hok
      exact anchored_onStreamClose h hok hidle
  | finishConn hs hf => exact h.update fun _ => rfl
  | @finishSocket id fs hs hf =>
      have hup : Anchored (c.st.update id fun conn => { conn with socket := false }) :=
        h.update fun _ => rfl
      exact { hup with }
  | finishClose hs hf hdrained hlisten =>
      simp only [quietRemoval, hf] at hok
      have hclear : Anchored { c.st with conns := c.st.conns.filter fun _ => false } :=
        h.filter (fun _ _ => rfl) hok
      simp only [List.filter_false] at hclear
      exact { hclear with }
  | finishDrain hs hf hdrained hlisten =>
      simp only [quietRemoval, hf] at hok
      have hclear : Anchored { c.st with conns := c.st.conns.filter fun _ => false } :=
        h.filter (fun _ _ => rfl) hok
      simp only [List.filter_false] at hclear
      exact { hclear with }
  | start hs halive hdone => exact { h with }
  | shutdownAgain hs h' => exact h
  | shutdown hs halive hdone hreq => exact { h with }
  | destroy hs hf h' =>
      have hoff : c.st.grace = false := hok
      exact { h with grace := fun hgrace => by simp [hoff] at hgrace }
  | startTask hs hf hposted => exact { h with }
  | deadTask hs hf hposted halive => exact { h with }
  | taskGrace hs hf hlocked hposted halive hbusy =>
      have hidle : Anchored { c.st with conns := c.st.conns.filter fun conn => !conn.calls.isEmpty } :=
        h.filter (by simp) hok
      exact { hidle with grace := fun _ => halive }
  | taskClose hs hf hlocked hposted halive hidle hlisten =>
      have hidle : Anchored { c.st with conns := c.st.conns.filter fun conn => !conn.calls.isEmpty } :=
        h.filter (by simp) hok
      exact { hidle with }
  | taskRelock hs hf hlocked hposted halive hidle hlisten =>
      have hidle : Anchored { c.st with conns := c.st.conns.filter fun conn => !conn.calls.isEmpty } :=
        h.filter (by simp) hok
      exact { hidle with }
  | postPump hs hfind =>
      obtain ⟨hconn, rfl⟩ := State.mem_of_find hfind
      refine { h with pumps := fun id hid => ?_ }
      rcases List.mem_append.mp hid with hold | hone
      · exact h.pumps id hold
      · exact ⟨_, hconn, (List.mem_singleton.mp hone).symm⟩
  | pump hs hf hpumps =>
      exact { h with pumps := fun id hid => h.pumps id (hpumps ▸ List.mem_cons_of_mem _ hid) }
  | graceLate hs hf hgrace h' => exact { h with grace := nofun }
  | grace hs hf hlocked hgrace hdrained => exact { h with grace := nofun }
  | stopDeadline hs => exact h.disarm _
  | deadline hs hf => exact h.disarm _
  | closedLate hs hf hclosing hdrained => exact { h with }
  | closed hs hf hclosing hdrained => exact { h with }
  | accept hs hf hserving =>
      have hmore : ∀ id, (∃ conn ∈ c.st.conns, conn.id = id) →
          ∃ conn ∈ (accept c.st).conns, conn.id = id :=
        fun _ ⟨conn, hconn, hid⟩ => ⟨conn, List.mem_append_left _ hconn, hid⟩
      exact { h with
        deadlines := fun t ht => hmore _ (h.deadlines t ht)
        pumps := fun id hid => hmore _ (h.pumps id hid) }
  | openStream hs hf hfind => exact anchored_openStream h hfind
  | @dispatch id sid conn call hs hf hfind hcall =>
      have hup : Anchored (c.st.update id fun conn => { conn with
          calls := conn.calls.map fun c =>
            if c.sid = call.sid then { c with dispatched := true } else c }) :=
        h.update fun _ => rfl
      exact { hup with }
  | streamClose hs => exact h
  | streamCloseUnknown hs hfind hnone hidle =>
      refine anchored_idle h (hok fun conn hconn => ?_) hidle
      rw [hfind] at hconn
      cases hconn
      exact hnone
  | connLost hs hf hfind => exact h.update fun _ => rfl

/-- Every armed deadline and every posted `PumpOut` that its guard lets run belongs to a
    connection in `conns`, and an armed grace timer to a server that is not destroyed. -/
theorem no_dangling_work (h : machine.Reach quietRemoval fresh c) :
    (∀ t ∈ c.st.deadlines, ∃ conn ∈ c.st.conns, conn.id = t.1) ∧
      (c.st.alive = true → ∀ id ∈ c.st.pumps, ∃ conn ∈ c.st.conns, conn.id = id) ∧
      (c.st.grace = true → c.st.alive = true) := by
  have ha : Anchored c.st :=
    reach_inv (I := fun c => Anchored c.st) anchored_fresh (fun _ _ _ _ => anchored_rule) h
  exact ⟨ha.deadlines, fun _ => ha.pumps, ha.grace⟩

theorem no_dangling_work_busy :
    ∃ c, machine.Reach quietRemoval fresh c ∧ c.st.grace = true ∧ c.st.alive = true ∧
      ∃ conn ∈ c.st.conns, conn.id = 0 := by
  obtain ⟨c, hc, hgrace, hpump⟩ : ∃ c, machine.run quietRemoval fresh
      (draining ++ [.event (.postPump 0)]) = some c ∧ c.st.grace = true ∧ 0 ∈ c.st.pumps :=
    ⟨_, rfl, rfl, List.mem_cons_self⟩
  have hr := Resume.System.reach_of_run _ _ _ hc
  obtain ⟨-, hpumps, halive⟩ := no_dangling_work hr
  exact ⟨c, hr, hgrace, halive hgrace, hpumps (halive hgrace) 0 hpump⟩

/-- A connection is lost with a deadline armed, or with a `PumpOut` posted; the last connection
    of a drain is lost before the grace timer, and the server destroyed. -/
theorem dangling_work :
    (∃ c, machine.run (fun _ _ => True) fresh
      [.event .start, .event (.startTask .listening), .event .accept, .event (.openStream 0 1 true),
        .event (.connLost 0), .resume] = some c ∧ c.st.deadlines = [(0, 1)] ∧ c.st.conns = []) ∧
    (∃ c, machine.run (fun _ _ => True) fresh
      [.event .start, .event (.startTask .listening), .event .accept, .event (.openStream 0 1 false),
        .event (.postPump 0), .event (.connLost 0), .resume] = some c ∧
        c.st.alive = true ∧ c.st.pumps = [0] ∧ c.st.conns = []) ∧
    ∃ c, machine.run (fun _ _ => True) fresh
      (draining ++ [.event (.connLost 0), .resume, .event .listenerClosed, .event .destroy]) =
        some c ∧ c.st.grace = true ∧ c.st.alive = false :=
  ⟨⟨_, rfl, rfl, rfl⟩, ⟨_, rfl, rfl, rfl, rfl⟩, ⟨_, rfl, rfl, rfl⟩⟩

end Urpc.Server.Impl
