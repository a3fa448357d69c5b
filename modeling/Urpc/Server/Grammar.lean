/-
  The response grammar: what a server stream with one request header block submits is always a
  prefix of
    one trailers-only HEADERS block, or
    HEADERS (:status 200), any number of DATA bodies, one trailers block.

  `Word p subs` reads the submissions so far, `p` says how far the response has come.
  `Lawful p v` is the invariant that ties `p` to the call's flags: `responded`,
  `responseHeadersSent`, `outInflight`, `hasFinishPending`, the context's kind and the
  waiting frames. At most one waiting frame may submit, and at most one body is on its way
  (`one`, `flight`).

  Proved: `lawful_step` (every rule keeps it), `response_grammar`, and that a second block breaks it
  (`request_trailers_break_grammar`).
-/
import Urpc.Server.Writer

namespace Urpc.Server

open Cxx Writer

/-- How far a response has come. -/
inductive Phase where
  | start
  | opened
  | done
  deriving DecidableEq

/-- The submissions of a lawful response, up to now. -/
inductive Word : Phase → List Submission → Prop where
  | nil : Word .start []
  | only {w} (st : Status) : Word .start w → Word .done (w ++ [.headers (trailersOnlyFields st) true])
  | headers {w} : Word .start w → Word .opened (w ++ [.headers responseHeaders false])
  | data {w} (body : Bytes) : Word .opened w → Word .opened (w ++ [.data body false])
  | trailers {w} (fields : HeaderMap) : Word .opened w → Word .done (w ++ [.trailers fields])

/-- A whole response. -/
def Response (w : List Submission) : Prop :=
  (∃ st, w = [.headers (trailersOnlyFields st) true]) ∨
    ∃ (bodies : List Bytes) (fields : HeaderMap),
      w = .headers responseHeaders false :: bodies.map (.data · false) ++
      [.trailers fields]

theorem word_start {w : List Submission} (h : Word .start w) : w = [] := by
  cases h
  rfl

theorem word_opened {w : List Submission} (h : Word .opened w) :
    ∃ bodies : List Bytes,
      w = .headers responseHeaders false :: bodies.map (.data · false) := by
  generalize hp : Phase.opened = p at h
  induction h with
  | nil | only | trailers => cases hp
  | headers h0 =>
      rw [word_start h0]
      exact ⟨[], rfl⟩
  | data body _ ih =>
      obtain ⟨bodies, rfl⟩ := ih hp
      exact ⟨bodies ++ [body], by simp⟩

/-- What has been submitted is a prefix of a whole response. -/
theorem word_response {p : Phase} {subs : List Submission} (h : Word p subs) :
    ∃ w, Response w ∧ subs <+: w := by
  cases h with
  | nil => exact ⟨_, Or.inl ⟨{}, rfl⟩, List.nil_prefix⟩
  | only st h0 =>
      rw [word_start h0]
      exact ⟨_, Or.inl ⟨st, rfl⟩, List.prefix_rfl⟩
  | headers h0 =>
      rw [word_start h0]
      exact ⟨_, Or.inr ⟨[], [], rfl⟩, List.prefix_append _ _⟩
  | data body h1 =>
      obtain ⟨bodies, hb⟩ := word_opened (h1.data body)
      rw [hb]
      exact ⟨_, Or.inr ⟨bodies, [], rfl⟩, List.prefix_append _ _⟩
  | trailers fields h1 =>
      obtain ⟨bodies, rfl⟩ := word_opened h1
      exact ⟨_, Or.inr ⟨bodies, fields, rfl⟩, List.prefix_rfl⟩

/-- A terminal block is the last submission, and the only one. -/
theorem word_terminal {p : Phase} {subs : List Submission} {block : Submission} (h : Word p subs)
    (hb : block ∈ subs) (ht : block.isTerminal = true) :
    ∃ pre, subs = pre ++ [block] ∧ terminals pre = [] := by
  have hopen : ∀ {w}, Word .opened w → terminals w = [] := by
    intro w hw
    obtain ⟨bodies, rfl⟩ := word_opened hw
    simp [terminals, Submission.isTerminal]
  have hlast : ∀ {w : List Submission} {b}, terminals w = [] → block ∈ w ++ [b] →
      ∃ pre, w ++ [b] = pre ++ [block] ∧ terminals pre = [] := by
    intro w b hw hmem
    rcases List.mem_append.mp hmem with hin | hin
    · have : block ∈ terminals w := List.mem_filter.mpr ⟨hin, ht⟩
      simp [hw] at this
    · obtain rfl := List.mem_singleton.mp hin
      exact ⟨w, rfl, hw⟩
  cases h with
  | nil => simp at hb
  | only st h0 => exact hlast (by rw [word_start h0]; rfl) hb
  | headers h0 =>
      rw [word_start h0, List.nil_append, List.mem_singleton] at hb
      subst hb
      cases ht
  | data body h1 => exact hlast (hopen h1) hb
  | trailers fields h1 => exact hlast (hopen h1) hb

/-! ## One body on its way -/

/-- Frames that submit a streamed body. -/
def Frame.pumps : Frame → Bool
  | .pumpOutData _ => true
  | _ => false

/-- Frames that submit a unary response. -/
def Frame.responds : Frame → Bool
  | .respondData _ | .respondTrailers => true
  | _ => false

def pumping (fs : List Frame) : Nat := fs.countP Frame.pumps

def responding (fs : List Frame) : Nat := fs.countP Frame.responds

@[simp] theorem pumping_nil : pumping [] = 0 := rfl

@[simp] theorem responding_nil : responding [] = 0 := rfl

@[simp] theorem pumping_cons (f : Frame) (fs : List Frame) :
    pumping (f :: fs) = pumping fs + if f.pumps then 1 else 0 := List.countP_cons

@[simp] theorem responding_cons (f : Frame) (fs : List Frame) :
    responding (f :: fs) = responding fs + if f.responds then 1 else 0 := List.countP_cons

/-- `n` streamed bodies are on their way from the queue to their notification; the call, if it
    is still there, has `outInflight` set when there is one. -/
structure Flight (opened : Bool) (n : Nat) (inflight : Option Bool) : Prop where
  le : n ≤ 1
  known : 0 < n → ∀ b, inflight = some b → b = true
  fresh : opened = false → n = 0

namespace Flight

variable {opened : Bool} {n m : Nat} {inflight : Option Bool}

theorem mono (h : Flight opened n inflight) (hm : m ≤ n) : Flight opened m inflight :=
  ⟨Nat.le_trans hm h.le, fun h0 => h.known (Nat.lt_of_lt_of_le h0 hm),
    fun ho => by have := h.fresh ho; omega⟩

/-- A call without `outInflight` has no body on its way. -/
theorem idle (h : Flight opened n (some false)) : n = 0 := by
  by_contra hne
  cases h.known (by omega) false rfl

end Flight

namespace Writer

/-- A count of bodies at the session: `SendData` may raise it, a notification lowers it. -/
structure Tally (m : Sender (Option CbId) → Nat) : Prop where
  headers : ∀ s fields e, m (s.sendHeaders fields e) ≤ m s
  data : ∀ s data cb, m (s.sendData data false (some cb)) ≤ m s + 1
  trailers : ∀ s fields, m (s.sendTrailers fields) ≤ m s
  credit : ∀ s n, m (s.credit n) ≤ m s
  close : ∀ s, m s.close ≤ m s
  note : ∀ s cb notes, s.notes = cb :: notes → m { s with notes } + 1 ≤ m s

theorem tally_aloft : Tally Sender.aloft where
  headers s fields e := Nat.le_of_eq (s.sendHeaders_aloft fields e)
  data s data cb := s.sendData_aloft data false (some cb)
  trailers := Sender.sendTrailers_aloft
  credit s n := Nat.le_of_eq (s.credit_aloft n)
  close := Sender.close_aloft
  note s cb notes h := by
    simp only [Sender.aloft, h, List.length_cons]
    omega

theorem tally_owedBy {q : Option (Option CbId) → Bool} (hq : ∀ cb, q (some cb) = true) :
    Tally (Sender.owedBy q) where
  headers s fields e := Nat.le_of_eq (s.sendHeaders_owedBy q fields e)
  data s data cb := Nat.le_trans (s.sendData_owedBy q data false (some cb)) (by simp [hq])
  trailers := Sender.sendTrailers_owedBy q
  credit := Sender.credit_owedBy q
  close := Sender.close_owedBy q
  note s cb notes h := by
    have := Sender.note_owedBy q h
    rw [hq, Bool.toNat_true] at this
    exact Nat.le_of_eq this

section Flying

variable {m : Sender (Option CbId) → Nat} {t : Trigger} {v w : Writer} {k : WriteSide}

/-- Streamed bodies on their way, counted by `m` once they are at the session. -/
def flying (m : Sender (Option CbId) → Nat) (v : Writer) : Nat := m v.h2 + pumping v.todo

def Flying (m : Sender (Option CbId) → Nat) (v : Writer) : Prop :=
  Flight v.opened (flying m v) (v.call.map WriteSide.outInflight)

theorem Flying.idle (hf : Flying m v) (hc : v.call = some k) (hi : k.outInflight = false) :
    m v.h2 + pumping v.todo = 0 := by
  unfold Flying at hf
  rw [hc, Option.map_some, hi] at hf
  exact Flight.idle hf

theorem Flying.mono (hf : Flying m v) (hm : m w.h2 ≤ m v.h2)
    (hp : pumping w.todo ≤ pumping v.todo)
    (hc : w.call.map WriteSide.outInflight = v.call.map WriteSide.outInflight)
    (ho : w.opened = false → v.opened = false) : Flying m w := by
  unfold Flying at hf ⊢
  rw [hc]
  have := Flight.mono hf (Nat.add_le_add hm hp)
  exact ⟨this.le, this.known, fun h => this.fresh (ho h)⟩

theorem Dispatched.opened (hd : Dispatched v) (hc : v.call = some k) : v.opened ≠ false := by
  intro ho
  have := hd.fresh ho
  rw [hc] at this
  cases this

theorem flying_pump {out : OutMsg} {queue : List OutMsg} (hm : Tally m) (hd : Dispatched v)
    (hf : Flying m v) (hc : v.call = some k) (hi : k.outInflight = false)
    (h : Pump v k out queue w) : Flying m w := by
  have h0 := hf.idle hc hi
  have hopen := hd.opened hc
  cases h with
  | first =>
      have := hm.headers v.h2 responseHeaders false
      refine ⟨?_, by simp [Writer.pumped], fun ho => absurd ho hopen⟩
      simp only [flying, pumping_cons, Frame.pumps, if_true]
      omega
  | next =>
      have := hm.data v.h2 out.framed out.cb
      refine ⟨?_, by simp [Writer.pumped], fun ho => absurd ho hopen⟩
      simp only [flying]
      omega

/-- At most one streamed body is on its way, provided the body of a unary response, sent
    without a notification, is not counted. -/
theorem flying_step (hm : Tally m) (hd : Dispatched v) (hf : Flying m v)
    (hresp : ∀ framed rest, t = .frame (.respondData framed) →
      v.todo = .respondData framed :: rest → m (v.h2.sendData framed false none) ≤ m v.h2)
    (h : Step t v w) : Flying m w := by
  cases h with
  | quiet | finishIgnored => exact hf
  | badHeaders => exact hf.mono (hm.headers _ _ _) (Nat.le_refl _) rfl (by simp)
  | created ho _ | unrouted ho _ | createdStream ho _ =>
      have h0 : m v.h2 + pumping v.todo = 0 := hf.fresh ho
      refine ⟨?_, ?_, by simp⟩ <;> simp only [flying] <;> omega
  | requestEnded hc | dispatchedUnary hc | dispatchedStream hc | rejected hc | queued hc
  | writeDone hc | finishDeferred hc | cancelOut _ hc =>
      exact hf.mono (Nat.le_refl _) (Nat.le_refl _) (by simp [hc]) id
  | answered hc | respondErr hc | finishOnly hc =>
      exact hf.mono (hm.headers _ _ _) (Nat.le_refl _) (by simp [hc]) id
  | respondOk hc => exact hf.mono (hm.headers _ _ _) (by simp [Frame.pumps]) (by simp [hc]) id
  | respondData ht =>
      exact hf.mono (hresp _ _ rfl ht) (by simp [ht, Frame.pumps]) rfl id
  | respondTrailers ht => exact hf.mono (hm.trailers _ _) (by simp [ht]) rfl id
  | deadlineFired ht | deadlineLate ht | consumedRest ht | connectionLost ht | cancelEnd ht =>
      exact hf.mono (Nat.le_refl _) (by simp [ht, Frame.pumps]) rfl id
  | deadlineTrailers ht hc | deferredFinish ht hc =>
      exact hf.mono (hm.trailers _ _) (by simp [ht]) (by simp [hc]) id
  | deadlineOnly ht hc => exact hf.mono (hm.headers _ _ _) (by simp [ht]) (by simp [hc]) id
  | written hc _ _ _ hi _ hp =>
      refine flying_pump hm ?_ ?_ ?_ hi hp
      · exact hd
      · exact hf
      · exact hc
  | pumped hc _ _ _ hi hp => exact flying_pump hm hd hf hc hi hp
  | @pumpOutData _ out rest ht =>
      have hdata := hm.data v.h2 out.framed out.cb
      have hcount : pumping v.todo = pumping rest + 1 := by
        rw [ht, pumping_cons, Frame.pumps, if_pos rfl]
      refine Flight.mono hf ?_
      simp only [flying]
      omega
  | consumed hn =>
      -- the notification was the one body on its way
      have hle : m v.h2 + pumping v.todo ≤ 1 := hf.le
      have := hm.note _ _ _ hn
      refine ⟨?_, ?_, ?_⟩ <;> simp only [flying, pumping_cons, Frame.pumps,
        Bool.false_eq_true, if_false] <;> omega
  | finishTrailers hc => exact hf.mono (hm.trailers _ _) (Nat.le_refl _) (by simp [hc]) id
  | credit => exact hf.mono (hm.credit _ _) (Nat.le_refl _) rfl id
  | closeIdle | close => exact hf.mono (hm.close _) (by simp [Frame.pumps]) rfl id
  | @erase _ rest ht =>
      have hle : pumping rest ≤ pumping v.todo := by simp [ht]
      have := Flight.mono hf (Nat.add_le_add_left hle _)
      exact ⟨this.le, by simp, this.fresh⟩

end Flying

/-! ## Whose turn it is -/

/-- Which frames can wait to submit, by the call's flags and the kind of its context. -/
structure Turn (k : WriteSide) (stream : Option Bool) (pumps responds : Nat) : Prop where
  responder : 0 < responds → k.responded = true ∧ stream = some false
  pumper : 0 < pumps → stream = some true
  busy : k.outInflight = true ∨ k.outQueue ≠ [] → k.responseHeadersSent = true
  sent : k.responseHeadersSent = true → stream = some true
  deferred : k.hasFinishPending = true → k.responded = true ∧ stream = some true

/-- A call that has not answered has no frame of `Respond` waiting. -/
theorem Turn.unanswered {k : WriteSide} {stream : Option Bool} {pumps responds : Nat}
    (h : Turn k stream pumps responds) (hr : k.responded = false) : responds = 0 := by
  by_contra hne
  have := (h.responder (by omega)).1
  rw [hr] at this
  cases this

theorem Turn.mono {k : WriteSide} {stream : Option Bool} {p q r s : Nat}
    (h : Turn k stream p r) (hp : q ≤ p) (hr : s ≤ r) : Turn k stream q s :=
  ⟨fun h0 => h.responder (by omega), fun h0 => h.pumper (by omega), h.busy, h.sent, h.deferred⟩

structure Turns (v : Writer) : Prop where
  fresh : v.opened = false → responding v.todo = 0
  one : pumping v.todo + responding v.todo ≤ 1
  turn : ∀ k, v.call = some k → Turn k v.stream (pumping v.todo) (responding v.todo)

/-- Frames may go. -/
theorem Turns.mono {v w : Writer} (ht : Turns v) (hp : pumping w.todo ≤ pumping v.todo)
    (hr : responding w.todo ≤ responding v.todo) (ho : w.opened = v.opened)
    (hk : ∀ k, w.call = some k → Turn k w.stream (pumping v.todo) (responding v.todo)) :
    Turns w := by
  have h2 := ht.one
  refine ⟨fun h => ?_, by omega, fun k hc => (hk k hc).mono hp hr⟩
  have := ht.fresh (ho ▸ h)
  omega

theorem turns_pump {v w : Writer} {k : WriteSide} {out : OutMsg} {queue : List OutMsg}
    (hf : Flying Sender.aloft v) (ht : Turns v) (hc : v.call = some k) (hs : v.stream = some true)
    (hr : k.responded = false) (hi : k.outInflight = false) (h : Pump v k out queue w) :
    Turns w := by
  have hk := ht.turn k hc
  have hresp := hk.unanswered hr
  have hpump : pumping v.todo = 0 := by
    have := hf.idle hc hi
    omega
  cases h with
  | first hh =>
      refine ⟨?_, ?_, ?_⟩
      · simpa [Frame.responds] using ht.fresh
      · simp [Frame.pumps, Frame.responds, hresp, hpump]
      · rintro _ ⟨⟩
        refine ⟨?_, fun _ => hs, fun _ => rfl, fun _ => hs, hk.deferred⟩
        simp [Frame.responds, hresp]
  | next hh =>
      refine ⟨ht.fresh, ht.one, ?_⟩
      rintro _ ⟨⟩
      exact ⟨hk.responder, hk.pumper, fun _ => hh, hk.sent, hk.deferred⟩

theorem turns_step {t : Trigger} {v w : Writer} (hd : Dispatched v) (hf : Flying Sender.aloft v)
    (ht : Turns v) (h : Step t v w) : Turns w := by
  cases h with
  | quiet | finishIgnored | credit | closeIdle => exact ⟨ht.fresh, ht.one, ht.turn⟩
  | badHeaders => exact ⟨by simp, ht.one, ht.turn⟩
  | created ho _ | unrouted ho _ | createdStream ho _ =>
      have h1 := ht.fresh ho
      have h2 : v.h2.aloft + pumping v.todo = 0 := hf.fresh ho
      refine ⟨by simp, ht.one, ?_⟩
      rintro _ ⟨⟩
      refine ⟨?_, ?_, by simp, by simp, by simp⟩ <;> dsimp only <;> omega
  | requestEnded hc | writeDone hc =>
      have hk := ht.turn _ hc
      refine ⟨ht.fresh, ht.one, ?_⟩
      rintro _ ⟨⟩
      exact ⟨hk.responder, hk.pumper, hk.busy, hk.sent, hk.deferred⟩
  | answered hc | rejected hc | respondErr hc | finishOnly hc | finishTrailers hc =>
      have hk := ht.turn _ hc
      refine ⟨ht.fresh, ht.one, ?_⟩
      rintro _ ⟨⟩
      exact ⟨fun h => ⟨rfl, (hk.responder h).2⟩, hk.pumper, hk.busy, hk.sent,
        fun h => ⟨rfl, (hk.deferred h).2⟩⟩
  | finishDeferred hc hs =>
      have hk := ht.turn _ hc
      refine ⟨ht.fresh, ht.one, ?_⟩
      rintro _ ⟨⟩
      exact ⟨fun h => ⟨rfl, (hk.responder h).2⟩, hk.pumper, hk.busy, hk.sent, fun _ => ⟨rfl, hs⟩⟩
  | queued hc _ _ _ hi =>
      have hk := ht.turn _ hc
      refine ⟨ht.fresh, ht.one, ?_⟩
      rintro _ ⟨⟩
      exact ⟨hk.responder, hk.pumper, fun _ => hk.busy (.inl hi), hk.sent, hk.deferred⟩
  | dispatchedUnary hc hs | dispatchedStream hc hs =>
      have hk := ht.turn _ hc
      rw [hs] at hk
      refine ⟨ht.fresh, ht.one, ?_⟩
      rintro _ ⟨⟩
      refine ⟨fun h => ?_, fun h => ?_, hk.busy, fun h => ?_, fun h => ?_⟩
      · cases (hk.responder h).2
      · cases hk.pumper h
      · cases hk.sent h
      · cases (hk.deferred h).2
  | respondOk hc hs hr =>
      have hk := ht.turn _ hc
      have hresp := hk.unanswered hr
      have hpump : pumping v.todo = 0 := by
        by_contra hne
        cases hs.symm.trans (hk.pumper (by omega))
      refine ⟨fun ho => absurd ho (hd.opened hc),
        by simp [hresp, hpump, Frame.pumps, Frame.responds], ?_⟩
      rintro _ ⟨⟩
      exact ⟨fun _ => ⟨rfl, hs⟩, by simp [hpump, Frame.pumps], hk.busy, hk.sent,
        fun h => ⟨rfl, (hk.deferred h).2⟩⟩
  | respondData hf | respondTrailers hf | pumpOutData hf | deadlineLate hf | consumedRest hf
  | cancelEnd hf =>
      refine ht.mono ?_ ?_ rfl ht.turn <;> simp [hf, Frame.pumps, Frame.responds]
  | deadlineFired hf | connectionLost hf =>
      refine ht.mono ?_ ?_ rfl ht.turn <;> simp [hf, Frame.pumps, Frame.responds]
  | close =>
      refine ht.mono ?_ ?_ rfl ht.turn <;> simp [Frame.pumps, Frame.responds]
  | erase hf =>
      refine ht.mono ?_ ?_ rfl (by simp) <;> simp [hf, Frame.pumps, Frame.responds]
  | deadlineTrailers hf hc | deadlineOnly hf hc =>
      have hk := ht.turn _ hc
      refine ht.mono ?_ ?_ rfl ?_
      · simp [hf, Frame.pumps]
      · simp [hf, Frame.responds]
      · rintro _ ⟨⟩
        exact ⟨fun h => ⟨rfl, (hk.responder h).2⟩, hk.pumper, hk.busy, hk.sent,
          fun h => ⟨rfl, (hk.deferred h).2⟩⟩
  | deferredFinish hf hc =>
      have hk := ht.turn _ hc
      refine ht.mono ?_ ?_ rfl ?_
      · simp [hf, Frame.pumps]
      · simp [hf, Frame.responds]
      · rintro _ ⟨⟩
        exact ⟨hk.responder, hk.pumper, hk.busy, hk.sent, by simp⟩
  | cancelOut _ hc hq =>
      have hk := ht.turn _ hc
      refine ⟨ht.fresh, ht.one, ?_⟩
      rintro _ ⟨⟩
      exact ⟨hk.responder, hk.pumper, fun _ => hk.busy (.inr (by simp [hq])), hk.sent, hk.deferred⟩
  | consumed =>
      refine ht.mono ?_ ?_ rfl ?_
      · simp [Frame.pumps]
      · simp [Frame.responds]
      · intro k' hk'
        obtain ⟨k, hc, rfl⟩ := Option.map_eq_some_iff.mp hk'
        have hk := ht.turn k hc
        exact ⟨hk.responder, hk.pumper, fun h => hk.busy (.inr (by simpa using h)), hk.sent,
          hk.deferred⟩
  | written hc hs hr _ hi _ hp =>
      refine turns_pump ?_ ?_ ?_ ?_ hr hi hp
      · exact hf
      · exact ⟨ht.fresh, ht.one, ht.turn⟩
      · exact hc
      · exact hs
  | pumped hc hq hr _ hi hp =>
      have hk := ht.turn _ hc
      have hs := hk.sent (hk.busy (.inr (by simp [hq])))
      exact turns_pump hf ht hc hs hr hi hp

/-! ## The grammar -/

/-- The deadline's frame waits at the bottom of the stack. -/
def Bottom (fs : List Frame) : Prop := ∀ rest, Frame.onDeadlineRest :: rest <:+ fs → rest = []

theorem Bottom.cons {f : Frame} {fs : List Frame} (hb : Bottom fs) (hf : f ≠ .onDeadlineRest) :
    Bottom (f :: fs) := by
  intro rest hs
  rcases List.suffix_cons_iff.mp hs with h | h
  · cases h
    exact absurd rfl hf
  · exact hb rest h

theorem Bottom.tail {f : Frame} {fs : List Frame} (hb : Bottom (f :: fs)) : Bottom fs :=
  fun rest hs => hb rest (hs.trans (List.suffix_cons f fs))

theorem Bottom.deadline {fs rest : List Frame} (hb : Bottom fs)
    (h : fs = .onDeadlineRest :: rest) : rest = [] := by
  subst h
  exact hb rest List.suffix_rfl

theorem bottom_nil : Bottom [] := by
  intro rest hs
  simpa using hs.length_le

theorem bottom_deadline : Bottom [.onDeadlineRest] := by
  intro rest hs
  simpa using hs.length_le

theorem bottom_step {t : Trigger} {v w : Writer} (hb : Bottom v.todo) (h : Step t v w) :
    Bottom w.todo := by
  cases h with
  | respondOk | consumed => exact hb.cons (by simp)
  | close => exact (hb.cons (by simp)).cons (by simp)
  | respondData hf => exact (Bottom.tail (hf ▸ hb)).cons (by simp)
  | respondTrailers hf | deadlineLate hf | deadlineTrailers hf | deadlineOnly hf
  | pumpOutData hf | consumedRest hf | deferredFinish hf | cancelEnd hf | erase hf =>
      exact Bottom.tail (hf ▸ hb)
  | deadlineFired => exact bottom_deadline
  | connectionLost => exact bottom_nil.cons (by simp)
  | written _ _ _ _ _ _ hp | pumped _ _ _ _ _ hp =>
      cases hp with
      | first => exact hb.cons (by simp)
      | next => exact hb
  | _ => exact hb

/-- The submissions so far, and what the flags say about them. -/
structure Lawful (p : Phase) (v : Writer) : Prop where
  word : Word p v.h2.subs
  fresh : v.opened = false → p = .start
  waiting : 0 < pumping v.todo + responding v.todo → p = .opened
  live : ∀ k, v.call = some k → k.responded = false →
    p = if k.responseHeadersSent then .opened else .start
  deferred : ∀ k, v.call = some k → k.hasFinishPending = true → p = .opened

/-- After the terminal block: nothing waits, and the call knows. -/
theorem lawful_done {w : Writer} (hw : Word .done w.h2.subs) (ho : w.opened ≠ false)
    (hn : pumping w.todo + responding w.todo = 0)
    (hk : ∀ k, w.call = some k → k.responded = true ∧ k.hasFinishPending = false) :
    Lawful .done w := by
  refine ⟨hw, fun h => absurd h ho, fun h => by omega, fun k hc hr => ?_, fun k hc hp => ?_⟩
  · rw [(hk k hc).1] at hr
    cases hr
  · rw [(hk k hc).2] at hp
    cases hp

/-- Steps that submit nothing. -/
theorem Lawful.keep {p : Phase} {v w : Writer} (hl : Lawful p v) (hs : w.h2.subs = v.h2.subs)
    (ho : w.opened = v.opened)
    (hn : pumping w.todo + responding w.todo ≤ pumping v.todo + responding v.todo)
    (hk : ∀ k', w.call = some k' → ∃ k, v.call = some k ∧
      (k'.responded = false → k.responded = false ∧
        k'.responseHeadersSent = k.responseHeadersSent) ∧
      (k'.hasFinishPending = true → k.hasFinishPending = true)) : Lawful p w := by
  refine ⟨hs ▸ hl.word, fun h => hl.fresh (ho ▸ h), fun h => hl.waiting (by omega),
    fun k' hc hr => ?_, fun k' hc hp => ?_⟩
  · obtain ⟨k, hk1, hk2, -⟩ := hk k' hc
    rw [(hk2 hr).2]
    exact hl.live k hk1 (hk2 hr).1
  · obtain ⟨k, hk1, -, hk3⟩ := hk k' hc
    exact hl.deferred k hk1 (hk3 hp)

theorem lawful_pump {p : Phase} {v w : Writer} {k : WriteSide} {out : OutMsg}
    {queue : List OutMsg} (ho : v.opened ≠ false) (hl : Lawful p v) (hc : v.call = some k)
    (hr : k.responded = false) (h : Pump v k out queue w) : ∃ q, Lawful q w := by
  have hlive := hl.live k hc hr
  cases h with
  | first hh =>
      rw [hh] at hlive
      obtain rfl : p = .start := hlive
      refine ⟨.opened, ?_, fun h => absurd h ho, fun _ => rfl, ?_, fun _ _ _ => rfl⟩
      · rw [Sender.sendHeaders_subs]
        exact hl.word.headers
      · rintro _ ⟨⟩ _
        rfl
  | next hh =>
      rw [hh] at hlive
      obtain rfl : p = .opened := hlive
      refine ⟨.opened, ?_, fun h => absurd h ho, fun _ => rfl, ?_, fun _ _ _ => rfl⟩
      · rw [Sender.sendData_subs]
        exact hl.word.data _
      · rintro _ ⟨⟩ _
        simp [Writer.pumped, hh]

theorem lawful_step {t : Trigger} {v w : Writer} {p : Phase} (hd : Dispatched v)
    (hf : Flying Sender.aloft v) (ht : Turns v) (hb : Bottom v.todo) (hl : Lawful p v) (h : Step t v w) :
    ∃ q, Lawful q w := by
  -- before the response headers nothing waits
  have hstart : p = .start → pumping v.todo + responding v.todo = 0 := by
    rintro rfl
    by_contra hne
    cases hl.waiting (by omega)
  -- without response headers the response has not begun
  have hbegin : ∀ k, v.call = some k → k.responded = false → k.responseHeadersSent = false →
      p = .start := fun k hc hr hh => by rw [hl.live k hc hr, hh]; rfl
  have hnot : ∀ k, v.call = some k → v.stream ≠ some true → k.responseHeadersSent = false := by
    intro k hc hs
    by_contra hh
    exact hs ((ht.turn k hc).sent (by simpa using hh))
  -- a call that has not answered has no deferred finish
  have hpend : ∀ k, v.call = some k → k.responded = false → k.hasFinishPending = false := by
    intro k hc hr
    by_contra hp
    have := ((ht.turn k hc).deferred (by simpa using hp)).1
    rw [hr] at this
    cases this
  -- nor a waiting frame, when it has no body in flight
  have hquiet : ∀ k, v.call = some k → k.responded = false → k.outInflight = false →
      pumping v.todo + responding v.todo = 0 := by
    intro k hc hr hi
    have hresp := (ht.turn k hc).unanswered hr
    have := hf.idle hc hi
    omega
  cases h with
  | quiet | finishIgnored => exact ⟨p, hl.word, hl.fresh, hl.waiting, hl.live, hl.deferred⟩
  | credit | closeIdle =>
      exact ⟨p, hl.keep (by simp) rfl (Nat.le_refl _) fun k hc => ⟨k, hc, fun h => ⟨h, rfl⟩, id⟩⟩
  | close =>
      exact ⟨p, hl.keep (by simp) rfl (by simp [Frame.pumps, Frame.responds])
        fun k hc => ⟨k, hc, fun h => ⟨h, rfl⟩, id⟩⟩
  | deadlineLate hto | consumedRest hto | cancelEnd hto | deadlineFired hto
  | connectionLost hto =>
      exact ⟨p, hl.keep rfl rfl (by simp [hto, Frame.pumps, Frame.responds])
        fun k hc => ⟨k, hc, fun h => ⟨h, rfl⟩, id⟩⟩
  | erase hto =>
      exact ⟨p, hl.keep rfl rfl (by simp [hto, Frame.pumps, Frame.responds]) (by simp)⟩
  | requestEnded hc | writeDone hc | queued hc | dispatchedUnary hc | dispatchedStream hc
  | cancelOut _ hc =>
      refine ⟨p, hl.keep rfl rfl (Nat.le_refl _) ?_⟩
      rintro _ ⟨⟩
      exact ⟨_, hc, fun h => ⟨h, rfl⟩, id⟩
  | rejected hc =>
      refine ⟨p, hl.keep rfl rfl (Nat.le_refl _) ?_⟩
      rintro _ ⟨⟩
      exact ⟨_, hc, by simp, id⟩
  | consumed =>
      refine ⟨p, hl.keep rfl rfl (by simp [Frame.pumps, Frame.responds]) ?_⟩
      intro k' hk'
      obtain ⟨k, hc, rfl⟩ := Option.map_eq_some_iff.mp hk'
      exact ⟨k, hc, fun h => ⟨h, rfl⟩, id⟩
  | badHeaders ho hc =>
      obtain rfl := hl.fresh ho
      refine ⟨.done, lawful_done ?_ (by simp) (hstart rfl) (by simp [hc])⟩
      rw [Sender.sendHeaders_subs]
      exact hl.word.only _
  | created ho _ | unrouted ho _ | createdStream ho _ =>
      obtain rfl := hl.fresh ho
      refine ⟨.start, hl.word, by simp, hl.waiting, ?_, ?_⟩ <;> rintro _ ⟨⟩ <;> simp
  | answered hc hs hr | respondErr hc hs hr =>
      have hp := hpend _ hc hr
      obtain rfl := hbegin _ hc hr (hnot _ hc (by simp [hs]))
      refine ⟨.done, lawful_done ?_ (hd.opened hc) (hstart rfl) ?_⟩
      · rw [Sender.sendHeaders_subs]
        exact hl.word.only _
      · rintro _ ⟨⟩
        exact ⟨rfl, hp⟩
  | finishOnly hc _ hr _ _ hh =>
      have hp := hpend _ hc hr
      obtain rfl := hbegin _ hc hr hh
      refine ⟨.done, lawful_done ?_ (hd.opened hc) (hstart rfl) ?_⟩
      · rw [Sender.sendHeaders_subs]
        exact hl.word.only _
      · rintro _ ⟨⟩
        exact ⟨rfl, hp⟩
  | finishTrailers hc _ hr hi _ hh =>
      have hp := hpend _ hc hr
      obtain rfl : p = .opened := by rw [hl.live _ hc hr, hh]; rfl
      refine ⟨.done, lawful_done ?_ (hd.opened hc) (hquiet _ hc hr hi) ?_⟩
      · rw [Sender.sendTrailers_subs]
        exact hl.word.trailers _
      · rintro _ ⟨⟩
        exact ⟨rfl, hp⟩
  | finishDeferred hc hs hr hout =>
      obtain rfl : p = .opened := by rw [hl.live _ hc hr, (ht.turn _ hc).busy hout]; rfl
      refine ⟨.opened, hl.word, hl.fresh, hl.waiting, ?_, fun _ _ _ => rfl⟩
      rintro _ ⟨⟩ ⟨⟩
  | respondOk hc hs hr =>
      obtain rfl := hbegin _ hc hr (hnot _ hc (by simp [hs]))
      refine ⟨.opened, ?_, fun ho => absurd ho (hd.opened hc), fun _ => rfl, ?_, fun _ _ _ => rfl⟩
      · rw [Sender.sendHeaders_subs]
        exact hl.word.headers
      · rintro _ ⟨⟩ ⟨⟩
  | respondData hto =>
      obtain rfl : p = .opened := hl.waiting (by
        simp only [hto, pumping_cons, responding_cons, Frame.responds, if_true]
        omega)
      refine ⟨.opened, ?_, hl.fresh, fun _ => rfl, hl.live, hl.deferred⟩
      rw [Sender.sendData_subs]
      exact hl.word.data _
  | pumpOutData hto =>
      obtain rfl : p = .opened := hl.waiting (by
        simp only [hto, pumping_cons, responding_cons, Frame.pumps, if_true]
        omega)
      refine ⟨.opened, ?_, hl.fresh, fun _ => rfl, hl.live, hl.deferred⟩
      rw [Sender.sendData_subs]
      exact hl.word.data _
  | respondTrailers hto =>
      obtain rfl : p = .opened := hl.waiting (by
        simp only [hto, pumping_cons, responding_cons, Frame.responds, if_true]
        omega)
      have hresp : 0 < responding v.todo := by simp [hto, Frame.responds]
      have hone := ht.one
      refine ⟨.done, lawful_done ?_ ?_ ?_ ?_⟩
      · rw [Sender.sendTrailers_subs]
        exact hl.word.trailers _
      · intro ho
        cases hl.fresh ho
      · simp [hto, Frame.pumps, Frame.responds] at hone ⊢
        omega
      · intro k hc
        have hk := ht.turn k hc
        refine ⟨(hk.responder hresp).1, ?_⟩
        by_contra hp
        have h1 := (hk.deferred (by simpa using hp)).2
        cases (hk.responder hresp).2.symm.trans h1
  | deadlineTrailers hto hc hr _ hh =>
      obtain rfl : p = .opened := by rw [hl.live _ hc hr, hh]; rfl
      have hp := hpend _ hc hr
      -- the deadline's frame is the last one: nothing else waits
      obtain rfl := hb.deadline hto
      refine ⟨.done, lawful_done ?_ (hd.opened hc) rfl ?_⟩
      · rw [Sender.sendTrailers_subs]
        exact hl.word.trailers _
      · rintro _ ⟨⟩
        exact ⟨rfl, hp⟩
  | @deadlineOnly _ k _ hto hc hr hform =>
      have hp := hpend _ hc hr
      have hh : k.responseHeadersSent = false := by
        rcases hform with hu | hh
        · refine hnot k hc ?_
          have hd' := hd
          rw [Dispatched, hc] at hd'
          rcases (hd'.unary _ rfl hu).2 with hs | ⟨hs, -⟩ <;> simp [hs]
        · exact hh
      obtain rfl := hbegin _ hc hr hh
      obtain rfl := hb.deadline hto
      refine ⟨.done, lawful_done ?_ (hd.opened hc) rfl ?_⟩
      · rw [Sender.sendHeaders_subs]
        exact hl.word.only _
      · rintro _ ⟨⟩
        exact ⟨rfl, hp⟩
  | @deferredFinish _ k _ hto hc hp hi _ =>
      obtain rfl := hl.deferred _ hc hp
      have hk := ht.turn k hc
      obtain ⟨hr, hs⟩ := hk.deferred hp
      refine ⟨.done, lawful_done ?_ (hd.opened hc) ?_ ?_⟩
      · rw [Sender.sendTrailers_subs]
        exact hl.word.trailers _
      · have hpump := hf.idle hc hi
        have hresp : responding v.todo = 0 := by
          by_contra hne
          cases hs.symm.trans (hk.responder (by omega)).2
        simp only [hto, pumping_cons, responding_cons] at hpump hresp
        dsimp only
        omega
      · rintro _ ⟨⟩
        exact ⟨hr, rfl⟩
  | written hc _ hr _ _ _ hp =>
      refine lawful_pump (p := p) ?_ ?_ ?_ hr hp
      · exact hd.opened hc
      · exact ⟨hl.word, hl.fresh, hl.waiting, hl.live, hl.deferred⟩
      · exact hc
  | pumped hc _ hr _ _ hp => exact lawful_pump (hd.opened hc) hl hc hr hp

/-- All of it together. -/
structure Sound (v : Writer) : Prop where
  dispatched : Dispatched v
  flying : Flying Sender.aloft v
  turns : Turns v
  bottom : Bottom v.todo
  lawful : ∃ p, Lawful p v

theorem sound_step {t : Trigger} {v w : Writer} (hv : Sound v) (h : Step t v w) : Sound w := by
  obtain ⟨hd, hf, ht, hb, p, hl⟩ := hv
  exact ⟨dispatched_step hd h, 
    flying_step tally_aloft hd hf (fun _ _ _ _ => Sender.sendData_aloft _ _ _ _) h, turns_step hd hf ht h, bottom_step hb h,
    lawful_step hd hf ht hb hl h⟩

end Writer

/-- Before anything has happened on a stream. -/
def fresh : Conf := ⟨{}, []⟩

theorem sound_fresh : Sound (.of fresh) := by
  refine ⟨?_, ?_, ?_, bottom_nil, .start, ?_⟩
  · constructor <;> simp [Writer.of, writer, fresh]
  · constructor <;> simp [Writer.of, writer, fresh, flying, Sender.aloft]
  · constructor <;> simp [Writer.of, writer, fresh]
  · exact ⟨.nil, fun _ => rfl, by simp [Writer.of, writer, fresh], by simp [Writer.of, writer, fresh],
      by simp [Writer.of, writer, fresh]⟩

/-- Invariants of the writer along every run with one header block: one may use `Sound`. -/
theorem reach_writer {cfg : Config} {ok : Conf → Label → Prop} {I : Writer → Prop} {b d : Conf}
    (hone : ∀ c l, ok c l → oneBlock c l) (hb : Sound (.of b)) (h0 : I (.of b))
    (hstep : ∀ c l t w, ok c l → trigger c l = some t → Sound (.of c) → I (.of c) →
      Step t (.of c) w → I w)
    (h : (machine cfg).Reach ok b d) : Sound (.of d) ∧ I (.of d) := by
  refine h.inv (I := fun c => Sound (.of c) ∧ I (.of c)) ⟨hb, h0⟩ ?_
  rintro c l e ⟨hs, hi⟩ hok hce
  obtain ⟨t, ht, hst⟩ := writer_step hs.dispatched (hone c l hok) hce
  exact ⟨sound_step hs hst, hstep c l t _ hok ht hs hi hst⟩

theorem reach_sound {cfg : Config} {ok : Conf → Label → Prop} {d : Conf}
    (hone : ∀ c l, ok c l → oneBlock c l) (h : (machine cfg).Reach ok fresh d) :
    Sound (.of d) :=
  (reach_writer (I := fun _ => True) hone sound_fresh trivial (fun _ _ _ _ _ _ _ _ _ => trivial)
    h).1

/-- **Response grammar.** On every stream that receives one header block, whatever happens
    (DATA, END_STREAM, deadline, overflow, notifications, pumps, handler operations, close):
    the submissions are a prefix of a whole response. -/
theorem response_grammar (cfg : Config) (d : Conf) (h : (machine cfg).Reach oneBlock fresh d) :
    ∃ w, Response w ∧ d.st.h2.subs <+: w := by
  obtain ⟨p, hl⟩ := (reach_sound (fun _ _ h => h) h).lawful
  exact word_response hl.word

/-- A server with one method of each form. -/
def demo : Config where
  router path :=
    if path = str "/t/U" then some .unary
    else if path = str "/t/S" then some .serverStreaming
    else if path = str "/t/C" then some .clientStreaming
    else if path = str "/t/B" then some .bidi
    else none

def demoHeaders (path : String) : HeaderMap :=
  [(":path", str path), ("content-type", kContentType)]

/-- A bidi call, its handler already running. -/
def openBidi : List Label := [.event (.headers (demoHeaders "/t/B") false), .resume]

/-- A bidi handler that writes one message and finishes while it is in flight. -/
theorem response_grammar_bidi :
    ∃ d, (machine demo).Reach oneBlock fresh d ∧ d.st.h2.subs.length = 3 ∧
      ∃ w, Response w ∧ d.st.h2.subs <+: w := by
  obtain ⟨d, hd, hsubs⟩ := Option.map_eq_some_iff.mp (show
    ((machine demo).run oneBlock fresh (openBidi ++ [.event (.op (.writeMessage [7] none)), .resume,
      .event (.op (.finish .okay)), .event (.credit 100), .event .consumed, .resume])).map
      (fun d => d.st.h2.subs.length) = some 3 by decide)
  have hr := Resume.System.reach_of_run _ _ _ hd
  exact ⟨d, hr, hsubs, response_grammar demo d hr⟩

/-- The handler has written a message when the request ends with a trailing header block: a
    trailers-only block follows the response headers and the message. -/
theorem request_trailers_break_grammar :
    ∃ d, (machine demo).Reach (fun _ _ => True) fresh d ∧
      d.st.h2.subs = [.headers responseHeaders false, .data (encodeFrame [7]) false,
        .headers (trailersOnlyFields badRequestHeaders) true] ∧
      ¬ ∃ w, Response w ∧ d.st.h2.subs <+: w := by
  obtain ⟨d, hd, hsubs⟩ : ∃ d, (machine demo).run (fun _ _ => True) fresh (openBidi ++
      [.event (.op (.writeMessage [7] none)), .resume,
        .event (.headers [("checksum", [49])] true)]) = some d ∧
      d.st.h2.subs = [.headers responseHeaders false, .data (encodeFrame [7]) false,
        .headers (trailersOnlyFields badRequestHeaders) true] := ⟨_, rfl, rfl⟩
  refine ⟨d, Resume.System.reach_of_run _ _ _ hd, hsubs, ?_⟩
  rintro ⟨w, ⟨st, rfl⟩ | ⟨bodies, fields, rfl⟩, hpre⟩
  -- the lawful words have no second header block
  all_goals simpa [hsubs, responseHeaders] using hpre.subset

end Urpc.Server
